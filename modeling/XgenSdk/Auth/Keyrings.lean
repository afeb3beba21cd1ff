import XgenSdk.Auth.Principal
import XgenSdk.Lib.Checks

/-! Which key an assertion is verified with: one that the configuration of the
claimed issuer holds. -/
namespace XgenSdk.Principal
open XgenSdk.Py
open XgenSdk.Checks (bind_ok mapM_ok)

/-! Checks that pass. -/

theorem refuse_ok {wrong : Bool} {error : PrincipalError} {u : Unit} (h : refuse wrong error = .ok u) : wrong = false := by
  cases wrong with
  | false => rfl
  | true => cases h

/-- Behind a check that passes. -/
theorem refuse_bind {β : Type} {wrong : Bool} {error : PrincipalError} {f : Unit → Checked β} {b : β}
    (h : (refuse wrong error >>= f) = .ok b) : wrong = false ∧ f () = .ok b := by
  obtain ⟨u, hu, hf⟩ := bind_ok h
  exact ⟨refuse_ok hu, hf⟩

theorem mem_of_lookup {α β : Type} [BEq α] [LawfulBEq α] {a : α} {b : β} {entries : List (α × β)}
    (h : entries.lookup a = some b) : (a, b) ∈ entries := by
  obtain ⟨front, back, hsplit, -⟩ := List.lookup_eq_some_iff.mp h
  rw [hsplit]
  simp

theorem isText_iff {value : Option Json} {text : String} : isText value text = true ↔ value = some (.str text) := by
  unfold isText
  split
  · simp
  · rename_i hne
    simp only [Bool.false_eq_true, false_iff]
    exact fun heq => hne text heq

/-! The configured keys. -/

variable {κ : Type} (lib : Libraries κ) (env : Environment)

/-- A key the gateway is configured to sign with, for assertions with this header; with its cutoff. -/
inductive GatewayKey (header : Fields) : κ → Option Int → Prop
  | single {pem key} : env.gatewayPublicKeys = none → env.gatewayPublicKey = some pem → lib.importKey pem = some key →
      GatewayKey header key none
  | active {raw ring kid config pem key} : env.gatewayPublicKeys = some raw →
      loads lib raw.toList = some (.obj ring) → env.gatewayKeyId = some kid → (kid, .obj config) ∈ ring →
      Json.lookup "kid" header = some (.str kid) → Json.lookup "key" config = some (.str pem) →
      lib.importKey pem = some key → GatewayKey header key none
  | retiring {raw ring kid config pem key cutoff} : env.gatewayPublicKeys = some raw →
      loads lib raw.toList = some (.obj ring) → env.gatewayKeyId ≠ some kid → (kid, .obj config) ∈ ring →
      Json.lookup "kid" header = some (.str kid) → Json.lookup "key" config = some (.str pem) →
      Json.lookup "not_after" config = some (.int cutoff) → lib.importKey pem = some key →
      GatewayKey header key (some cutoff)

/-- A key configured for a service. -/
inductive ServiceKey (config header : Fields) : Bytes → Option Int → Prop
  | single {text} : Json.lookup "key" config = some (.str text) → ServiceKey config header (utf8Bytes text.toList) none
  | ring {keys kid entry text cutoff} : Json.lookup "keys" config = some (.obj keys) → (kid, .obj entry) ∈ keys →
      Json.lookup "kid" header = some (.str kid) → Json.lookup "key" entry = some (.str text) →
      Json.lookup "not_after" entry = cutoff.map Json.int →
      ServiceKey config header (utf8Bytes text.toList) cutoff

/-- The configuration names the issuer, its key and what it may grant. -/
inductive Vouched (header : Fields) : String → String → Issuer κ → Prop
  | gateway {key cutoff} : GatewayKey lib env header key cutoff →
      Vouched header "principal" "xgen-gateway" ⟨.gateway key, cutoff, none⟩
  | service {raw services issuer config permissions key cutoff} : env.trustedServices = some raw →
      loads lib raw.toList = some (.obj services) → (issuer, .obj config) ∈ services →
      ServiceKey config header key cutoff →
      Json.lookup "permissions" config = some (.arr (permissions.map Json.str)) →
      Vouched header "service" issuer ⟨.service key, cutoff, some permissions⟩

variable {lib env}

theorem keyId_ok {value : Option Json} {source kid : String} {configuration : Bool}
    (h : keyId value source configuration = .ok kid) : value = some (.str kid) := by
  unfold keyId at h
  dsimp only at h
  split at h
  · split at h
    · rw [Except.ok.inj h]
    · cases h
  · cases h

theorem notAfter_ok {value : Option Json} {source : String} {n : Int} (h : notAfter value source = .ok n) :
    value = some (.int n) := by
  unfold notAfter at h
  split at h
  · split at h
    · cases h
    · rw [Except.ok.inj h]
  · cases h

theorem keyBytes_ok {value : Option Json} {envName : String} {key : Bytes} (h : keyBytes value envName = .ok key) :
    ∃ text, value = some (.str text) ∧ key = utf8Bytes text.toList := by
  unfold keyBytes at h
  split at h
  · rename_i text
    dsimp only at h
    split at h
    · cases h
    · exact ⟨text, rfl, (Except.ok.inj h).symm⟩
  · cases h

theorem gatewayPublicKey_ok {value : Option Json} {source : String} {key : κ}
    (h : gatewayPublicKey lib value source = .ok key) :
    ∃ pem, value = some (.str pem) ∧ lib.importKey pem = some key := by
  unfold gatewayPublicKey at h
  split at h
  · rename_i pem
    refine ⟨pem, rfl, ?_⟩
    split at h
    · cases h
    · split at h
      · cases h
      · rename_i found hfound
        rw [hfound]
        split at h
        · cases h
        · split at h
          · cases h
          · rw [Except.ok.inj h]
  · cases h

theorem jsonConfig_ok {raw : Option String} {envName : String} {fields : Fields}
    (h : jsonConfig lib raw envName = .ok fields) :
    ∃ text, raw = some text ∧ loads lib text.toList = some (.obj fields) := by
  unfold jsonConfig at h
  split at h
  · cases h
  · rename_i text
    refine ⟨text, rfl, ?_⟩
    split at h
    · cases h
    · split at h
      · rename_i found hfound
        rw [hfound]
        split at h
        · cases h
        · rw [Except.ok.inj h]
      · cases h

theorem gatewayCutoff_ok {active : Bool} {config : Fields} {source : String} {cutoff : Option Int}
    (h : gatewayCutoff active config source = .ok cutoff) :
    active = true ∧ cutoff = none ∨
      active = false ∧ ∃ n, cutoff = some n ∧ Json.lookup "not_after" config = some (.int n) := by
  cases active with
  | true => exact .inl ⟨rfl, (Except.ok.inj h).symm⟩
  | false =>
    obtain ⟨n, hn, hsome⟩ := bind_ok h
    exact .inr ⟨rfl, n, (Except.ok.inj hsome).symm, notAfter_ok hn⟩

/-- An entry of the gateway keyring: the active key has no cutoff, another one has its own. -/
theorem gatewayRingEntry_ok {activeKid : String} {entry : String × Json} {kid : String} {key : κ} {cutoff : Option Int}
    (h : gatewayRingEntry lib activeKid entry = .ok (kid, key, cutoff)) :
    ∃ config pem, entry = (kid, .obj config) ∧ Json.lookup "key" config = some (.str pem) ∧
      lib.importKey pem = some key ∧
      (kid = activeKid ∧ cutoff = none ∨
        kid ≠ activeKid ∧ ∃ n, cutoff = some n ∧ Json.lookup "not_after" config = some (.int n)) := by
  obtain ⟨name, value⟩ := entry
  unfold gatewayRingEntry at h
  obtain ⟨kid', hkid, h⟩ := bind_ok h
  obtain rfl : name = kid' := Json.str.inj (Option.some.inj (keyId_ok hkid))
  cases value with
  | obj config =>
    dsimp only at h
    by_cases hwrong : (!hasKeys config (if name = activeKid then ["key"] else ["key", "not_after"])) = true
    · rw [if_pos hwrong] at h
      split at h <;> cases h
    · rw [if_neg hwrong] at h
      obtain ⟨cutoff', hcutoff, h⟩ := bind_ok h
      obtain ⟨key', hkey, h⟩ := bind_ok h
      obtain ⟨rfl, hout⟩ := Prod.mk.inj (Except.ok.inj h)
      obtain ⟨rfl, rfl⟩ := Prod.mk.inj hout
      obtain ⟨pem, hpem, himport⟩ := gatewayPublicKey_ok hkey
      refine ⟨config, pem, rfl, hpem, himport, ?_⟩
      obtain ⟨hactive, hnone⟩ | ⟨hother, hsome⟩ := gatewayCutoff_ok hcutoff
      · exact .inl ⟨of_decide_eq_true hactive, hnone⟩
      · exact .inr ⟨of_decide_eq_false hother, hsome⟩
  | _ =>
    dsimp only at h
    split at h <;> cases h

theorem gatewayVerificationKey_ok {header : Fields} {selected : Retiring κ}
    (h : gatewayVerificationKey lib env header = .ok selected) :
    GatewayKey lib env header selected.1 selected.2 := by
  unfold gatewayVerificationKey at h
  split at h
  · rename_i hring
    obtain ⟨-, h⟩ := refuse_bind h
    obtain ⟨key, hkey, h⟩ := bind_ok h
    rw [← Except.ok.inj h]
    obtain ⟨pem, hpem, himport⟩ := gatewayPublicKey_ok hkey
    obtain ⟨text, htext, hstr⟩ := Option.map_eq_some_iff.mp hpem
    obtain rfl := Json.str.inj hstr
    exact .single hring htext himport
  · rename_i raw hraw
    obtain ⟨ring, hring, h⟩ := bind_ok h
    obtain ⟨activeKid, hactive, h⟩ := bind_ok h
    obtain ⟨-, h⟩ := refuse_bind h
    obtain ⟨parsed, hparsed, h⟩ := bind_ok h
    obtain ⟨-, h⟩ := refuse_bind h
    obtain ⟨kid, hkid, h⟩ := bind_ok h
    obtain ⟨text, htext, hloads⟩ := jsonConfig_ok hring
    rw [← Option.some.inj htext] at hloads
    obtain ⟨active, hid, hstr⟩ := Option.map_eq_some_iff.mp (keyId_ok hactive)
    rw [Json.str.inj hstr] at hid
    split at h
    · cases h
    · rename_i found hfound
      rw [← Except.ok.inj h]
      obtain ⟨key, cutoff⟩ := found
      obtain ⟨entry, hentry, hparse⟩ := mapM_ok hparsed _ (mem_of_lookup hfound)
      obtain ⟨config, pem, rfl, hpem, himport, hcases⟩ := gatewayRingEntry_ok hparse
      obtain ⟨rfl, rfl⟩ | ⟨hother, n, rfl, hafter⟩ := hcases
      · exact .active hraw hloads hid hentry (keyId_ok hkid) hpem himport
      · refine .retiring hraw hloads ?_ hentry (keyId_ok hkid) hpem hafter himport
        rw [hid]
        exact fun heq => hother (Option.some.inj heq).symm

/-! Services. -/

/-- One configured permission. -/
theorem permissionTexts_ok {items : List Json} {texts : List String}
    (h : items.mapM permissionText = some texts) : items = texts.map Json.str := by
  induction items generalizing texts with
  | nil =>
    rw [List.mapM_nil] at h
    rw [← Option.some.inj h]
    rfl
  | cons item items ih =>
    rw [List.mapM_cons] at h
    obtain ⟨text, htext, h⟩ := Option.bind_eq_some_iff.mp h
    obtain ⟨rest, hrest, h⟩ := Option.bind_eq_some_iff.mp h
    rw [← Option.some.inj h, List.map_cons, ih hrest]
    unfold permissionText at htext
    split at htext
    · split at htext
      · cases htext
      · rw [Option.some.inj htext]
    · cases htext

theorem trustedPermissions_ok {value : Option Json} {permissions : List String}
    (h : trustedPermissions value = .ok permissions) : value = some (.arr (permissions.map Json.str)) := by
  unfold trustedPermissions at h
  dsimp only at h
  split at h
  · rename_i items
    split at h
    · rename_i texts htexts
      split at h
      · rw [← Except.ok.inj h, permissionTexts_ok htexts]
      · cases h
    · cases h
  · cases h

theorem serviceCutoff_ok {config : Fields} {source : String} {cutoff : Option Int}
    (h : serviceCutoff config source = .ok cutoff) : Json.lookup "not_after" config = cutoff.map Json.int := by
  unfold serviceCutoff at h
  split at h
  · rename_i value hvalue
    obtain ⟨n, hn, hsome⟩ := bind_ok h
    rw [hvalue, notAfter_ok hn, ← Except.ok.inj hsome]
    rfl
  · rename_i hnone
    rw [hnone, ← Except.ok.inj h]
    rfl

theorem serviceRingEntry_ok {service : String} {entry : String × Json} {kid : Option String} {key : Bytes}
    {cutoff : Option Int} (h : serviceRingEntry service entry = .ok (kid, key, cutoff)) :
    ∃ name config text, kid = some name ∧ entry = (name, .obj config) ∧
      Json.lookup "key" config = some (.str text) ∧ key = utf8Bytes text.toList ∧
      Json.lookup "not_after" config = cutoff.map Json.int := by
  obtain ⟨name, value⟩ := entry
  unfold serviceRingEntry at h
  obtain ⟨kid', hkid, h⟩ := bind_ok h
  obtain rfl : name = kid' := Json.str.inj (Option.some.inj (keyId_ok hkid))
  cases value with
  | obj config =>
    dsimp only at h
    split at h
    · cases h
    · obtain ⟨cutoff', hcutoff, h⟩ := bind_ok h
      obtain ⟨key', hkey, h⟩ := bind_ok h
      obtain ⟨hname, hout⟩ := Prod.mk.inj (Except.ok.inj h)
      obtain ⟨rfl, rfl⟩ := Prod.mk.inj hout
      obtain ⟨text, htext, rfl⟩ := keyBytes_ok hkey
      exact ⟨name, config, text, hname.symm, rfl, htext, rfl, serviceCutoff_ok hcutoff⟩
  | _ => cases h

/-- The key of a service with a single key. -/
theorem singleKey_ok {key : Bytes} {permissions : List String} {header : Fields} {selected : Retiring Bytes}
    (h : serviceVerificationKey ⟨[(none, key, none)], permissions⟩ header = .ok selected) : selected = (key, none) := by
  unfold serviceVerificationKey at h
  rw [show List.lookup none [((none : Option String), key, (none : Option Int))] = some (key, none) from rfl] at h
  dsimp only at h
  split at h
  · cases h
  · exact (Except.ok.inj h).symm

/-- The key of a service with a keyring is the one its header names. -/
theorem ringKey_ok {service : TrustedService} (hring : ∀ k ∈ service.keys, k.1 ≠ none) {header : Fields}
    {selected : Retiring Bytes} (h : serviceVerificationKey service header = .ok selected) :
    ∃ kid, Json.lookup "kid" header = some (.str kid) ∧ (some kid, selected) ∈ service.keys := by
  unfold serviceVerificationKey at h
  split at h
  · rename_i found hfound
    exact absurd rfl (hring _ (mem_of_lookup hfound))
  · obtain ⟨-, h⟩ := refuse_bind h
    obtain ⟨kid, hkid, h⟩ := bind_ok h
    split at h
    · cases h
    · rename_i found hfound
      rw [← Except.ok.inj h]
      exact ⟨kid, keyId_ok hkid, mem_of_lookup hfound⟩

/-- An entry of the configuration: its permissions, and keys that are configured in it. -/
theorem trustedService_ok {entry : String × Json} {issuer : String} {service : TrustedService}
    (h : trustedService entry = .ok (issuer, service)) :
    ∃ config, entry = (issuer, .obj config) ∧
      Json.lookup "permissions" config = some (.arr (service.permissions.map Json.str)) ∧
      ∀ header selected, serviceVerificationKey service header = .ok selected →
        ServiceKey config header selected.1 selected.2 := by
  obtain ⟨name, value⟩ := entry
  unfold trustedService at h
  dsimp only at h
  obtain ⟨-, h⟩ := refuse_bind h
  cases value with
  | obj config =>
    dsimp only at h
    split at h
    · cases h
    · obtain ⟨permissions, hpermissions, h⟩ := bind_ok h
      have htexts := trustedPermissions_ok hpermissions
      split at h
      · rename_i value hvalue
        obtain ⟨key, hkey, h⟩ := bind_ok h
        obtain ⟨hname, hservice⟩ := Prod.mk.inj (Except.ok.inj h)
        rw [← hname, ← hservice]
        refine ⟨config, rfl, htexts, fun header selected hselected => ?_⟩
        obtain ⟨text, htext, hbytes⟩ := keyBytes_ok hkey
        rw [singleKey_ok hselected, hbytes]
        exact .single (hvalue.trans htext)
      · split at h
        · rename_i rawKeys hkeys
          obtain ⟨-, h⟩ := refuse_bind h
          obtain ⟨keys, hring, h⟩ := bind_ok h
          obtain ⟨-, h⟩ := refuse_bind h
          obtain ⟨hname, hservice⟩ := Prod.mk.inj (Except.ok.inj h)
          rw [← hname, ← hservice]
          refine ⟨config, rfl, htexts, fun header selected hselected => ?_⟩
          have hentries : ∀ k ∈ keys, k.1 ≠ none := by
            intro k hk
            obtain ⟨entry, -, hentry⟩ := mapM_ok hring k hk
            obtain ⟨name, -, -, hkid, -⟩ := serviceRingEntry_ok hentry
            rw [hkid]
            exact Option.some_ne_none name
          obtain ⟨kid, hkid, hmem⟩ := ringKey_ok hentries hselected
          obtain ⟨entry, hin, hentry⟩ := mapM_ok hring _ hmem
          obtain ⟨kid', inner, text, hsame, rfl, htext, hbytes, hcutoff⟩ := serviceRingEntry_ok hentry
          obtain rfl := Option.some.inj hsame
          rw [hbytes]
          exact .ring hkeys hin hkid htext hcutoff
        · cases h
  | _ => cases h

/-- The issuer that is selected is vouched for by the configuration. -/
theorem selectIssuer_ok {header payload : Fields} {issuer : Issuer κ}
    (h : selectIssuer lib env header payload = .ok issuer) :
    ∃ type name, Json.lookup "type" payload = some (.str type) ∧ Json.lookup "iss" payload = some (.str name) ∧
      Vouched lib env header type name issuer := by
  unfold selectIssuer at h
  split at h
  · rename_i type name htype hname
    refine ⟨type, name, htype, hname, ?_⟩
    split at h
    · rename_i hgateway
      obtain ⟨rfl, rfl⟩ := hgateway
      obtain ⟨selected, hselected, h⟩ := bind_ok h
      rw [← Except.ok.inj h]
      exact .gateway (gatewayVerificationKey_ok hselected)
    · split at h
      · rename_i hservice
        rw [hservice]
        obtain ⟨trusted, htrusted, h⟩ := bind_ok h
        split at h
        · cases h
        · rename_i service hlookup
          obtain ⟨selected, hselected, h⟩ := bind_ok h
          rw [← Except.ok.inj h]
          obtain ⟨parsed, hparsed, hall⟩ := bind_ok htrusted
          obtain ⟨text, htext, hloads⟩ := jsonConfig_ok hparsed
          obtain ⟨entry, hentry, hparse⟩ := mapM_ok hall _ (mem_of_lookup hlookup)
          obtain ⟨config, rfl, hpermissions, hkeys⟩ := trustedService_ok hparse
          exact .service htext hloads hentry (hkeys header selected hselected) hpermissions
      · cases h
  · cases h

end XgenSdk.Principal
