import XgenSdk.Auth.Delegated

/-! A receiver that trusts the issuer takes back the headers that were signed. -/
namespace XgenSdk.Principal
open XgenSdk.Py
open XgenSdk.Checks (ok_bind bind_ok)

/-! JSON, whatever the order of members. -/

theorem uniqueFields_iff {fields : Fields} :
    uniqueFields fields = true ↔ (fields.map Prod.fst).Nodup ∧ ∀ f ∈ fields, uniqueMembers f.2 = true := by
  induction fields with
  | nil => exact ⟨fun _ => ⟨List.nodup_nil, fun f hf => by cases hf⟩, fun _ => rfl⟩
  | cons f fields ih =>
    have hfresh : (!(fields.any fun g => g.1 = f.1)) = true ↔ f.1 ∉ fields.map Prod.fst := by
      simp only [Bool.not_eq_true', List.any_eq_false, decide_eq_true_eq, List.mem_map, not_exists, not_and]
    rw [uniqueFields, Bool.and_eq_true, Bool.and_eq_true, ih, hfresh, List.map_cons, List.nodup_cons]
    constructor
    · rintro ⟨⟨hvalue, hnew⟩, hnodup, hall⟩
      refine ⟨⟨hnew, hnodup⟩, fun g hg => ?_⟩
      obtain rfl | hg := List.mem_cons.mp hg
      · exact hvalue
      · exact hall g hg
    · rintro ⟨⟨hnew, hnodup⟩, hall⟩
      exact ⟨⟨hall f List.mem_cons_self, hnew⟩, hnodup, fun g hg => hall g (List.mem_cons_of_mem _ hg)⟩

theorem uniqueMembers_perm {fields after : Fields} (hperm : after.Perm fields) :
    uniqueMembers (.obj after) = uniqueMembers (.obj fields) := by
  change uniqueFields after = uniqueFields fields
  rw [Bool.eq_iff_iff, uniqueFields_iff, uniqueFields_iff, (hperm.map Prod.fst).nodup_iff]
  exact and_congr_right fun _ => forall_congr' fun f => imp_congr hperm.mem_iff Iff.rfl

theorem hasKeys_perm {fields after : Fields} (hperm : after.Perm fields) (names : List String) :
    hasKeys after names = hasKeys fields names := by
  have hany : (fun n => after.any fun f => f.1 = n) = fun n => fields.any fun f => f.1 = n :=
    funext fun n => hperm.any_eq
  rw [hasKeys, hasKeys, hperm.all_eq, hany]

theorem byKey_asFields (headers : List (String × String)) :
    Json.byKey (asFields headers) = asFields (Json.byKey headers) := by
  rw [Json.byKey, Json.byKey, asFields, asFields]
  exact (List.map_insertionSort (r := fun a b : String × String => a.1 ≤ b.1)
    (s := fun a b : String × Json => a.1 ≤ b.1) _ _ fun a _ b _ => Iff.rfl).symm

theorem sortedFields_asFields (headers : List (String × String)) : Json.sortedFields (asFields headers) = asFields headers := by
  induction headers with
  | nil => rfl
  | cons f headers ih =>
    change (f.1, Json.sorted (.str f.2)) :: Json.sortedFields (asFields headers) = _
    rw [ih]
    rfl

/-! What is issued. -/

/-- An issue as `checkedIssue` lets it pass. -/
structure Issue.Fit (i : Issue) : Prop where
  audience : isName i.audience = true ∧ i.audience ≠ "xgen-gateway"
  keyId : ∀ kid, i.keyId = some kid → isName kid = true
  lifetime : i.iat < i.exp ∧ i.exp ≤ i.iat + 60
  canonical : IsCanonical i.headers
  superuser : lower (valueOf i.headers "x-user-superuser").toList = "false".toList
  finite : ∀ p ∈ splitPermissions (valueOf i.headers "x-user-permissions"), '*' ∉ p

theorem serviceName_name {value : Option String} {source name : String} (h : serviceName value source = .ok name) :
    isName name = true ∧ name ≠ "xgen-gateway" := by
  unfold serviceName at h
  split at h
  · split at h
    · cases h
    · rename_i hname
      rw [← Except.ok.inj h]
      simpa using hname
  · cases h

theorem keyId_name {value : Option Json} {source kid : String} {configuration : Bool}
    (h : keyId value source configuration = .ok kid) : isName kid = true := by
  unfold keyId at h
  dsimp only at h
  split at h
  · split at h
    · rename_i hname
      rw [← Except.ok.inj h]
      exact hname
    · cases h
  · cases h

theorem checkedTtl_ok {ttlSeconds : Json} {ttl : Int} (h : checkedTtl ttlSeconds = .ok ttl) : 1 ≤ ttl ∧ ttl ≤ 60 := by
  unfold checkedTtl at h
  split at h
  · split at h
    · rename_i hrange
      rw [← Except.ok.inj h]
      exact hrange
    · cases h
  · cases h

theorem checkedIssue_fit {env : IssuerEnvironment} {clock : Int} {delegated : Fields} {r : SigningRequest} {i : Issue}
    (h : checkedIssue env clock delegated r = .ok i) :
    i.Fit ∧ canonicalIdentityHeaders delegated true = .ok i.headers := by
  unfold checkedIssue at h
  obtain ⟨issuer, -, h⟩ := bind_ok h
  obtain ⟨target, htarget, h⟩ := bind_ok h
  obtain ⟨key, -, h⟩ := bind_ok h
  obtain ⟨kid, hkid, h⟩ := bind_ok h
  obtain ⟨ttl, httl, h⟩ := bind_ok h
  obtain ⟨headers, hheaders, h⟩ := bind_ok h
  obtain ⟨hsuper, h⟩ := refuse_bind h
  obtain ⟨hfinite, h⟩ := refuse_bind h
  obtain ⟨issuedAt, -, h⟩ := bind_ok h
  have hrange := checkedTtl_ok httl
  rw [← Except.ok.inj h]
  refine ⟨⟨serviceName_name htarget, fun name hname => ?_, ⟨?_, ?_⟩, (canonical_spec hheaders).1,
    not_not.mp (of_decide_eq_false hsuper), fun p hp => ?_⟩, hheaders⟩
  · dsimp only at hname
    rw [hname] at hkid
    unfold selectedKeyId at hkid
    split at hkid
    · cases hkid
    · obtain ⟨found, hfound, hsome⟩ := bind_ok hkid
      obtain rfl := Option.some.inj (Except.ok.inj hsome)
      exact keyId_name hfound
  · change issuedAt < issuedAt + ttl
    omega
  · change issuedAt + ttl ≤ issuedAt + 60
    omega
  · simpa using List.any_eq_false.mp hfinite p hp

theorem servicePrincipalHeaders_ok {hmac : Bytes → List Char → Bytes} {env : IssuerEnvironment} {clock : Int}
    {delegated : Fields} {r : SigningRequest} {headers : List (String × String)}
    (h : servicePrincipalHeaders hmac env clock delegated r = .ok headers) :
    ∃ i : Issue, canonicalIdentityHeaders delegated true = .ok i.headers ∧
      checkedIssue env clock (asFields i.headers) r = .ok i ∧
      headers = i.headers.map (fun f => (wireName f.1, f.2)) ++ [(wireName proofHeader, String.ofList (i.proof hmac))] := by
  obtain ⟨identity, hidentity, h⟩ := bind_ok h
  obtain ⟨proof, hproof, h⟩ := bind_ok h
  unfold signPrincipalForService at hproof
  cases hissue : checkedIssue env clock (asFields identity) r with
  | error e =>
    rw [hissue] at hproof
    cases hproof
  | ok i =>
    rw [hissue] at hproof
    have hagain := canonical_of_perm (canonical_spec hidentity).1 (List.Perm.refl identity) true
    obtain rfl := Except.ok.inj (hagain.symm.trans (checkedIssue_fit hissue).2)
    refine ⟨i, hidentity, hissue, ?_⟩
    rw [← Except.ok.inj h, ← Except.ok.inj hproof]

/-! The size. -/

theorem length_str (s : String) : (Json.dumps (.str s)).length = Json.escapedLength s + 2 := Json.length_quoted s

theorem length_int (n : Int) : (Json.dumps (.int n)).length = intLength n := rfl

theorem length_jsonSegment (fields : Fields) :
    (jsonSegment fields).length = base64Length (Json.dumps (.obj fields)).length := by
  rw [jsonSegment, length_b64urlEncode, asciiBytes, List.length_map, base64Length]

theorem length_header (i : Issue) : (Json.dumps (.obj i.header)).length = i.headerLength := by
  have halg : Json.escapedLength "alg" = 3 ∧ Json.escapedLength "typ" = 3 ∧ Json.escapedLength "kid" = 3 ∧
      Json.escapedLength "HS256" = 5 ∧ Json.escapedLength "JWT" = 3 := by decide
  obtain ⟨halg, htyp, hkid, hhs, hjwt⟩ := halg
  rw [Json.length_dumps_obj, Issue.header, Issue.headerLength]
  cases i.keyId with
  | none => simp [length_str, halg, htyp, hhs, hjwt]
  | some kid =>
    simp [length_str, halg, htyp, hkid, hhs, hjwt]
    omega

theorem length_asFields (headers : List (String × String)) (hsix : headers.length = 6) :
    (Json.dumps (.obj (asFields headers))).length =
      (headers.map fun f => Json.escapedLength f.1 + Json.escapedLength f.2 + 5).sum + 7 := by
  have hmap : (asFields headers).map (fun f => Json.escapedLength f.1 + 3 + (Json.dumps f.2).length) =
      headers.map fun f => Json.escapedLength f.1 + Json.escapedLength f.2 + 5 := by
    rw [asFields, List.map_map]
    refine List.map_congr_left fun f _ => ?_
    rw [Function.comp_apply, length_str]
    dsimp only
    omega
  rw [Json.length_dumps_obj, hmap, asFields, List.length_map, hsix]

theorem length_payload {i : Issue} (hfit : i.Fit) : (Json.dumps (.obj i.payload)).length = i.payloadLength := by
  have hsix : i.headers.length = 6 := by
    rw [← List.length_map (f := Prod.fst), hfit.canonical.names]
    rfl
  have hnames : Json.escapedLength "iss" = 3 ∧ Json.escapedLength "aud" = 3 ∧ Json.escapedLength "type" = 4 ∧
      Json.escapedLength "iat" = 3 ∧ Json.escapedLength "exp" = 3 ∧ Json.escapedLength "headers" = 7 ∧
      Json.escapedLength "service" = 7 := by decide
  obtain ⟨hiss, haud, htype, hiat, hexp, hheaders, hservice⟩ := hnames
  rw [Json.length_dumps_obj, Issue.payload, Issue.payloadLength]
  simp only [List.map_cons, List.map_nil, List.sum_cons, List.sum_nil, List.length_cons, List.length_nil, length_str,
    length_int, length_asFields i.headers hsix, hiss, haud, htype, hiat, hexp, hheaders, hservice]
  omega

/-- The length of an assertion follows from what is signed. -/
theorem length_proof {hmac : Bytes → List Char → Bytes} (hsize : ∀ key text, (hmac key text).length = 32) {i : Issue}
    (hfit : i.Fit) : (i.proof hmac).length = i.length := by
  rw [Issue.proof, Issue.signingInput, Issue.length]
  simp only [List.length_append, List.length_cons, length_jsonSegment, length_header, length_payload hfit,
    length_b64urlEncode, hsize]
  omega

/-! What a receiver reads. -/

variable {κ : Type} {lib : Libraries κ} {env : Environment}

/-- The texts of an issue are read back. -/
structure ReadsBack (lib : Libraries κ) (i : Issue) : Prop where
  header : lib.parseJson (Json.dumps (.obj i.header)) = some (Json.sorted (.obj i.header))
  payload : lib.parseJson (Json.dumps (.obj i.payload)) = some (Json.sorted (.obj i.payload))

/-- The receiver is the audience; it trusts the issuer with this key, not retired before the end, and with the
permissions. -/
structure Trusts (lib : Libraries κ) (env : Environment) (i : Issue) : Prop where
  audience : env.serviceName = some i.audience
  issuer : ∃ services service cutoff, trustedServices lib env.trustedServices = .ok services ∧
    services.lookup i.issuer = some service ∧ service.keys.lookup i.keyId = some (i.key, cutoff) ∧
    (i.keyId ≠ none → service.keys.lookup none = none) ∧ (∀ c, cutoff = some c → i.exp ≤ c) ∧
    ∀ p ∈ splitPermissions (valueOf i.headers "x-user-permissions"), String.ofList p ∈ service.permissions

def Issue.readHeader (i : Issue) : Fields := Json.byKey i.header

def Issue.readPayload (i : Issue) : Fields := Json.byKey (Json.sortedFields i.payload)

theorem sorted_header (i : Issue) : Json.sorted (.obj i.header) = .obj i.readHeader := by
  rw [Json.sorted, Issue.readHeader, Issue.header]
  cases i.keyId <;> rfl

theorem payload_fields (i : Issue) : Json.sortedFields i.payload =
    [("iss", .str i.issuer), ("aud", .str i.audience), ("type", .str "service"), ("iat", .int i.iat), ("exp", .int i.exp),
      ("headers", .obj (asFields (Json.byKey i.headers)))] := by
  have hheaders : Json.sorted (.obj (asFields i.headers)) = .obj (asFields (Json.byKey i.headers)) := by
    rw [Json.sorted, sortedFields_asFields, byKey_asFields]
  rw [← hheaders]
  rfl

theorem lookup_payload (i : Issue) (key : String) :
    Json.lookup key i.readPayload = Json.lookup key (Json.sortedFields i.payload) := by
  refine Json.lookup_perm (Json.byKey_perm _) ?_ key
  rw [payload_fields]
  change ["iss", "aud", "type", "iat", "exp", "headers"].Nodup
  decide

theorem lookup_header (i : Issue) (key : String) : Json.lookup key i.readHeader = Json.lookup key i.header := by
  refine Json.lookup_perm (Json.byKey_perm _) ?_ key
  rw [Issue.header]
  cases i.keyId with
  | none =>
    change ["alg", "typ"].Nodup
    decide
  | some kid =>
    change ["alg", "typ", "kid"].Nodup
    decide

theorem unique_header (i : Issue) : uniqueMembers (.obj i.readHeader) = true := by
  rw [Issue.readHeader, uniqueMembers_perm (Json.byKey_perm _), Issue.header]
  cases i.keyId <;> rfl

theorem unique_asFields {headers : List (String × String)} (hnodup : (headers.map Prod.fst).Nodup) :
    uniqueMembers (.obj (asFields headers)) = true := by
  refine uniqueFields_iff.mpr ⟨?_, fun f hf => ?_⟩
  · rw [asFields, List.map_map]
    exact hnodup
  · obtain ⟨g, -, rfl⟩ := List.mem_map.mp hf
    rfl

theorem unique_payload {i : Issue} (hfit : i.Fit) : uniqueMembers (.obj i.readPayload) = true := by
  have hheaders : uniqueMembers (.obj (asFields (Json.byKey i.headers))) = true :=
    unique_asFields (((Json.byKey_perm i.headers).map Prod.fst).nodup_iff.mpr hfit.canonical.nodup)
  rw [Issue.readPayload, uniqueMembers_perm (Json.byKey_perm _), payload_fields]
  refine uniqueFields_iff.mpr ⟨?_, fun f hf => ?_⟩
  · change ["iss", "aud", "type", "iat", "exp", "headers"].Nodup
    decide
  · simp only [List.mem_cons, List.not_mem_nil, or_false] at hf
    obtain rfl | rfl | rfl | rfl | rfl | rfl := hf
    · rfl
    · rfl
    · rfl
    · rfl
    · rfl
    · exact hheaders

theorem dumps_ascii_header (i : Issue) : ∀ c ∈ Json.dumps (.obj i.header), c.toNat < 0x80 := by
  refine Json.dumps_ascii_obj fun f hf => ?_
  have hstr : ∃ s, f.2 = .str s := by
    simp only [Issue.header, List.mem_append, List.mem_cons, List.not_mem_nil, or_false, Option.mem_toList,
      Option.map_eq_some_iff] at hf
    obtain (rfl | rfl) | ⟨kid, -, rfl⟩ := hf
    · exact ⟨_, rfl⟩
    · exact ⟨_, rfl⟩
    · exact ⟨_, rfl⟩
  obtain ⟨s, hs⟩ := hstr
  rw [hs]
  exact Json.quoted_ascii s

theorem dumps_ascii_payload (i : Issue) : ∀ c ∈ Json.dumps (.obj i.payload), c.toNat < 0x80 := by
  have hheaders : ∀ c ∈ Json.dumps (.obj (asFields i.headers)), c.toNat < 0x80 := by
    refine Json.dumps_ascii_obj fun f hf => ?_
    obtain ⟨g, -, rfl⟩ := List.mem_map.mp hf
    exact Json.quoted_ascii g.2
  refine Json.dumps_ascii_obj fun f hf => ?_
  simp only [Issue.payload, List.mem_cons, List.not_mem_nil, or_false] at hf
  obtain rfl | rfl | rfl | rfl | rfl | rfl := hf
  · exact Json.quoted_ascii _
  · exact Json.quoted_ascii _
  · exact Json.quoted_ascii _
  · exact Json.intText_ascii _
  · exact Json.intText_ascii _
  · exact hheaders

theorem dumps_ne_nil (fields : Fields) : Json.dumps (.obj fields) ≠ [] := by
  rw [Json.dumps]
  exact List.cons_ne_nil _ _

theorem decode_header {i : Issue} (hreads : ReadsBack lib i) :
    decodeJsonSegment lib (jsonSegment i.header) = .ok i.readHeader := by
  refine decodeJsonSegment_encode (dumps_ascii_header i) (dumps_ne_nil _) ?_
  rw [loads, hreads.header, sorted_header, Option.filter_some, if_pos (unique_header i)]

theorem decode_payload {i : Issue} (hfit : i.Fit) (hreads : ReadsBack lib i) :
    decodeJsonSegment lib (jsonSegment i.payload) = .ok i.readPayload := by
  refine decodeJsonSegment_encode (dumps_ascii_payload i) (dumps_ne_nil _) ?_
  rw [loads, hreads.payload, Json.sorted, Option.filter_some]
  exact if_pos (unique_payload hfit)

/-! The checks of an assertion that was issued. -/

theorem keyId_of_name {kid source : String} (h : isName kid = true) (configuration : Bool) :
    keyId (some (.str kid)) source configuration = .ok kid := by
  rw [keyId]
  exact if_pos h

theorem select_key {i : Issue} (hfit : i.Fit) {service : TrustedService} {cutoff : Option Int}
    (hkey : service.keys.lookup i.keyId = some (i.key, cutoff))
    (hring : i.keyId ≠ none → service.keys.lookup none = none) :
    serviceVerificationKey service i.readHeader = .ok (i.key, cutoff) := by
  have hlookups : isText (Json.lookup "alg" i.readHeader) "HS256" = true ∧
      isText (Json.lookup "typ" i.readHeader) "JWT" = true := by
    rw [lookup_header, lookup_header, Issue.header]
    cases i.keyId <;> exact ⟨rfl, rfl⟩
  cases hkid : i.keyId with
  | none =>
    have hkeys : hasKeys i.readHeader ["alg", "typ"] = true := by
      rw [Issue.readHeader, hasKeys_perm (Json.byKey_perm _), Issue.header, hkid]
      rfl
    have hplain : isPlain i.readHeader "HS256" = true := by rw [isPlain, hkeys, hlookups.1, hlookups.2]; rfl
    rw [hkid] at hkey
    rw [serviceVerificationKey, hkey]
    dsimp only
    rw [hplain]
    rfl
  | some kid =>
    have hkeys : hasKeys i.readHeader ["alg", "typ", "kid"] = true := by
      rw [Issue.readHeader, hasKeys_perm (Json.byKey_perm _), Issue.header, hkid]
      rfl
    have hnames : namesKey i.readHeader "HS256" = true := by rw [namesKey, hkeys, hlookups.1, hlookups.2]; rfl
    have hlookup : Json.lookup "kid" i.readHeader = some (.str kid) := by
      rw [lookup_header, Issue.header, hkid]
      rfl
    rw [hkid] at hkey
    rw [serviceVerificationKey, hring (by rw [hkid]; exact Option.some_ne_none kid)]
    dsimp only
    rw [hnames, hlookup, keyId_of_name (hfit.keyId kid hkid)]
    simp only [Bool.not_true, refuse_false, ok_bind, hkey]

theorem select_issuer {i : Issue} (hfit : i.Fit) (htrust : Trusts lib env i) :
    ∃ permissions cutoff, selectIssuer lib env i.readHeader i.readPayload =
        .ok ⟨.service i.key, cutoff, some permissions⟩ ∧ (∀ c, cutoff = some c → i.exp ≤ c) ∧
      ∀ p ∈ splitPermissions (valueOf i.headers "x-user-permissions"), String.ofList p ∈ permissions := by
  obtain ⟨services, service, cutoff, hservices, hlookup, hkey, hring, hcutoff, hgrants⟩ := htrust.issuer
  refine ⟨service.permissions, cutoff, ?_, hcutoff, hgrants⟩
  have htype : Json.lookup "type" i.readPayload = some (.str "service") := by
    rw [lookup_payload, payload_fields]
    rfl
  have hissuer : Json.lookup "iss" i.readPayload = some (.str i.issuer) := by
    rw [lookup_payload, payload_fields]
    rfl
  rw [selectIssuer, htype, hissuer]
  dsimp only
  rw [if_neg (fun hboth => absurd hboth.1 (by decide)), if_pos rfl, hservices, ok_bind, hlookup]
  dsimp only
  rw [select_key hfit hkey hring]
  rfl

theorem check_lifetime {i : Issue} (hfit : i.Fit) {cutoff : Option Int} (hcutoff : ∀ c, cutoff = some c → i.exp ≤ c)
    {now : Int} (hiat : i.iat ≤ now) (hexp : now < i.exp) : checkLifetime i.readPayload cutoff now = .ok () := by
  have hi : Json.lookup "iat" i.readPayload = some (.int i.iat) := by
    rw [lookup_payload, payload_fields]
    rfl
  have he : Json.lookup "exp" i.readPayload = some (.int i.exp) := by
    rw [lookup_payload, payload_fields]
    rfl
  have hlife := hfit.lifetime
  have hinside : (cutoff.any fun c => decide (i.exp > c)) = false := by
    cases cutoff with
    | none => rfl
    | some c => exact decide_eq_false (by have hle := hcutoff c rfl; omega)
  rw [checkLifetime, hi, he]
  dsimp only
  rw [if_neg (by omega), hinside]
  rfl

theorem check_service {i : Issue} (hfit : i.Fit) {permissions : List String}
    (hgrants : ∀ p ∈ splitPermissions (valueOf i.headers "x-user-permissions"), String.ofList p ∈ permissions) :
    checkService permissions i.headers = .ok () := by
  have hstar : ((splitPermissions (valueOf i.headers "x-user-permissions")).any fun p => p.contains '*') = false := by
    rw [List.any_eq_false]
    intro p hp hmem
    exact hfit.finite p hp (List.contains_iff_mem.mp hmem)
  have hall : ((splitPermissions (valueOf i.headers "x-user-permissions")).all fun p =>
      permissions.contains (String.ofList p)) = true := by
    rw [List.all_eq_true]
    exact fun p hp => List.contains_iff_mem.mpr (hgrants p hp)
  have hsuper : decide (lower (valueOf i.headers "x-user-superuser").toList ≠ "false".toList) = false :=
    decide_eq_false fun hne => hne hfit.superuser
  rw [checkService]
  simp only [hsuper, refuse_false, ok_bind, hstar, hall]
  rfl

theorem segment_ne_nil (fields : Fields) : jsonSegment fields ≠ [] := by
  intro hnil
  have hlength := length_jsonSegment fields
  have hpos := List.length_pos_iff.mpr (dumps_ne_nil fields)
  rw [hnil, base64Length, List.length_nil] at hlength
  omega

theorem proof_parts {hmac : Bytes → List Char → Bytes} (i : Issue) : (i.proof hmac).splitOn '.' =
    [jsonSegment i.header, jsonSegment i.payload, b64urlEncode (hmac i.key i.signingInput)] := by
  have hnone : ∀ raw, '.' ∉ b64urlEncode raw := fun raw hmem => (ascii_base64 _ hmem).2 rfl
  rw [Issue.proof, Issue.signingInput, List.append_assoc, List.cons_append, jsonSegment, jsonSegment,
    List.splitOn_append_cons_self_of_not_mem (hnone _), List.splitOn_append_cons_self_of_not_mem (hnone _),
    List.splitOn_eq_singleton (hnone _)]

/-- A proof of an issue passes where it is not too long. -/
theorem proof_verified {hmac : Bytes → List Char → Bytes} (hsize : ∀ key text, (hmac key text).length = 32)
    (hsigns : ∀ key text, lib.hmacVerifies key text (hmac key text) = true) {i : Issue} (hfit : i.Fit)
    (htrust : Trusts lib env i) (hreads : ReadsBack lib i) {now : Int} (hiat : i.iat ≤ now) (hexp : now < i.exp)
    (hlength : i.length ≤ maxAssertionBytes) :
    verifyAssertion lib env (String.ofList (i.proof hmac)) i.headers now = .ok i.readPayload := by
  obtain ⟨permissions, cutoff, hissuer, hcutoff, hgrants⟩ := select_issuer hfit htrust
  have hlong : decide ((i.proof hmac).length > maxAssertionBytes) = false := by
    rw [length_proof hsize hfit]
    exact decide_eq_false (by omega)
  have htag : hmac i.key i.signingInput ≠ [] := by
    intro hnil
    have h32 := hsize i.key i.signingInput
    rw [hnil] at h32
    cases h32
  have hsegments : decide (jsonSegment i.header = [] ∨ jsonSegment i.payload = [] ∨
      b64urlEncode (hmac i.key i.signingInput) = []) = false := by
    refine decide_eq_false fun hnil => ?_
    obtain hnil | hnil | hnil := hnil
    · exact segment_ne_nil _ hnil
    · exact segment_ne_nil _ hnil
    · have h := decodeSegment_encode htag ""
      rw [hnil] at h
      cases h
  have hkeys : hasKeys i.readPayload claimKeys = true := by
    rw [Issue.readPayload, hasKeys_perm (Json.byKey_perm _), payload_fields]
    rfl
  have hsigned : verifies lib (.service i.key) (jsonSegment i.header ++ '.' :: jsonSegment i.payload)
      (hmac i.key i.signingInput) = true := hsigns i.key i.signingInput
  have hname : serviceName env.serviceName serviceNameEnv = .ok i.audience := by
    rw [htrust.audience, serviceName]
    exact if_neg (by simpa [hfit.audience.1] using hfit.audience.2)
  have haud : isText (Json.lookup "aud" i.readPayload) i.audience = true := by
    rw [lookup_payload, payload_fields]
    exact decide_eq_true rfl
  have hheaders : Json.lookup "headers" i.readPayload = some (.obj (asFields (Json.byKey i.headers))) := by
    rw [lookup_payload, payload_fields]
    rfl
  have hclaims := canonical_of_perm hfit.canonical (Json.byKey_perm i.headers) false
  have hactual := canonical_of_perm hfit.canonical (List.Perm.refl i.headers) false
  rw [asFields] at hactual
  rw [verifyAssertion, String.toList_ofList, proof_parts]
  simp only [hlong, hsegments, refuse_false, ok_bind, decode_header hreads, decode_payload hfit hreads, hkeys,
    Bool.not_true, hissuer, decodeSegment_encode htag, hsigned, hname, haud, check_lifetime hfit hcutoff hiat hexp,
    hheaders, hclaims, hactual, ne_eq, not_true_eq_false, decide_false, checkGrants, check_service hfit hgrants]
  rfl

theorem proof_too_long {proof : String} {actual : List (String × String)} {now : Int}
    (hlong : maxAssertionBytes < proof.toList.length) : verifyAssertion lib env proof actual now = .error invalidAssertion := by
  have hrefuse : decide (proof.toList.length > maxAssertionBytes) = true := decide_eq_true hlong
  rw [verifyAssertion, hrefuse]
  rfl

end XgenSdk.Principal
