import XgenSdk.Auth.IssuedVerified

/-! A service principal that is signed can be verified, unless it is too long. -/
namespace XgenSdk.Principal
open XgenSdk.Py
open XgenSdk.Checks (ok_bind)

variable {κ : Type} {lib : Libraries κ} {env : Environment}

/-! The scope that carries the headers. -/

/-- A header as an entry of an ASGI scope. -/
def scopeEntry (f : String × String) : HeaderEntry := .pair (asciiBytes f.1.toList) (latin1Bytes f.2.toList)

theorem wireName_plain : ∀ n ∈ identityHeaders, (wireName n).toList.all (fun c => c.toNat < 0x80) = true ∧
    lower (wireName n).toList = n.toList := by decide

theorem rawLoop_identity {found : RawHeaders} {headers : List (String × String)}
    (hnodup : ((found.identity ++ headers).map Prod.fst).Nodup) (hnames : ∀ f ∈ headers, f.1 ∈ identityHeaders)
    (hsafe : ∀ f ∈ headers, safeHeaderValue (.str f.2) = .ok f.2)
    (hlatin : ∀ f ∈ headers, ∀ c ∈ f.2.toList, c.toNat < 0x100) :
    rawLoop found (headers.map fun f => scopeEntry (wireName f.1, f.2)) =
      .ok { found with identity := found.identity ++ headers, relevant := found.relevant || !headers.isEmpty } := by
  induction headers generalizing found with
  | nil => simp [rawLoop]
  | cons f headers ih =>
    obtain ⟨name, value⟩ := f
    obtain ⟨hascii, hlower⟩ := wireName_plain name (hnames _ List.mem_cons_self)
    have halias := (identityHeaders_plain name (hnames _ List.mem_cons_self)).2
    rw [(identityHeaders_plain name (hnames _ List.mem_cons_self)).1] at halias
    have hmember : identityHeaders.contains name = true := List.contains_iff_mem.mpr (hnames _ List.mem_cons_self)
    have hfresh : (found.identity.any fun g => g.1 = name) = false := by
      rw [List.any_eq_false]
      intro g hg heq
      rw [List.map_append, List.nodup_append] at hnodup
      exact hnodup.2.2 g.1 (List.mem_map_of_mem hg) name (by simp) (of_decide_eq_true heq)
    have hvalue : safeHeaderValue (.str (String.ofList (latin1Text (latin1Bytes value.toList)))) = .ok value := by
      rw [latin1Text_latin1Bytes (hlatin _ List.mem_cons_self), String.ofList_toList]
      exact hsafe _ List.mem_cons_self
    rw [List.map_cons, scopeEntry, rawLoop, asciiText_asciiBytes (ascii_of_all hascii)]
    simp only [hlower, halias, refuse_false, ok_bind, String.ofList_toList, hmember, if_true, hfresh, hvalue]
    rw [ih (by simpa using hnodup) (fun g hg => hnames g (List.mem_cons_of_mem _ hg))
      (fun g hg => hsafe g (List.mem_cons_of_mem _ hg)) fun g hg => hlatin g (List.mem_cons_of_mem _ hg)]
    simp

theorem proof_ascii {hmac : Bytes → List Char → Bytes} (i : Issue) : ∀ c ∈ i.proof hmac, c.toNat < 0x80 := by
  intro c hc
  simp only [Issue.proof, Issue.signingInput, jsonSegment, List.mem_append, List.mem_cons] at hc
  obtain (hc | rfl | hc) | rfl | hc := hc
  · exact (ascii_base64 c hc).1
  · decide
  · exact (ascii_base64 c hc).1
  · decide
  · exact (ascii_base64 c hc).1

/-- The headers that are issued: the identity, and its proof. -/
def Issue.wireHeaders (hmac : Bytes → List Char → Bytes) (i : Issue) : List (String × String) :=
  i.headers.map (fun f => (wireName f.1, f.2)) ++ [(wireName proofHeader, String.ofList (i.proof hmac))]

theorem raw_issued {hmac : Bytes → List Char → Bytes} {i : Issue} (hcanonical : IsCanonical i.headers)
    (hlatin : ∀ f ∈ i.headers, ∀ c ∈ f.2.toList, c.toNat < 0x100) :
    rawPrincipalHeaders ((i.wireHeaders hmac).map scopeEntry) =
      .ok (some (i.headers, some (String.ofList (i.proof hmac)))) := by
  have hnames : ∀ f ∈ i.headers, f.1 ∈ identityHeaders := by
    intro f hf
    rw [← hcanonical.names]
    exact List.mem_map_of_mem hf
  have hfront := @rawLoop_identity ⟨[], none, false⟩ i.headers (by simpa using hcanonical.nodup) hnames hcanonical.safe hlatin
  have hname : (wireName proofHeader).toList.all (fun c => c.toNat < 0x80) = true ∧
      isAlias (lower (wireName proofHeader).toList) = false ∧
      String.ofList (lower (wireName proofHeader).toList) = proofHeader := by decide
  have htext : asciiText (latin1Bytes (String.ofList (i.proof hmac)).toList) = some (i.proof hmac) := by
    rw [String.toList_ofList]
    exact asciiText_asciiBytes (proof_ascii i)
  have hloop : rawLoop ⟨[], none, false⟩ ((i.wireHeaders hmac).map scopeEntry) =
      .ok ⟨i.headers, some (String.ofList (i.proof hmac)), true⟩ := by
    rw [Issue.wireHeaders, List.map_append, List.map_map, Function.comp_def, rawLoop_append, hfront, ok_bind]
    exact rawLoop_proof (asciiText_asciiBytes (ascii_of_all hname.1)) hname.2.1 hname.2.2 rfl htext
  rw [rawPrincipalHeaders, hloop]
  rfl

/-- The headers that are issued are verified just where their proof is not too long. -/
theorem issued_verified_iff {hmac : Bytes → List Char → Bytes} (hsize : ∀ key text, (hmac key text).length = 32)
    (hsigns : ∀ key text, lib.hmacVerifies key text (hmac key text) = true) {i : Issue} (hfit : i.Fit)
    (hlatin : ∀ f ∈ i.headers, ∀ c ∈ f.2.toList, c.toNat < 0x100) (htrust : Trusts lib env i) (hreads : ReadsBack lib i)
    {now : Int} (hiat : i.iat ≤ now) (hexp : now < i.exp) :
    verifiedIdentityHeaders lib env ((i.wireHeaders hmac).map scopeEntry) now = .ok (some i.headers) ↔
      i.length ≤ maxAssertionBytes := by
  rw [verifiedIdentityHeaders, raw_issued hfit.canonical hlatin, ok_bind]
  dsimp only
  by_cases hlength : i.length ≤ maxAssertionBytes
  · have hagain := canonical_of_perm hfit.canonical (List.Perm.refl i.headers) false
    rw [asFields] at hagain
    rw [proof_verified hsize hsigns hfit htrust hreads hiat hexp hlength, ok_bind, hagain]
    exact ⟨fun _ => hlength, fun _ => rfl⟩
  · have hlong : maxAssertionBytes < (String.ofList (i.proof hmac)).toList.length := by
      rw [String.toList_ofList, length_proof hsize hfit]
      omega
    rw [proof_too_long hlong]
    exact ⟨(fun h => by cases h), fun h => absurd h hlength⟩

theorem issued_latin {delegated : Fields} {headers : List (String × String)}
    (h : canonicalIdentityHeaders delegated true = .ok headers)
    (hlatin : ∀ f ∈ delegated, ∀ s, f.2 = .str s → ∀ c ∈ s.toList, c.toNat < 0x100) :
    ∀ f ∈ headers, ∀ c ∈ f.2.toList, c.toNat < 0x100 := by
  intro g hg
  obtain ⟨f, hf, hstr⟩ | ⟨f, hf, heq⟩ := (canonical_spec h).2 g hg
  · exact hlatin f hf g.2 hstr
  · rw [← heq]
    exact (headerDefaults_safe f hf).2

/-- Headers a service may sign come back in canonical form from a receiver that trusts it, at any time of their life,
just where the assertion has no more than the characters allowed. -/
theorem servicePrincipal_verified (hmac : Bytes → List Char → Bytes) (hsize : ∀ key text, (hmac key text).length = 32)
    (env : IssuerEnvironment) (clock : Int) (delegated : Fields) (r : SigningRequest) (headers : List (String × String))
    (hlatin : ∀ f ∈ delegated, ∀ s, f.2 = .str s → ∀ c ∈ s.toList, c.toNat < 0x100)
    (h : servicePrincipalHeaders hmac env clock delegated r = .ok headers) :
    ∃ i : Issue, canonicalIdentityHeaders delegated true = .ok i.headers ∧
      checkedIssue env clock (asFields i.headers) r = .ok i ∧
      ∀ (lib : Libraries κ) (receiver : Environment), (∀ key text, lib.hmacVerifies key text (hmac key text) = true) →
        Trusts lib receiver i → ReadsBack lib i → ∀ now, i.iat ≤ now → now < i.exp →
        (verifiedIdentityHeaders lib receiver (headers.map scopeEntry) now = .ok (some i.headers) ↔
          i.length ≤ maxAssertionBytes) := by
  obtain ⟨i, hcanonical, hissue, rfl⟩ := servicePrincipalHeaders_ok h
  refine ⟨i, hcanonical, hissue, fun lib receiver hsigns htrust hreads now hiat hexp => ?_⟩
  exact issued_verified_iff hsize hsigns (checkedIssue_fit hissue).1 (issued_latin hcanonical hlatin) htrust hreads hiat hexp

/-! A user with many roles. -/

section ManyRoles

def roles (n : Nat) : String := String.ofList (List.replicate n 'a')

def userHeaders (n : Nat) : List (String × String) :=
  [("x-user-id", "7"), ("x-user-name", "kim"), ("x-user-superuser", "false"), ("x-user-roles", roles n),
    ("x-user-permissions", "file:read"), ("x-user-supervision-full", "")]

def agents : IssuerEnvironment := ⟨some "agents", some "kkkkkkkkkkkkkkkkkkkkkkkkkkkkkkkk", none⟩

def toFiles : SigningRequest := ⟨"files", none, none, none, .int 60, none⟩

def userIssue (n : Nat) : Issue := ⟨"agents", "files", sharedKey, none, 1000, 1060, userHeaders n⟩

def zeroTag : Bytes → List Char → Bytes := fun _ _ => List.replicate 32 0

def userLibraries (n : Nat) : Libraries Unit where
  parseJson := fun text =>
    if text = trustedText.toList then
      some (.obj [("agents", .obj [("key", .str "kkkkkkkkkkkkkkkkkkkkkkkkkkkkkkkk"), ("permissions", .arr [.str "file:read"])])])
    else if text = Json.dumps (.obj (userIssue n).header) then some (Json.sorted (.obj (userIssue n).header))
    else if text = Json.dumps (.obj (userIssue n).payload) then some (Json.sorted (.obj (userIssue n).payload))
    else none
  importKey := fun _ => none
  hasPrivate := fun _ => false
  sizeInBits := fun _ => 0
  rsaVerifies := fun _ _ _ => false
  hmacVerifies := fun key text signature => signature = zeroTag key text

theorem roles_chars (n : Nat) : ∀ c ∈ (roles n).toList, c = 'a' := by
  intro c hc
  rw [roles, String.toList_ofList] at hc
  exact List.eq_of_mem_replicate hc

theorem escapedLength_roles (n : Nat) : Json.escapedLength (roles n) = n := by
  have hone : Json.escapeChar 'a' = ['a'] := by decide
  rw [Json.escapedLength, roles, String.toList_ofList]
  induction n with
  | zero => rfl
  | succ n ih => rw [List.replicate_succ, List.flatMap_cons, hone, List.length_append, ih, List.length_singleton, Nat.add_comm]

theorem userHeaders_safe (n : Nat) : ∀ f ∈ userHeaders n, safeHeaderValue (.str f.2) = .ok f.2 ∧
    ∀ c ∈ f.2.toList, c.toNat < 0x100 := by
  have hroles : safeHeaderValue (.str (roles n)) = .ok (roles n) ∧ ∀ c ∈ (roles n).toList, c.toNat < 0x100 := by
    refine ⟨?_, fun c hc => by rw [roles_chars n c hc]; decide⟩
    rw [safeHeaderValue, if_neg]
    rw [List.any_eq_true]
    rintro ⟨c, hc, hbad⟩
    rw [roles_chars n c hc] at hbad
    exact absurd hbad (by decide)
  have hlatin : ∀ f ∈ [("x-user-id", "7"), ("x-user-name", "kim"), ("x-user-superuser", "false"),
      ("x-user-permissions", "file:read"), ("x-user-supervision-full", "")],
      safeHeaderValue (.str f.2) = .ok f.2 ∧ (f.2.toList.all fun c => decide (c.toNat < 0x100)) = true := by decide
  have hothers : ∀ f ∈ [("x-user-id", "7"), ("x-user-name", "kim"), ("x-user-superuser", "false"),
      ("x-user-permissions", "file:read"), ("x-user-supervision-full", "")],
      safeHeaderValue (.str f.2) = .ok f.2 ∧ ∀ c ∈ f.2.toList, c.toNat < 0x100 :=
    fun f hf => ⟨(hlatin f hf).1, Search.forall_mem_of_all (hlatin f hf).2⟩
  intro f hf
  simp only [userHeaders, List.mem_cons, List.not_mem_nil, or_false] at hf
  obtain rfl | rfl | rfl | rfl | rfl | rfl := hf
  · exact hothers _ (by simp)
  · exact hothers _ (by simp)
  · exact hothers _ (by simp)
  · exact hroles
  · exact hothers _ (by simp)
  · exact hothers _ (by simp)

theorem userHeaders_canonical (n : Nat) : IsCanonical (userHeaders n) where
  names := rfl
  safe := fun f hf => (userHeaders_safe n f hf).1
  user := by
    change "7" ≠ "" ∧ "kim" ≠ ""
    decide
  superuser := by
    change lower "false".toList = "true".toList ∨ lower "false".toList = "false".toList
    decide

theorem user_issued (n : Nat) : checkedIssue agents 1000 (asFields (userHeaders n)) toFiles = .ok (userIssue n) := by
  have hcanonical := canonical_of_perm (userHeaders_canonical n) (List.Perm.refl _) true
  have hnames : serviceName (toFiles.serviceName.or agents.serviceName) serviceNameEnv = .ok "agents" ∧
      serviceName (some toFiles.audience) "audience" = .ok "files" := by decide
  have hkey : keyBytes ((toFiles.signingKey.or agents.signingKey).map .str) serviceSigningKeyEnv = .ok sharedKey := by
    decide
  have hvalues : decide (lower (valueOf (userHeaders n) "x-user-superuser").toList ≠ "false".toList) = false ∧
      ((splitPermissions (valueOf (userHeaders n) "x-user-permissions")).any fun p => p.contains '*') = false := by
    change decide (lower "false".toList ≠ "false".toList) = false ∧
      ((splitPermissions "file:read").any fun p => p.contains '*') = false
    decide
  rw [checkedIssue, hnames.1, ok_bind, hnames.2, ok_bind, hkey, ok_bind]
  simp only [hcanonical, hvalues, ok_bind, refuse_false, toFiles, agents, selectedKeyId, checkedTtl, checkedNow,
    Option.or, Option.getD]
  rfl

theorem user_signed (n : Nat) : servicePrincipalHeaders zeroTag agents 1000 (asFields (userHeaders n)) toFiles =
    .ok ((userIssue n).wireHeaders zeroTag) := by
  have hcanonical := canonical_of_perm (userHeaders_canonical n) (List.Perm.refl _) true
  rw [servicePrincipalHeaders, hcanonical, ok_bind, signPrincipalForService, user_issued]
  rfl

theorem userPayload_length (n : Nat) : (userIssue n).payloadLength = n + 224 := by
  have hmap : (userIssue n).headers.map (fun f => Json.escapedLength f.1 + Json.escapedLength f.2 + 5) =
      [15, 19, 26, Json.escapedLength "x-user-roles" + Json.escapedLength (roles n) + 5, 32, 28] := by
    have hplain : [("x-user-id", "7"), ("x-user-name", "kim"), ("x-user-superuser", "false"),
        ("x-user-permissions", "file:read"), ("x-user-supervision-full", "")].map
        (fun f => Json.escapedLength f.1 + Json.escapedLength f.2 + 5) = [15, 19, 26, 32, 28] := by decide
    simp only [List.map_cons, List.map_nil, List.cons.injEq] at hplain
    obtain ⟨hid, hname, hsuper, hpermissions, hfull, -⟩ := hplain
    simp only [userIssue, userHeaders, List.map_cons, List.map_nil, hid, hname, hsuper, hpermissions, hfull]
  have hothers : Json.escapedLength "x-user-roles" = 12 ∧ Json.escapedLength "agents" = 6 ∧
      Json.escapedLength "files" = 5 ∧ intLength 1000 = 4 ∧ intLength 1060 = 4 := by decide
  obtain ⟨hroles, hissuer, haudience, hiat, hexp⟩ := hothers
  rw [Issue.payloadLength, hmap, escapedLength_roles, hroles]
  simp only [userIssue, hissuer, haudience, hiat, hexp, List.sum_cons, List.sum_nil]
  omega

theorem userIssue_length (n : Nat) : (userIssue n).length = 81 + base64Length (n + 224) := by
  have hheader : (userIssue n).headerLength = 27 := rfl
  rw [Issue.length, userPayload_length, hheader, base64Length]
  omega

theorem zeroTag_signs (n : Nat) (key : Bytes) (text : List Char) :
    (userLibraries n).hmacVerifies key text (zeroTag key text) = true := by
  change decide (zeroTag key text = zeroTag key text) = true
  exact decide_eq_true rfl

theorem zeroTag_length (key : Bytes) (text : List Char) : (zeroTag key text).length = 32 := List.length_replicate

theorem user_fit (n : Nat) : (userIssue n).Fit := (checkedIssue_fit (user_issued n)).1

theorem user_readsBack (n : Nat) : ReadsBack (userLibraries n) (userIssue n) := by
  have hheader := length_header (userIssue n)
  have hpayload := length_payload (user_fit n)
  rw [userPayload_length] at hpayload
  have htrusted : trustedText.toList.length = 81 := by decide
  have hne : Json.dumps (.obj (userIssue n).header) ≠ trustedText.toList := by
    intro heq
    rw [heq, htrusted] at hheader
    exact absurd hheader (by change ¬ 81 = 27; decide)
  have hne' : Json.dumps (.obj (userIssue n).payload) ≠ trustedText.toList := by
    intro heq
    rw [heq, htrusted] at hpayload
    omega
  have hne'' : Json.dumps (.obj (userIssue n).payload) ≠ Json.dumps (.obj (userIssue n).header) := by
    intro heq
    rw [heq, hheader] at hpayload
    change 27 = n + 224 at hpayload
    omega
  refine ⟨?_, ?_⟩
  · rw [userLibraries]
    dsimp only
    rw [if_neg hne, if_pos rfl]
  · rw [userLibraries]
    dsimp only
    rw [if_neg hne', if_neg hne'', if_pos rfl]

theorem user_trusts (n : Nat) : Trusts (userLibraries n) delegationEnvironment (userIssue n) := by
  have hloads : loads (userLibraries n) trustedText.toList = some (.obj [("agents", .obj
      [("key", .str "kkkkkkkkkkkkkkkkkkkkkkkkkkkkkkkk"), ("permissions", .arr [.str "file:read"])])]) := by
    rw [loads, userLibraries]
    dsimp only
    rw [if_pos rfl]
    rfl
  have hconfig : jsonConfig (userLibraries n) (some trustedText) trustedServicesEnv =
      .ok [("agents", .obj [("key", .str "kkkkkkkkkkkkkkkkkkkkkkkkkkkkkkkk"),
        ("permissions", .arr [.str "file:read"])])] := by
    have hne : trustedText ≠ "" := by decide
    rw [jsonConfig, if_neg hne, hloads]
    rfl
  have hservices : trustedServices (userLibraries n) delegationEnvironment.trustedServices =
      .ok [("agents", ⟨[(none, sharedKey, none)], ["file:read"]⟩)] := by
    change trustedServices (userLibraries n) (some trustedText) = _
    rw [trustedServices, hconfig, ok_bind]
    rfl
  refine ⟨rfl, _, _, none, hservices, rfl, rfl, fun hne => absurd rfl hne, (fun c hc => by cases hc), ?_⟩
  change ∀ p ∈ splitPermissions "file:read", String.ofList p ∈ ["file:read"]
  decide

/-- A user with 12,100 letters of roles is signed for, and refused. -/
theorem long_roles_refused :
    ¬ ∀ (hmac : Bytes → List Char → Bytes) (env : IssuerEnvironment) (clock : Int) (delegated : Fields)
      (r : SigningRequest) (headers : List (String × String)), (∀ key text, (hmac key text).length = 32) →
      (∀ f ∈ delegated, ∀ s, f.2 = .str s → ∀ c ∈ s.toList, c.toNat < 0x100) →
      servicePrincipalHeaders hmac env clock delegated r = .ok headers →
      ∀ i : Issue, canonicalIdentityHeaders delegated true = .ok i.headers →
        checkedIssue env clock (asFields i.headers) r = .ok i →
        ∀ (lib : Libraries Unit) (receiver : Environment), (∀ key text, lib.hmacVerifies key text (hmac key text) = true) →
        Trusts lib receiver i → ReadsBack lib i → ∀ now, i.iat ≤ now → now < i.exp →
        verifiedIdentityHeaders lib receiver (headers.map scopeEntry) now = .ok (some i.headers) := by
  intro h
  have hlatin : ∀ f ∈ asFields (userHeaders 12100), ∀ s, f.2 = .str s → ∀ c ∈ s.toList, c.toNat < 0x100 := by
    intro f hf s hs
    obtain ⟨g, hg, rfl⟩ := List.mem_map.mp hf
    obtain rfl := Json.str.inj hs
    exact (userHeaders_safe 12100 g hg).2
  have hverified := h zeroTag agents 1000 (asFields (userHeaders 12100)) toFiles _ zeroTag_length hlatin
    (user_signed 12100) (userIssue 12100) (canonical_of_perm (userHeaders_canonical 12100) (List.Perm.refl _) true)
    (user_issued 12100) (userLibraries 12100) delegationEnvironment (zeroTag_signs 12100) (user_trusts 12100)
    (user_readsBack 12100) 1030 (by decide) (by decide)
  have hlength := (issued_verified_iff zeroTag_length (zeroTag_signs 12100) (user_fit 12100)
    (fun f hf => (userHeaders_safe 12100 f hf).2) (user_trusts 12100) (user_readsBack 12100) (by decide) (by decide)).mp
    hverified
  rw [userIssue_length, maxAssertionBytes, base64Length] at hlength
  omega

theorem servicePrincipal_verified_user :
    verifiedIdentityHeaders (userLibraries 3) delegationEnvironment
      (((userIssue 3).wireHeaders zeroTag).map scopeEntry) 1030 = .ok (some (userHeaders 3)) := by
  have hlatin : ∀ f ∈ asFields (userHeaders 3), ∀ s, f.2 = .str s → ∀ c ∈ s.toList, c.toNat < 0x100 := by
    intro f hf s hs
    obtain ⟨g, hg, rfl⟩ := List.mem_map.mp hf
    obtain rfl := Json.str.inj hs
    exact (userHeaders_safe 3 g hg).2
  obtain ⟨i, hcanonical, hissue, hall⟩ :=
    servicePrincipal_verified zeroTag zeroTag_length agents 1000 (asFields (userHeaders 3)) toFiles _ hlatin (user_signed 3)
  have hheaders : userHeaders 3 = i.headers :=
    Except.ok.inj ((canonical_of_perm (userHeaders_canonical 3) (List.Perm.refl _) true).symm.trans hcanonical)
  rw [← hheaders, user_issued] at hissue
  obtain rfl := Except.ok.inj hissue
  exact (hall (userLibraries 3) delegationEnvironment (zeroTag_signs 3) (user_trusts 3) (user_readsBack 3) 1030 (by decide)
    (by decide)).mpr (by rw [userIssue_length]; decide)

end ManyRoles

end XgenSdk.Principal
