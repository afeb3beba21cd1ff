import XgenSdk.Auth.CapabilityVerified
import Mathlib.Algebra.Order.BigOperators.Group.List
import Mathlib.Algebra.Order.Ring.Nat

/-! Document capabilities, from the signer to the verifier. -/
namespace XgenSdk.DocumentCapability
open XgenSdk.Py XgenSdk.Checks
open XgenSdk.Principal (Bytes Fields hasKeys hasKeys_perm isText isText_iff jsonSegment length_jsonSegment base64Length ascii_base64
  segment_ne_nil)
variable {lib : Libraries} {env : Environment} {clock : Int} {trustedKeys now : Option Json} {c : Capability}

/-! The token. -/

theorem token_ascii (c : Capability) (hmac : Bytes → List Char → Bytes) : ∀ d ∈ (c.token hmac).toList, isAscii d = true := by
  intro d hd
  rw [Capability.token, String.toList_ofList, Capability.signingInput, jsonSegment, jsonSegment] at hd
  simp only [List.mem_append, List.mem_cons] at hd
  refine decide_eq_true ?_
  obtain (hd | rfl | hd) | rfl | hd := hd
  · exact (ascii_base64 d hd).1
  · decide
  · exact (ascii_base64 d hd).1
  · decide
  · exact (ascii_base64 d hd).1

theorem token_parts (c : Capability) (hmac : Bytes → List Char → Bytes) : (c.token hmac).toList.splitOn '.' =
    [jsonSegment c.header, jsonSegment c.payload, b64urlEncode (hmac c.key c.signingInput)] := by
  have hnone : ∀ raw, '.' ∉ b64urlEncode raw := fun raw hmem => (ascii_base64 _ hmem).2 rfl
  rw [Capability.token, String.toList_ofList, Capability.signingInput, List.append_assoc, List.cons_append, jsonSegment,
    jsonSegment, List.splitOn_append_cons_self_of_not_mem (hnone _), List.splitOn_append_cons_self_of_not_mem (hnone _),
    List.splitOn_eq_singleton (hnone _)]

theorem length_ascii (c : Capability) (hmac : Bytes → List Char → Bytes) :
    ((c.token hmac).toList.filter isAscii).length = (c.token hmac).length := by
  rw [List.filter_eq_self.mpr (token_ascii c hmac), String.length_toList]

/-! The checks of a token that was issued. -/

theorem checkPayload_issued (hfit : c.Fit) {cutoff : Option Int} (hcutoff : ∀ t, cutoff = some t → c.exp ≤ t)
    (halive : c.IsAlive clock now) : checkPayload clock now cutoff c.readPayload = .ok () := by
  obtain ⟨current, hcurrent, hiat, hexp⟩ := halive
  have hlife := hfit.lifetime
  have hkeys : hasKeys c.readPayload payloadKeys = true := by
    rw [Capability.readPayload, hasKeys_perm (Json.byKey_perm _)]
    rfl
  have h := fun f hf => lookup_payload (c := c) (f := f) hf
  have hiss := h ("iss", .str documentCapabilityIssuer) (by simp [Capability.payload])
  have haud := h ("aud", .str documentCapabilityAudience) (by simp [Capability.payload])
  have htype := h ("type", .str documentCapabilityType) (by simp [Capability.payload])
  have hi := h ("iat", .int c.iat) (by simp [Capability.payload])
  have he := h ("exp", .int c.exp) (by simp [Capability.payload])
  have hjti := h ("jti", .str c.jti) (by simp [Capability.payload])
  have hinside : (cutoff.any fun t => decide (c.exp > t)) = false := by
    cases cutoff with
    | none => rfl
    | some t => exact decide_eq_false (by have hle := hcutoff t rfl; omega)
  have hrange : decide (c.iat > current ∨ c.exp ≤ current ∨ c.exp ≤ c.iat ∨ c.exp > c.iat + 60) = false :=
    decide_eq_false (by omega)
  have hfixed : (isText (some (.str documentCapabilityIssuer)) documentCapabilityIssuer &&
      isText (some (.str documentCapabilityAudience)) documentCapabilityAudience &&
      isText (some (.str documentCapabilityType)) documentCapabilityType) = true := by decide
  rw [checkPayload, hiss, haud, htype, hi, he, hjti]
  simp only [hkeys, hfixed, Bool.not_true, refuse_false, ok_bind, timestamp, hcurrent, hrange, hinside,
    nonemptyString_plain ⟨c.jti, hfit.jti⟩]
  rfl

theorem canonical_issued (c : Capability) : canonicalBusinessClaims (.obj (inputClaims c.readPayload)) = .ok c.claims := by
  have hnodup : (c.claims.fields.map Prod.fst).Nodup := by
    change ["deployment_id", "workflow_id", "policy_digest", "resource_id", "resource_digest", "operations"].Nodup
    decide
  rw [inputClaims_payload]
  exact canonical_of_fields rfl fun f hf => (Json.lookup_iff_mem hnodup).mpr hf

theorem sameClaims_issued (c : Capability) : sameClaims c.readPayload c.claims = true := by
  have h := fun f hf => lookup_payload (claims_sub c f hf)
  have hdeployment := h ("deployment_id", .str c.claims.deploymentId.1) (by simp [BusinessClaims.fields])
  have hworkflow := h ("workflow_id", .str c.claims.workflowId.1) (by simp [BusinessClaims.fields])
  have hpolicy := h ("policy_digest", .str c.claims.policyDigest.1) (by simp [BusinessClaims.fields])
  have hresource := h ("resource_id", .str c.claims.resourceId.1) (by simp [BusinessClaims.fields])
  have hdigest := h ("resource_digest", .str c.claims.resourceDigest.1) (by simp [BusinessClaims.fields])
  have hoperations := h ("operations", .arr (c.claims.operations.1.map .str)) (by simp [BusinessClaims.fields])
  have hitems : areTexts (some (.arr (c.claims.operations.1.map .str))) c.claims.operations.1 = true :=
    decide_eq_true (textItems_map _)
  rw [sameClaims, hdeployment, hworkflow, hpolicy, hresource, hdigest, hoperations, hitems]
  simp [isText]

/-- In its lifetime, a capability that is not too long is verified. -/
theorem verify_issued (hsize : ∀ key text, (lib.hmac key text).length = 32) (hfit : c.Fit)
    (htrust : Trusts lib env trustedKeys c) (hreads : ReadsBack lib c) (halive : c.IsAlive clock now)
    (hlength : (c.token lib.hmac).length ≤ maxCapabilityBytes) :
    verifyDocumentCapability lib env clock (c.token lib.hmac) trustedKeys now = .ok c.readPayload := by
  obtain ⟨keyring, cutoff, hkeyring, hlookup, hcutoff⟩ := htrust
  have hlong : decide (((c.token lib.hmac).toList.filter isAscii).length > maxCapabilityBytes) = false := by
    rw [length_ascii]
    exact decide_eq_false (by omega)
  have htag : lib.hmac c.key c.signingInput ≠ [] := by
    intro hnil
    have h32 := hsize c.key c.signingInput
    rw [hnil] at h32
    cases h32
  have hsegments : decide (jsonSegment c.header = [] ∨ jsonSegment c.payload = [] ∨
      b64urlEncode (lib.hmac c.key c.signingInput) = []) = false := by
    refine decide_eq_false fun hnil => ?_
    obtain hnil | hnil | hnil := hnil
    · exact segment_ne_nil _ hnil
    · exact segment_ne_nil _ hnil
    · have h := decodeSegment_encode htag ""
      rw [hnil] at h
      cases h
  have hheader : (hasKeys (Json.byKey c.header) headerKeys && isText (Json.lookup "alg" (Json.byKey c.header)) "HS256" &&
      isText (Json.lookup "typ" (Json.byKey c.header)) "JWT") = true := by
    rw [hasKeys_perm (Json.byKey_perm _), lookup_header (f := ("alg", .str "HS256")) (by simp [Capability.header]),
      lookup_header (f := ("typ", .str "JWT")) (by simp [Capability.header])]
    rfl
  have hkid : keyId (Json.lookup "kid" (Json.byKey c.header)) "JWT kid" false = .ok c.keyId := by
    rw [lookup_header (f := ("kid", .str c.keyId)) (by simp [Capability.header])]
    exact if_pos hfit.keyId
  have hselected : selectKey keyring c.keyId = .ok (c.key, cutoff) := by rw [selectKey, hlookup]
  have hascii : (jsonSegment c.payload).all isAscii = true := by
    rw [List.all_eq_true]
    intro d hd
    rw [jsonSegment] at hd
    exact decide_eq_true (ascii_base64 d hd).1
  have hsigned : decide (lib.hmac c.key c.signingInput ≠ lib.hmac c.key (jsonSegment c.header ++ '.' :: jsonSegment c.payload)) =
      false := decide_eq_false (not_not.mpr rfl)
  rw [verifyDocumentCapability, token_parts]
  simp only [hlong, hsegments, refuse_false, ok_bind, decode_header hreads, hheader, Bool.not_true, hkid, hkeyring, hselected,
    decodeSegment_encode htag, hascii, hsigned, decode_payload hreads, checkPayload_issued hfit hcutoff halive,
    canonical_issued, sameClaims_issued]
  rfl

theorem lifetime_of_perm {d : Capability} (hperm : c.payload.Perm d.payload) : c.iat = d.iat ∧ c.exp = d.exp := by
  have h := Json.lookup_perm hperm d.payload_nodup
  exact ⟨Json.int.inj (Option.some.inj (h "iat")), Json.int.inj (Option.some.inj (h "exp"))⟩

/-- What the verifier returns for a capability, and when. -/
theorem verify_issued_iff (hsize : ∀ key text, (lib.hmac key text).length = 32) (hfit : c.Fit)
    (htrust : Trusts lib env trustedKeys c) (hreads : ReadsBack lib c) (payload : Fields) :
    verifyDocumentCapability lib env clock (c.token lib.hmac) trustedKeys now = .ok payload ↔
      (c.token lib.hmac).length ≤ maxCapabilityBytes ∧ c.IsAlive clock now ∧ payload = c.readPayload := by
  constructor
  · intro h
    obtain ⟨hlength, d, haccepted⟩ := verifyDocumentCapability_ok h
    obtain ⟨head, body, hparts, hpayload⟩ := haccepted.signed
    rw [token_parts] at hparts
    simp only [List.cons.injEq] at hparts
    rw [← hparts.2.1, decode_payload hreads] at hpayload
    have hsame : payload = c.readPayload := (Except.ok.inj hpayload).symm
    have hperm : c.payload.Perm d.payload := by
      have hmembers := haccepted.members
      rw [hsame] at hmembers
      exact (Json.byKey_perm c.payload).symm.trans hmembers
    obtain ⟨current, hcurrent, hiat, hexp⟩ := haccepted.alive
    obtain ⟨hi, he⟩ := lifetime_of_perm hperm
    rw [length_ascii] at hlength
    exact ⟨hlength, ⟨current, hcurrent, by omega, by omega⟩, hsame⟩
  · rintro ⟨hlength, halive, hsame⟩
    rw [hsame]
    exact verify_issued hsize hfit htrust hreads halive hlength

/-- A capability that is signed is verified during its lifetime and only then, where its token has at most 16,384
characters, and gives the canonical claims; and every payload that is returned is that of a capability in its lifetime. -/
theorem documentCapability_verified (lib : Libraries) (hsize : ∀ key text, (lib.hmac key text).length = 32) :
    (∀ issuer issuerClock random claims r token, random.length = 24 →
      signDocumentCapability lib issuer issuerClock random claims r = .ok token →
      ∃ c : Capability, checkedCapability issuer issuerClock random claims r = .ok c ∧
        canonicalBusinessClaims claims = .ok c.claims ∧
        ∀ env trustedKeys, Trusts lib env trustedKeys c → ReadsBack lib c → ∀ clock now payload,
          (verifyDocumentCapability lib env clock token trustedKeys now = .ok payload ↔
            token.length ≤ maxCapabilityBytes ∧ c.IsAlive clock now ∧ payload = c.readPayload)) ∧
    ∀ env clock token trustedKeys now payload, verifyDocumentCapability lib env clock token trustedKeys now = .ok payload →
      ∃ c : Capability, c.Accepted lib env clock token trustedKeys now payload := by
  refine ⟨fun issuer issuerClock random claims r token hrandom hsigned => ?_, fun env clock token trustedKeys now payload h =>
    (verifyDocumentCapability_ok h).2⟩
  unfold signDocumentCapability at hsigned
  cases hissue : checkedCapability issuer issuerClock random claims r with
  | error e =>
    rw [hissue] at hsigned
    cases hsigned
  | ok c =>
    rw [hissue] at hsigned
    obtain ⟨hfit, hclaims⟩ := checkedCapability_fit hrandom hissue
    rw [← Except.ok.inj hsigned]
    exact ⟨c, rfl, hclaims, fun env trustedKeys htrust hreads clock now payload =>
      verify_issued_iff hsize hfit htrust hreads payload⟩

/-! A workflow with a long name. -/

section LongWorkflow

def letters (n : Nat) : String := String.ofList (List.replicate n 'w')

def zeros : String := "0000000000000000000000000000000000000000000000000000000000000000"

def longClaims (n : Nat) : Json :=
  .obj [("deployment_id", .int 7), ("workflow_id", .str (letters (n + 1))), ("policy_digest", .str zeros),
    ("resource_id", .str "file"), ("resource_digest", .str zeros), ("operations", .arr [.str "fetch", .str "download"])]

def documents : Environment := ⟨none, some "kkkkkkkkkkkkkkkkkkkkkkkkkkkkkkkk", some "current"⟩

def drawn : Bytes := List.replicate 24 0

def minute : SigningRequest := ⟨none, none, .int 60, some (.int 1000)⟩

theorem letters_plain (n : Nat) : isPlain (letters (n + 1)) = true := by
  rw [isPlain, Bool.and_eq_true, letters, String.toList_ofList, List.all_eq_true]
  refine ⟨decide_eq_true fun hnil => ?_, fun d hd => ?_⟩
  · have hlist : List.replicate (n + 1) 'w' = [] := by simpa using congrArg String.toList hnil
    cases hlist
  · rw [List.eq_of_mem_replicate hd]
    decide

def longCapability (n : Nat) : Capability where
  claims :=
    { deploymentId := ⟨"7", by decide⟩
      workflowId := ⟨letters (n + 1), letters_plain n⟩
      policyDigest := ⟨zeros, by decide⟩
      resourceId := ⟨"file", by decide⟩
      resourceDigest := ⟨zeros, by decide⟩
      operations := ⟨["fetch", "download"], by decide⟩ }
  key := Principal.sharedKey
  keyId := "current"
  iat := 1000
  exp := 1060
  jti := String.ofList (b64urlEncode drawn)

def longLibraries (n : Nat) : Libraries where
  parseJson := fun text =>
    if text = Json.dumps (.obj (longCapability n).header) then some (Json.sorted (.obj (longCapability n).header))
    else if text = Json.dumps (.obj (longCapability n).payload) then some (Json.sorted (.obj (longCapability n).payload))
    else none
  hmac := fun _ _ => List.replicate 32 0

def currentKeys : Json := .obj [("current", .obj [("key", .str "kkkkkkkkkkkkkkkkkkkkkkkkkkkkkkkk")])]

theorem long_issued (n : Nat) : checkedCapability documents 0 drawn (longClaims n) minute = .ok (longCapability n) := by
  have hdeployment : checkedDeploymentId (some (.int 7)) = .ok (⟨"7", by decide⟩ : PlainText) := by decide
  have hdigest : ∀ claim, checkedDigest (some (.str zeros)) claim = .ok (longCapability n).claims.policyDigest := fun claim =>
    checkedDigest_digest (longCapability n).claims.policyDigest claim
  have hoperations : checkedOperations (some (.arr [.str "fetch", .str "download"])) =
      .ok (longCapability n).claims.operations := checkedOperations_texts (longCapability n).claims.operations
  have hworkflow : nonemptyString (some (.str (letters (n + 1)))) "workflow_id" = .ok (longCapability n).claims.workflowId :=
    nonemptyString_plain (longCapability n).claims.workflowId "workflow_id"
  have hresource : nonemptyString (some (.str "file")) "resource_id" = .ok (longCapability n).claims.resourceId :=
    nonemptyString_plain (longCapability n).claims.resourceId "resource_id"
  have hkey : keyBytes ((minute.signingKey.or documents.signingKey).map .str) serviceSigningKeyEnv = .ok Principal.sharedKey ∧
      keyId ((minute.keyId.or documents.keyId).map .str) serviceKeyIdEnv true = .ok "current" := by decide
  have hcanonical : canonicalBusinessClaims (longClaims n) = .ok (longCapability n).claims := by
    rw [longClaims, canonicalBusinessClaims]
    change (do
      let deploymentId ← checkedDeploymentId (some (.int 7))
      let policyDigest ← checkedDigest (some (.str zeros)) "policy_digest"
      let resourceDigest ← checkedDigest (some (.str zeros)) "resource_digest"
      let operations ← checkedOperations (some (.arr [.str "fetch", .str "download"]))
      let workflowId ← nonemptyString (some (.str (letters (n + 1)))) "workflow_id"
      let resourceId ← nonemptyString (some (.str "file")) "resource_id"
      return ⟨deploymentId, workflowId, policyDigest, resourceId, resourceDigest, operations⟩ : Checked BusinessClaims) = _
    rw [hdeployment, hdigest, hdigest, hoperations, hworkflow, hresource]
    rfl
  rw [checkedCapability, hcanonical, hkey.1, hkey.2]
  rfl

theorem long_signed (n : Nat) : signDocumentCapability (longLibraries n) documents 0 drawn (longClaims n) minute =
    .ok ((longCapability n).token (longLibraries n).hmac) := by
  rw [signDocumentCapability, long_issued]
  rfl

theorem long_trusts (n : Nat) : Trusts (longLibraries n) documents (some currentKeys) (longCapability n) := by
  have hkeyring : parseKeyring currentKeys "trusted_keys" = .ok [("current", Principal.sharedKey, none)] := by decide
  exact ⟨_, none, hkeyring, rfl, fun t ht => by cases ht⟩

theorem length_le_escapedLength (s : String) : s.toList.length ≤ Json.escapedLength s := by
  have hone : ∀ c, 1 ≤ (Json.escapeChar c).length := by
    intro c
    unfold Json.escapeChar
    dsimp only
    split_ifs <;> simp [Json.hexFour]
  rw [Json.escapedLength, List.length_flatMap]
  induction s.toList with
  | nil => exact Nat.le_refl 0
  | cons c cs ih =>
    rw [List.map_cons, List.sum_cons, List.length_cons]
    have hc := hone c
    omega

theorem length_member_le {fields : Fields} {name text : String} (h : (name, .str text) ∈ fields) :
    text.toList.length ≤ (Json.dumps (.obj fields)).length := by
  have hle := length_le_escapedLength text
  have hsum := List.single_le_sum (l := fields.map fun f => Json.escapedLength f.1 + 3 + (Json.dumps f.2).length)
    (fun _ _ => Nat.zero_le _) _ (List.mem_map_of_mem h)
  dsimp only at hsum
  rw [Principal.length_str] at hsum
  rw [Json.length_dumps_obj]
  omega

/-- The texts that are read back differ in their lengths. -/
theorem long_readsBack (n : Nat) : ReadsBack (longLibraries n) (longCapability n) := by
  have hheader : (Json.dumps (.obj (longCapability n).header)).length = 43 := by
    change (Json.dumps (.obj [("alg", .str "HS256"), ("typ", .str "JWT"), ("kid", .str "current")])).length = 43
    decide
  have hpayload : 64 ≤ (Json.dumps (.obj (longCapability n).payload)).length :=
    length_member_le (show ("policy_digest", Json.str zeros) ∈ _ by simp [Capability.payload, BusinessClaims.fields, longCapability])
  have hne : Json.dumps (.obj (longCapability n).payload) ≠ Json.dumps (.obj (longCapability n).header) := by
    intro heq
    rw [heq, hheader] at hpayload
    omega
  refine ⟨?_, ?_⟩
  · rw [longLibraries]
    dsimp only
    rw [if_pos rfl]
  · rw [longLibraries]
    dsimp only
    rw [if_neg hne, if_pos rfl]

theorem length_token (n : Nat) : n < ((longCapability n).token (longLibraries n).hmac).length := by
  have hmember : (n + 1) ≤ (Json.dumps (.obj (longCapability n).payload)).length := by
    have hmem : ("workflow_id", Json.str (letters (n + 1))) ∈ (longCapability n).payload := by
      simp [Capability.payload, BusinessClaims.fields, longCapability]
    have hle := length_member_le hmem
    rwa [letters, String.toList_ofList, List.length_replicate] at hle
  have hsegment := length_jsonSegment (longCapability n).payload
  rw [base64Length] at hsegment
  rw [Capability.token, ← String.length_toList, String.toList_ofList, Capability.signingInput]
  simp only [List.length_append, List.length_cons]
  omega

theorem long_alive (n : Nat) : (longCapability n).IsAlive 0 (some (.int 1030)) :=
  ⟨1030, rfl, by change (1000 : Int) ≤ 1030; decide, by change (1030 : Int) < 1060; decide⟩

theorem zeros_length (n : Nat) (key : Bytes) (text : List Char) : ((longLibraries n).hmac key text).length = 32 :=
  List.length_replicate

/-- A capability for a workflow whose name has 16,385 letters is signed, and refused. -/
theorem long_workflow_refused :
    ¬ ∀ (lib : Libraries), (∀ key text, (lib.hmac key text).length = 32) → ∀ issuer issuerClock random claims r token,
      random.length = 24 → signDocumentCapability lib issuer issuerClock random claims r = .ok token →
      ∃ c : Capability, checkedCapability issuer issuerClock random claims r = .ok c ∧
        ∀ env trustedKeys, Trusts lib env trustedKeys c → ReadsBack lib c → ∀ clock now, c.IsAlive clock now →
          ∃ payload, verifyDocumentCapability lib env clock token trustedKeys now = .ok payload := by
  intro h
  -- The number is kept apart, so that nothing evaluates the long name.
  obtain ⟨n, hn⟩ : ∃ n, n = maxCapabilityBytes := ⟨_, rfl⟩
  obtain ⟨c, hissue, hverified⟩ := h (longLibraries n) (zeros_length n) documents 0 drawn (longClaims n) minute _
    List.length_replicate (long_signed n)
  rw [long_issued] at hissue
  obtain rfl := Except.ok.inj hissue
  obtain ⟨payload, hpayload⟩ := hverified documents (some currentKeys) (long_trusts n) (long_readsBack n) 0
    (some (.int 1030)) (long_alive n)
  have hfit := (checkedCapability_fit List.length_replicate (long_issued n)).1
  have hlength := ((verify_issued_iff (zeros_length n) hfit (long_trusts n) (long_readsBack n) payload).mp hpayload).1
  have hlong := length_token n
  omega

theorem length_short : ((longCapability 3).token (longLibraries 3).hmac).length ≤ maxCapabilityBytes := by
  rw [Capability.token, ← String.length_toList, String.toList_ofList, Capability.signingInput]
  simp only [List.length_append, List.length_cons, length_jsonSegment, Json.length_dumps_obj, length_b64urlEncode,
    zeros_length]
  decide

theorem documentCapability_verified_short :
    verifyDocumentCapability (longLibraries 3) documents 0 ((longCapability 3).token (longLibraries 3).hmac) (some currentKeys)
      (some (.int 1030)) = .ok (longCapability 3).readPayload := by
  obtain ⟨c, hissue, -, hverified⟩ := (documentCapability_verified (longLibraries 3) (zeros_length 3)).1 documents 0 drawn
    (longClaims 3) minute _ List.length_replicate (long_signed 3)
  rw [long_issued] at hissue
  obtain rfl := Except.ok.inj hissue
  exact (hverified documents (some currentKeys) (long_trusts 3) (long_readsBack 3) 0 (some (.int 1030)) _).mpr
    ⟨length_short, long_alive 3, rfl⟩

end LongWorkflow

end XgenSdk.DocumentCapability
