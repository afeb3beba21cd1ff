import XgenSdk.Auth.Capability

/-! Every payload that is returned is that of a capability, signed with a key of
the keyring and in its lifetime, and every capability that was signed is verified
during its lifetime. -/
namespace XgenSdk.DocumentCapability
open XgenSdk.Py XgenSdk.Checks
open XgenSdk.Principal (Bytes Fields Retiring hasKeys hasKeys_perm isText isText_iff isBase64Url uniqueMembers uniqueFields_iff
  jsonSegment dumps_ne_nil length_jsonSegment base64Length)
variable {lib : Libraries}

/-! What the checks leave. -/

theorem decodeJsonSegment_unique {segment : List Char} {fields : Fields} (h : decodeJsonSegment lib segment = .ok fields) :
    (fields.map Prod.fst).Nodup := by
  unfold decodeJsonSegment at h
  obtain ⟨raw, -, h⟩ := bind_ok h
  split at h
  · rename_i found hfound
    obtain ⟨text, -, hloads⟩ := Option.bind_eq_some_iff.mp hfound
    have hunique : uniqueMembers (.obj found) = true := (Option.filter_eq_some_iff.mp hloads).2
    rw [← Except.ok.inj h]
    exact (uniqueFields_iff.mp hunique).1
  · cases h

theorem decodeSegment_ok {segment : List Char} {message : String} {raw : Bytes} (h : decodeSegment segment message = .ok raw) :
    b64urlEncode raw = segment := by
  unfold decodeSegment at h
  split at h
  · cases h
  · split at h
    · cases h
    · split at h
      · cases h
      · rename_i heq
        rw [← Except.ok.inj h]
        exact not_not.mp heq

theorem keyId_ok {value : Option Json} {source kid : String} {configuration : Bool}
    (h : keyId value source configuration = .ok kid) : value = some (.str kid) ∧ Principal.isName kid = true := by
  unfold keyId at h
  dsimp only at h
  split at h
  · split at h
    · rename_i hname
      rw [← Except.ok.inj h]
      exact ⟨rfl, hname⟩
    · cases h
  · cases h

theorem selectKey_ok {keyring : Keyring} {kid : String} {selected : Retiring Bytes} (h : selectKey keyring kid = .ok selected) :
    keyring.lookup kid = some selected := by
  unfold selectKey at h
  split at h
  · cases h
  · rename_i found hfound
    rw [hfound, Except.ok.inj h]

theorem timestamp_ok {value : Option Json} {n : Int} (h : timestamp value = .ok n) : value = some (.int n) := by
  unfold timestamp at h
  split at h
  · rw [Except.ok.inj h]
  · cases h

theorem nonemptyString_ok {value : Option Json} {claim : String} {text : PlainText}
    (h : nonemptyString value claim = .ok text) : value = some (.str text.1) := by
  unfold nonemptyString at h
  dsimp only at h
  split at h
  · split at h
    · rw [← Except.ok.inj h]
    · cases h
  · cases h

theorem textItems_some {items : List Json} {texts : List String} (h : textItems items = some texts) :
    items = texts.map .str := by
  unfold textItems at h
  induction items generalizing texts with
  | nil =>
    rw [List.mapM_nil] at h
    rw [← Option.some.inj h]
    rfl
  | cons item items ih =>
    rw [List.mapM_cons] at h
    obtain ⟨text, htext, h⟩ := Option.bind_eq_some_iff.mp h
    obtain ⟨rest, hrest, h⟩ := Option.bind_eq_some_iff.mp h
    rw [← Option.some.inj h, ih hrest, List.map_cons]
    cases item with
    | str s => rw [Option.some.inj htext]
    | _ => cases htext

theorem areTexts_ok {value : Option Json} {texts : List String} (h : areTexts value texts = true) :
    value = some (.arr (texts.map .str)) := by
  unfold areTexts at h
  split at h
  · rw [textItems_some (of_decide_eq_true h)]
  · cases h

theorem sameClaims_ok {payload : Fields} {canonical : BusinessClaims} (h : sameClaims payload canonical = true) :
    ∀ f ∈ canonical.fields, Json.lookup f.1 payload = some f.2 := by
  simp only [sameClaims, Bool.and_eq_true, isText_iff] at h
  obtain ⟨⟨⟨⟨⟨hdeployment, hworkflow⟩, hpolicy⟩, hresource⟩, hdigest⟩, hoperations⟩ := h
  intro f hf
  simp only [BusinessClaims.fields, List.mem_cons, List.not_mem_nil, or_false] at hf
  obtain rfl | rfl | rfl | rfl | rfl | rfl := hf
  · exact hdeployment
  · exact hworkflow
  · exact hpolicy
  · exact hresource
  · exact hdigest
  · exact areTexts_ok hoperations

theorem hasKeys_names {fields : Fields} {names : List String} (h : hasKeys fields names = true) : ∀ f ∈ fields, f.1 ∈ names := by
  intro f hf
  rw [hasKeys, Bool.and_eq_true, List.all_eq_true] at h
  exact List.contains_iff_mem.mp (h.1 f hf)

/-- The members of a payload besides the business claims, and its lifetime. -/
structure Alive (clock : Int) (now : Option Json) (cutoff : Option Int) (payload : Fields) (iat exp : Int) (jti : String) :
    Prop where
  names : ∀ f ∈ payload, f.1 ∈ payloadKeys
  members : ∀ f ∈ [("iss", .str documentCapabilityIssuer), ("aud", .str documentCapabilityAudience),
    ("type", .str documentCapabilityType), ("iat", .int iat), ("exp", .int exp), ("jti", Json.str jti)],
    Json.lookup f.1 payload = some f.2
  plain : isPlain jti = true
  inside : ∃ current, checkedNow (now.getD (.int clock)) = .ok current ∧ iat ≤ current ∧ current < exp
  short : exp ≤ iat + 60
  cutoff : ∀ t, cutoff = some t → exp ≤ t

theorem checkPayload_ok {clock : Int} {now : Option Json} {cutoff : Option Int} {payload : Fields} {u : Unit}
    (h : checkPayload clock now cutoff payload = .ok u) : ∃ iat exp jti, Alive clock now cutoff payload iat exp jti := by
  unfold checkPayload at h
  obtain ⟨hkeys, h⟩ := refuse_bind h
  obtain ⟨hfixed, h⟩ := refuse_bind h
  obtain ⟨iat, hiat, h⟩ := bind_ok h
  obtain ⟨exp, hexp, h⟩ := bind_ok h
  obtain ⟨current, hcurrent, h⟩ := bind_ok h
  obtain ⟨hlife, h⟩ := refuse_bind h
  obtain ⟨hcutoff, h⟩ := refuse_bind h
  obtain ⟨jti, hjti, -⟩ := bind_ok h
  simp only [Bool.not_eq_false', Bool.and_eq_true, isText_iff] at hfixed
  obtain ⟨⟨hiss, haud⟩, htype⟩ := hfixed
  have hrange := of_decide_eq_false hlife
  refine ⟨iat, exp, jti.1, hasKeys_names (by simpa using hkeys), ?_, jti.2, ⟨current, hcurrent, by omega, by omega⟩, by omega,
    ?_⟩
  · intro f hf
    simp only [List.mem_cons, List.not_mem_nil, or_false] at hf
    obtain rfl | rfl | rfl | rfl | rfl | rfl := hf
    · exact hiss
    · exact haud
    · exact htype
    · exact timestamp_ok hiat
    · exact timestamp_ok hexp
    · exact nonemptyString_ok hjti
  · rintro t rfl
    simpa using hcutoff

/-! What is returned. -/

/-- The keyring holds the key of a capability, not retired before its end. -/
def Trusts (lib : Libraries) (env : Environment) (trustedKeys : Option Json) (c : Capability) : Prop :=
  ∃ keyring cutoff, selectedKeyring lib env trustedKeys = .ok keyring ∧
    keyring.lookup c.keyId = some (c.key, cutoff) ∧ ∀ t, cutoff = some t → c.exp ≤ t

/-- The time of the verifier, given or of its clock, is one of the lifetime. -/
def Capability.IsAlive (c : Capability) (clock : Int) (now : Option Json) : Prop :=
  ∃ current, checkedNow (now.getD (.int clock)) = .ok current ∧ c.iat ≤ current ∧ current < c.exp

/-- The token is this capability, signed; the payload is its payload, in any order. -/
structure Capability.Accepted (c : Capability) (lib : Libraries) (env : Environment) (clock : Int) (token : String)
    (trustedKeys now : Option Json) (payload : Fields) : Prop where
  members : payload.Perm c.payload
  jti : isPlain c.jti = true
  trusted : Trusts lib env trustedKeys c
  alive : c.IsAlive clock now
  short : c.exp ≤ c.iat + 60
  signed : ∃ head body, token.toList.splitOn '.' = [head, body, b64urlEncode (lib.hmac c.key (head ++ '.' :: body))] ∧
    decodeJsonSegment lib body = .ok payload

theorem Capability.payload_nodup (c : Capability) : (c.payload.map Prod.fst).Nodup := by
  change ["iss", "aud", "type", "iat", "exp", "jti", "deployment_id", "workflow_id", "policy_digest", "resource_id",
    "resource_digest", "operations"].Nodup
  decide

theorem Capability.payloadKeys_sub (c : Capability) : ∀ name ∈ payloadKeys, name ∈ c.payload.map Prod.fst := by
  change ∀ name ∈ payloadKeys, name ∈ ["iss", "aud", "type", "iat", "exp", "jti", "deployment_id", "workflow_id",
    "policy_digest", "resource_id", "resource_digest", "operations"]
  decide

theorem members_perm {payload : Fields} (hunique : (payload.map Prod.fst).Nodup) {c : Capability}
    (hnames : ∀ f ∈ payload, f.1 ∈ payloadKeys) (hmembers : ∀ f ∈ c.payload, Json.lookup f.1 payload = some f.2) :
    payload.Perm c.payload := by
  refine Json.perm_of_lookup c.payload_nodup hunique (fun key value hlookup => ?_) fun f hf =>
    c.payloadKeys_sub f.1 (hnames f hf)
  exact hmembers (key, value) ((Json.lookup_iff_mem c.payload_nodup).mp hlookup)

theorem verifyDocumentCapability_ok {env : Environment} {clock : Int} {token : String} {trustedKeys now : Option Json}
    {payload : Fields} (h : verifyDocumentCapability lib env clock token trustedKeys now = .ok payload) :
    (token.toList.filter isAscii).length ≤ maxCapabilityBytes ∧
      ∃ c : Capability, c.Accepted lib env clock token trustedKeys now payload := by
  unfold verifyDocumentCapability at h
  obtain ⟨hlong, h⟩ := refuse_bind h
  refine ⟨not_lt.mp (of_decide_eq_false hlong), ?_⟩
  split at h
  · rename_i head body signature hparts
    obtain ⟨-, h⟩ := refuse_bind h
    obtain ⟨header, -, h⟩ := bind_ok h
    obtain ⟨-, h⟩ := refuse_bind h
    obtain ⟨kid, -, h⟩ := bind_ok h
    obtain ⟨keyring, hkeyring, h⟩ := bind_ok h
    obtain ⟨⟨key, cutoff⟩, hselected, h⟩ := bind_ok h
    obtain ⟨raw, hraw, h⟩ := bind_ok h
    obtain ⟨-, h⟩ := refuse_bind h
    obtain ⟨hsigned, h⟩ := refuse_bind h
    obtain ⟨payload', hpayload, h⟩ := bind_ok h
    obtain ⟨u, hcheck, h⟩ := bind_ok h
    obtain ⟨canonical, -, h⟩ := bind_ok h
    obtain ⟨hsame, h⟩ := refuse_bind h
    obtain rfl := Except.ok.inj h
    obtain ⟨iat, exp, jti, halive⟩ := checkPayload_ok hcheck
    have htag : raw = lib.hmac key (head ++ '.' :: body) := not_not.mp (of_decide_eq_false hsigned)
    refine ⟨⟨canonical, key, kid, iat, exp, jti⟩, ?_, halive.plain,
      ⟨keyring, cutoff, hkeyring, selectKey_ok hselected, halive.cutoff⟩, halive.inside, halive.short, head, body, ?_, hpayload⟩
    · refine members_perm (decodeJsonSegment_unique hpayload) halive.names fun f hf => ?_
      obtain hf | hf := List.mem_append.mp hf
      · exact halive.members f hf
      · exact sameClaims_ok (by simpa using hsame) f hf
    · dsimp only
      rw [← htag, decodeSegment_ok hraw]
      exact hparts
  · cases h

/-! What is issued. -/

/-- A capability as `checkedCapability` lets it pass. -/
structure Capability.Fit (c : Capability) : Prop where
  keyId : Principal.isName c.keyId = true
  lifetime : c.iat < c.exp ∧ c.exp ≤ c.iat + 60
  jti : isPlain c.jti = true

theorem checkedTtl_ok {ttlSeconds : Json} {ttl : Int} (h : checkedTtl ttlSeconds = .ok ttl) : 1 ≤ ttl ∧ ttl ≤ 60 := by
  unfold checkedTtl at h
  split at h
  · split at h
    · rename_i hrange
      rw [← Except.ok.inj h]
      exact hrange
    · cases h
  · cases h

theorem isPlain_base64 {raw : Bytes} (h : raw ≠ []) : isPlain (String.ofList (b64urlEncode raw)) = true := by
  have hdigits : ∀ n < 64, 32 ≤ (base64UrlDigit n).toNat := by decide
  have hne : String.ofList (b64urlEncode raw) ≠ "" := by
    intro hnil
    have hlist : b64urlEncode raw = [] := by simpa using congrArg String.toList hnil
    have hraw := b64urlDecode_encode raw
    rw [hlist] at hraw
    exact h (Option.some.inj hraw).symm
  rw [isPlain, Bool.and_eq_true, String.toList_ofList, List.all_eq_true]
  refine ⟨decide_eq_true hne, fun c hc => ?_⟩
  obtain ⟨n, hn, rfl⟩ := mem_b64urlEncode hc
  exact decide_eq_true (hdigits n hn)

theorem checkedCapability_fit {env : Environment} {clock : Int} {random : Bytes} {claims : Json} {r : SigningRequest}
    {c : Capability} (hrandom : random.length = 24) (h : checkedCapability env clock random claims r = .ok c) :
    c.Fit ∧ canonicalBusinessClaims claims = .ok c.claims := by
  unfold checkedCapability at h
  obtain ⟨canonical, hcanonical, h⟩ := bind_ok h
  obtain ⟨key, -, h⟩ := bind_ok h
  obtain ⟨kid, hkid, h⟩ := bind_ok h
  obtain ⟨ttl, httl, h⟩ := bind_ok h
  obtain ⟨issuedAt, -, h⟩ := bind_ok h
  have hrange := checkedTtl_ok httl
  have hne : random ≠ [] := by
    rintro rfl
    cases hrandom
  rw [← Except.ok.inj h]
  refine ⟨⟨(keyId_ok hkid).2, ⟨?_, ?_⟩, isPlain_base64 hne⟩, hcanonical⟩
  · change issuedAt < issuedAt + ttl
    omega
  · change issuedAt + ttl ≤ issuedAt + 60
    omega

/-! What a verifier reads. -/

/-- The texts of a capability are read back. -/
structure ReadsBack (lib : Libraries) (c : Capability) : Prop where
  header : lib.parseJson (Json.dumps (.obj c.header)) = some (Json.sorted (.obj c.header))
  payload : lib.parseJson (Json.dumps (.obj c.payload)) = some (Json.sorted (.obj c.payload))

def Capability.readPayload (c : Capability) : Fields := Json.byKey c.payload

theorem sortedItems_texts (texts : List String) : Json.sortedItems (texts.map .str) = texts.map .str := by
  induction texts with
  | nil => rfl
  | cons text texts ih =>
    rw [List.map_cons, Json.sortedItems, ih]
    rfl

theorem sorted_header (c : Capability) : Json.sorted (.obj c.header) = .obj (Json.byKey c.header) := by
  rw [Json.sorted]
  rfl

theorem sorted_payload (c : Capability) : Json.sorted (.obj c.payload) = .obj c.readPayload := by
  have hfields : Json.sortedFields c.payload = c.payload := by
    simp only [Capability.payload, BusinessClaims.fields, List.cons_append, List.nil_append, Json.sortedFields, Json.sorted,
      sortedItems_texts]
  rw [Json.sorted, hfields, Capability.readPayload]

theorem Capability.header_nodup (c : Capability) : (c.header.map Prod.fst).Nodup := by
  change ["alg", "typ", "kid"].Nodup
  decide

theorem uniqueItems_texts (texts : List String) : uniqueMembers (.arr (texts.map .str)) = true := by
  rw [uniqueMembers]
  induction texts with
  | nil => rfl
  | cons text texts ih =>
    rw [List.map_cons, Principal.uniqueItems, ih]
    rfl

theorem unique_header (c : Capability) : uniqueMembers (.obj (Json.byKey c.header)) = true := by
  rw [Principal.uniqueMembers_perm (Json.byKey_perm _)]
  exact uniqueFields_iff.mpr ⟨c.header_nodup, by simp [Capability.header, uniqueMembers]⟩

theorem unique_payload (c : Capability) : uniqueMembers (.obj c.readPayload) = true := by
  rw [Capability.readPayload, Principal.uniqueMembers_perm (Json.byKey_perm _)]
  refine uniqueFields_iff.mpr ⟨c.payload_nodup, fun f hf => ?_⟩
  simp only [Capability.payload, BusinessClaims.fields, List.cons_append, List.nil_append, List.mem_cons, List.not_mem_nil,
    or_false] at hf
  obtain rfl | rfl | rfl | rfl | rfl | rfl | rfl | rfl | rfl | rfl | rfl | rfl := hf
  all_goals first | rfl | exact uniqueItems_texts _

theorem dumps_ascii_header (c : Capability) : ∀ d ∈ Json.dumps (.obj c.header), d.toNat < 0x80 := by
  refine Json.dumps_ascii_obj fun f hf => ?_
  simp only [Capability.header, List.mem_cons, List.not_mem_nil, or_false] at hf
  obtain rfl | rfl | rfl := hf
  all_goals exact Json.quoted_ascii _

theorem dumps_ascii_texts (texts : List String) : ∀ d ∈ Json.dumps (.arr (texts.map .str)), d.toNat < 0x80 := by
  refine Json.dumps_ascii_arr fun v hv => ?_
  obtain ⟨text, -, rfl⟩ := List.mem_map.mp hv
  exact Json.quoted_ascii text

theorem dumps_ascii_payload (c : Capability) : ∀ d ∈ Json.dumps (.obj c.payload), d.toNat < 0x80 := by
  refine Json.dumps_ascii_obj fun f hf => ?_
  simp only [Capability.payload, BusinessClaims.fields, List.cons_append, List.nil_append, List.mem_cons, List.not_mem_nil,
    or_false] at hf
  obtain rfl | rfl | rfl | rfl | rfl | rfl | rfl | rfl | rfl | rfl | rfl | rfl := hf
  all_goals first
    | exact Json.quoted_ascii _
    | exact Json.intText_ascii _
    | exact dumps_ascii_texts _

theorem decodeSegment_encode {raw : Bytes} (h : raw ≠ []) (message : String) :
    decodeSegment (b64urlEncode raw) message = .ok raw := by
  simp [decodeSegment, Principal.isBase64Url_encode h, b64urlDecode_encode]

theorem decodeJsonSegment_encode {fields read : Fields} (hascii : ∀ d ∈ Json.dumps (.obj fields), d.toNat < 0x80)
    (h : loads lib (Json.dumps (.obj fields)) = some (.obj read)) : decodeJsonSegment lib (jsonSegment fields) = .ok read := by
  have hraw : asciiBytes (Json.dumps (.obj fields)) ≠ [] := by simpa [asciiBytes] using dumps_ne_nil fields
  have hread : (utf8Text (asciiBytes (Json.dumps (.obj fields)))).bind (loads lib) = some (.obj read) := by
    rw [utf8Text_asciiBytes hascii, Option.bind_some, h]
  rw [decodeJsonSegment, jsonSegment, decodeSegment_encode hraw]
  simp only [bind, Except.bind, hread]

theorem decode_header {c : Capability} (hreads : ReadsBack lib c) :
    decodeJsonSegment lib (jsonSegment c.header) = .ok (Json.byKey c.header) := by
  refine decodeJsonSegment_encode (dumps_ascii_header c) ?_
  rw [loads, hreads.header, sorted_header, Option.filter_some, if_pos (unique_header c)]

theorem decode_payload {c : Capability} (hreads : ReadsBack lib c) :
    decodeJsonSegment lib (jsonSegment c.payload) = .ok c.readPayload := by
  refine decodeJsonSegment_encode (dumps_ascii_payload c) ?_
  rw [loads, hreads.payload, sorted_payload, Option.filter_some, if_pos (unique_payload c)]

theorem lookup_header {c : Capability} {f : String × Json} (hf : f ∈ c.header) :
    Json.lookup f.1 (Json.byKey c.header) = some f.2 := by
  rw [Json.lookup_perm (Json.byKey_perm _) c.header_nodup]
  exact (Json.lookup_iff_mem c.header_nodup).mpr hf

theorem lookup_payload {c : Capability} {f : String × Json} (hf : f ∈ c.payload) : Json.lookup f.1 c.readPayload = some f.2 := by
  rw [Capability.readPayload, Json.lookup_perm (Json.byKey_perm _) c.payload_nodup]
  exact (Json.lookup_iff_mem c.payload_nodup).mpr hf

/-! The business claims read back are the ones that were signed. -/

theorem textItems_map (texts : List String) : textItems (texts.map .str) = some texts := by
  unfold textItems
  induction texts with
  | nil => rfl
  | cons text texts ih => simp [List.mapM_cons, ih]

theorem nonemptyString_plain (text : PlainText) (claim : String) :
    nonemptyString (some (.str text.1)) claim = .ok text := dif_pos text.2

theorem checkedDeploymentId_plain (text : PlainText) : checkedDeploymentId (some (.str text.1)) = .ok text := dif_pos text.2

theorem checkedDigest_digest (digest : Digest) (claim : String) :
    checkedDigest (some (.str digest.1)) claim = .ok digest := dif_pos digest.2

theorem checkedOperations_texts (operations : Operations) :
    checkedOperations (some (.arr (operations.1.map .str))) = .ok operations := by
  rw [checkedOperations]
  rw [textItems_map]
  exact dif_pos operations.2

/-- Canonical claims, in an object that says them under their names, are their own canonical form. -/
theorem canonical_of_fields {fields : Fields} {claims : BusinessClaims} (hkeys : hasKeys fields inputClaimKeys = true)
    (h : ∀ f ∈ claims.fields, Json.lookup f.1 fields = some f.2) : canonicalBusinessClaims (.obj fields) = .ok claims := by
  have hdeployment := h ("deployment_id", .str claims.deploymentId.1) (by simp [BusinessClaims.fields])
  have hworkflow := h ("workflow_id", .str claims.workflowId.1) (by simp [BusinessClaims.fields])
  have hpolicy := h ("policy_digest", .str claims.policyDigest.1) (by simp [BusinessClaims.fields])
  have hresource := h ("resource_id", .str claims.resourceId.1) (by simp [BusinessClaims.fields])
  have hdigest := h ("resource_digest", .str claims.resourceDigest.1) (by simp [BusinessClaims.fields])
  have hoperations := h ("operations", .arr (claims.operations.1.map .str)) (by simp [BusinessClaims.fields])
  dsimp only at hdeployment hworkflow hpolicy hresource hdigest hoperations
  rw [canonicalBusinessClaims, hdeployment, hworkflow, hpolicy, hresource, hdigest, hoperations]
  simp only [hkeys, Bool.not_true, refuse_false, ok_bind, checkedDeploymentId_plain, checkedDigest_digest,
    checkedOperations_texts, nonemptyString_plain]
  rfl

theorem claims_sub (c : Capability) : ∀ f ∈ c.claims.fields, f ∈ c.payload := fun _ hf => List.mem_append_right _ hf

theorem inputClaims_payload (c : Capability) : inputClaims c.readPayload = c.claims.fields := by
  have h := fun f hf => lookup_payload (claims_sub c f hf)
  have hdeployment := h ("deployment_id", .str c.claims.deploymentId.1) (by simp [BusinessClaims.fields])
  have hworkflow := h ("workflow_id", .str c.claims.workflowId.1) (by simp [BusinessClaims.fields])
  have hpolicy := h ("policy_digest", .str c.claims.policyDigest.1) (by simp [BusinessClaims.fields])
  have hresource := h ("resource_id", .str c.claims.resourceId.1) (by simp [BusinessClaims.fields])
  have hdigest := h ("resource_digest", .str c.claims.resourceDigest.1) (by simp [BusinessClaims.fields])
  have hoperations := h ("operations", .arr (c.claims.operations.1.map .str)) (by simp [BusinessClaims.fields])
  simp only [inputClaims, inputClaimKeys, List.filterMap_cons, List.filterMap_nil, hdeployment, hworkflow, hpolicy, hresource,
    hdigest, hoperations, Option.map_some]
  rfl

end XgenSdk.DocumentCapability
