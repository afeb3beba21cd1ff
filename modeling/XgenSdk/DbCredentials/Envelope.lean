import XgenSdk.Auth.Principal
import XgenSdk.Lib.Checks
import XgenSdk.Lib.Dict
import XgenSdk.Py.JsonText
import XgenSdk.Py.Codecs

/-! Envelopes of stored database credentials, bound to their row and their field. -/
namespace XgenSdk.DbCredentials
open XgenSdk.Py XgenSdk.Checks
open XgenSdk.Principal (Bytes Fields hasKeys isBase64Url)

/-- A `JSONDecodeError` of `json.loads`, its other `ValueError`, and its `RecursionError`. -/
inductive LoadsError where
  | decode
  | value
  | recursion
  deriving DecidableEq, Repr

/-- `CredentialConfigurationError`, `CredentialEnvelopeError`, and what nothing catches. -/
inductive Raised where
  | configuration (message : String)
  | envelope (code message : String)
  | uncaught (e : LoadsError)
  deriving DecidableEq, Repr

abbrev Result := Except Raised

/-- `json.loads`, and `encrypt` and `decrypt` of `AESGCM(key)` with nonce, data and associated data; `none` for an
`InvalidTag`. -/
structure Libraries where
  loads : List Char → Except LoadsError Json
  encrypt : Bytes → Bytes → Bytes → Bytes → Bytes
  decrypt : Bytes → Bytes → Bytes → Bytes → Option Bytes

def envelopePrefix : String := "xgen-db-credential:"

/-- `_FIELD_NAMES`. -/
def fieldNames : List String := ["db_password", "custom_password"]

/-- `_KID_RE`. -/
def isKid (s : String) : Bool :=
  match s.toList with
  | [] => false
  | c :: cs => c.isAlphanum && cs.all (fun d => d.isAlphanum || d = '.' || d = '_' || d = '-') && cs.length ≤ 63

/-- `_b64decode`; `none` where it raises. -/
def b64decode (value : String) : Option Bytes :=
  if isBase64Url value.toList then b64urlDecode value.toList else none

/-- `_b64encode`. -/
def b64encode (value : Bytes) : String := String.ofList (b64urlEncode value)

/-! Key rings. -/

/-- Keys by their ids, as they are configured. -/
structure Keys where
  byKid : Dict String Bytes
  valid : ∀ kid key, byKid.get kid = some key → isKid kid = true ∧ key.length = 32

def Keys.none : Keys := ⟨Dict.empty, fun kid key h => by cases h⟩

def Keys.set (keys : Keys) (kid : String) (key : Bytes) (h : isKid kid = true ∧ key.length = 32) : Keys where
  byKid := keys.byKid.set kid key
  valid := by
    intro other key' hget
    rw [Dict.get_set] at hget
    split at hget
    · rename_i heq
      exact heq ▸ Option.some.inj hget ▸ h
    · exact keys.valid other key' hget

/-- `CredentialKeyring`, with what `from_environment` makes sure of. -/
structure CredentialKeyring where
  activeKid : String
  keys : Keys
  active : (keys.byKid.get activeKid).isSome

/-- `ring.keys[ring.active_kid]`. -/
def CredentialKeyring.activeKey (ring : CredentialKeyring) : Bytes := (ring.keys.byKid.get ring.activeKid).get ring.active

/-- One member of the key ring's text. -/
def addKey (keys : Keys) (member : String × Json) : Result Keys :=
  if hkid : isKid member.1 = true then
    match member.2 with
    | .str encoded => match b64decode encoded with
      | some key =>
        if hkey : key.length = 32 then .ok (keys.set member.1 key ⟨hkid, hkey⟩)
        else .error (.configuration "credential keys must decode to exactly 32 bytes")
      | none => .error (.configuration "credential keys must be valid base64url")
    | _ => .error (.configuration "credential keys must be base64url strings")
  else .error (.configuration "credential key IDs must use safe ASCII characters")

/-- `DB_CREDENTIAL_KEYRING` and `DB_CREDENTIAL_ACTIVE_KID`. -/
structure Environment where
  keyring : Option String
  activeKid : Option String

/-- `CredentialKeyring.from_environment`. -/
def fromEnvironment (lib : Libraries) (env : Environment) : Result CredentialKeyring :=
  let raw := strip (env.keyring.getD "")
  let activeKid := strip (env.activeKid.getD "")
  if raw = "" ∨ activeKid = "" then
    .error (.configuration "DB_CREDENTIAL_KEYRING and DB_CREDENTIAL_ACTIVE_KID are required")
  else match lib.loads raw.toList with
    | .error .decode => .error (.configuration "DB_CREDENTIAL_KEYRING must be a JSON object")
    | .error e => .error (.uncaught e)
    | .ok (.obj (member :: members)) => do
      let keys ← (member :: members).foldlM addKey Keys.none
      if hactive : (keys.byKid.get activeKid).isSome then .ok ⟨activeKid, keys, hactive⟩
      else .error (.configuration "DB_CREDENTIAL_ACTIVE_KID is not present in DB_CREDENTIAL_KEYRING")
    | .ok _ => .error (.configuration "DB_CREDENTIAL_KEYRING must contain at least one key")

/-- `keyring or CredentialKeyring.from_environment()`. -/
def ringOr (lib : Libraries) (env : Environment) (keyring : Option CredentialKeyring) : Result CredentialKeyring :=
  keyring.elim (fromEnvironment lib env) .ok

/-! Envelopes. -/

/-- `_aad`. -/
def aad (bindingId fieldName : String) : Result Bytes :=
  let binding := strip bindingId
  if binding = "" ∨ binding.length > 128 then
    .error (.envelope "CREDENTIAL_BINDING_INVALID" "Credential row binding is invalid.")
  else if fieldName ∉ fieldNames then .error (.envelope "CREDENTIAL_FIELD_INVALID" "Credential field binding is invalid.")
  else .ok (utf8Bytes ("xgen|db_connections|v1|".toList ++ binding.toList ++ '|' :: fieldName.toList))

/-- What `os.urandom(12)` drew. -/
abbrev Nonce := { nonce : Bytes // nonce.length = 12 }

def payload (kid nonce ciphertext : String) : Fields :=
  [("version", .int 1), ("kid", .str kid), ("nonce", .str nonce), ("ciphertext", .str ciphertext)]

/-- `encrypt_envelope`. -/
def encryptEnvelope (lib : Libraries) (env : Environment) (nonce : Nonce) (plaintext bindingId fieldName : String)
    (keyring : Option CredentialKeyring) : Result String := do
  if plaintext = "" then throw (.envelope "CREDENTIAL_EMPTY" "Credential value is empty.")
  let ring ← ringOr lib env keyring
  let bound ← aad bindingId fieldName
  let ciphertext := lib.encrypt ring.activeKey nonce.val (utf8Bytes plaintext.toList) bound
  let text := Json.dumps (.obj (payload ring.activeKid (b64encode nonce.val) (b64encode ciphertext)))
  return envelopePrefix ++ b64encode (utf8Bytes text)

def invalidEnvelope : Raised := .envelope "CREDENTIAL_ENVELOPE_INVALID" "Credential envelope is invalid."

/-- What `_parse` returns. -/
structure Parsed where
  kid : String
  nonce : Bytes
  ciphertext : Bytes

/-- `value == 1`. -/
def isOne : Option Json → Bool
  | some (.int n) => n = 1
  | some (.bool b) => b
  | some (.float x) => x.text = "1.0"
  | _ => false

/-- The JSON value of an envelope. -/
def envelopeJson (lib : Libraries) (envelope : String) : Result Json :=
  if !envelopePrefix.toList.isPrefixOf envelope.toList then .error invalidEnvelope
  else match (b64decode (String.ofList (envelope.toList.drop envelopePrefix.length))).bind utf8Text with
    | none => .error invalidEnvelope
    | some text => match lib.loads text with
      | .ok value => .ok value
      | .error .recursion => .error (.uncaught .recursion)
      | .error _ => .error invalidEnvelope

def decodedText (value : Option Json) : Option Bytes :=
  match value with
  | some (.str s) => b64decode s
  | _ => none

def parsePayload (fields : Fields) : Result Parsed :=
  if !hasKeys fields ["version", "kid", "nonce", "ciphertext"] then .error invalidEnvelope
  else if !isOne (Json.lookup "version" fields) then
    .error (.envelope "CREDENTIAL_VERSION_UNSUPPORTED" "Credential envelope version is unsupported.")
  else match Json.lookup "kid" fields with
    | some (.str kid) =>
      if !isKid kid then .error invalidEnvelope
      else match decodedText (Json.lookup "nonce" fields), decodedText (Json.lookup "ciphertext" fields) with
        | some nonce, some ciphertext =>
          if nonce.length ≠ 12 ∨ ciphertext.length < 16 then .error invalidEnvelope else .ok ⟨kid, nonce, ciphertext⟩
        | _, _ => .error invalidEnvelope
    | _ => .error invalidEnvelope

/-- `_parse`. -/
def parse (lib : Libraries) (envelope : String) : Result Parsed := do
  match ← envelopeJson lib envelope with
  | .obj fields => parsePayload fields
  | _ => .error invalidEnvelope

def authFailed : Raised := .envelope "CREDENTIAL_AUTH_FAILED" "Credential authentication failed."

/-- `decrypt_envelope`. -/
def decryptEnvelope (lib : Libraries) (env : Environment) (envelope bindingId fieldName : String)
    (keyring : Option CredentialKeyring) : Result String := do
  let parsed ← parse lib envelope
  let ring ← ringOr lib env keyring
  match ring.keys.byKid.get parsed.kid with
  | none => .error (.envelope "CREDENTIAL_KEY_UNKNOWN" "Credential key is unavailable.")
  | some key => do
    let bound ← aad bindingId fieldName
    match (lib.decrypt key parsed.nonce parsed.ciphertext bound).bind utf8Text with
    | none => .error authFailed
    | some text => .ok (String.ofList text)

/-! An envelope opens for its row, its field and its key, and for nothing else. -/

open XgenSdk.Principal (Bytes Fields hasKeys isBase64Url isBase64Url_encode)

/-! The associated data. -/

/-- A text before the last mark, and a name without the mark. -/
theorem append_mark_inj {α : Type} {mark : α} {xs ys names names' : List α} (hxs : mark ∉ names) (hys : mark ∉ names')
    (h : xs ++ mark :: names = ys ++ mark :: names') : xs = ys ∧ names = names' := by
  obtain ⟨rest, rfl, hrest⟩ | ⟨rest, rfl, hrest⟩ := List.append_eq_append_iff.mp h
  · cases rest with
    | nil => exact ⟨(List.append_nil _).symm, (List.cons.inj hrest).2⟩
    | cons x rest =>
      rw [List.cons_append] at hrest
      exact absurd ((List.cons.inj hrest).2 ▸ List.mem_append_right rest List.mem_cons_self) hxs
  · cases rest with
    | nil => exact ⟨List.append_nil _, (List.cons.inj hrest).2.symm⟩
    | cons x rest =>
      rw [List.cons_append] at hrest
      exact absurd ((List.cons.inj hrest).2 ▸ List.mem_append_right rest List.mem_cons_self) hys

theorem mark_not_mem_fieldNames : ∀ name ∈ fieldNames, '|' ∉ name.toList := by decide

theorem aad_ok {bindingId fieldName : String} {bound : Bytes} (h : aad bindingId fieldName = .ok bound) :
    fieldName ∈ fieldNames ∧
      bound = utf8Bytes ("xgen|db_connections|v1|".toList ++ (strip bindingId).toList ++ '|' :: fieldName.toList) := by
  unfold aad at h
  dsimp only at h
  split at h
  · cases h
  split at h
  · cases h
  · rename_i hfield
    exact ⟨not_not.mp hfield, (Except.ok.inj h).symm⟩

theorem aad_injective {b b' f f' : String} {bound : Bytes} (h : aad b f = .ok bound) (h' : aad b' f' = .ok bound) :
    strip b = strip b' ∧ f = f' := by
  obtain ⟨hfield, rfl⟩ := aad_ok h
  obtain ⟨hfield', heq⟩ := aad_ok h'
  obtain ⟨hbinding, hname⟩ := append_mark_inj (mark_not_mem_fieldNames f hfield) (mark_not_mem_fieldNames f' hfield')
    (utf8Bytes_injective heq)
  exact ⟨String.toList_injective (List.append_cancel_left hbinding), String.toList_injective hname⟩

/-- It is accepted, or refused with an error of its own. -/
theorem aad_error {bindingId fieldName : String} {e : Raised} (h : aad bindingId fieldName = .error e) :
    ∃ code message, e = .envelope code message := by
  unfold aad at h
  dsimp only at h
  split at h
  · exact ⟨_, _, (Except.error.inj h).symm⟩
  split at h
  · exact ⟨_, _, (Except.error.inj h).symm⟩
  · cases h

/-! Reading an envelope. -/

theorem b64decode_encode {raw : Bytes} (h : raw ≠ []) : b64decode (b64encode raw) = some raw := by
  rw [b64decode, b64encode, String.toList_ofList, if_pos (isBase64Url_encode h), b64urlDecode_encode]

/-- The text of a payload. -/
def payloadText (kid : String) (nonce ciphertext : Bytes) : List Char :=
  Json.dumps (.obj (payload kid (b64encode nonce) (b64encode ciphertext)))

/-- The payload with its keys in order. -/
def orderedPayload (kid nonce ciphertext : String) : Fields :=
  [("ciphertext", .str ciphertext), ("kid", .str kid), ("nonce", .str nonce), ("version", .int 1)]

theorem sorted_payload (kid nonce ciphertext : String) :
    Json.sorted (.obj (payload kid nonce ciphertext)) = .obj (orderedPayload kid nonce ciphertext) := by
  simp +decide [Json.sorted, Json.sortedFields, payload, orderedPayload, Json.byKey, List.insertionSort, List.orderedInsert]

theorem parsePayload_ordered {kid : String} {nonce ciphertext : Bytes} (hkid : isKid kid = true) (hnonce : nonce.length = 12)
    (hlong : 16 ≤ ciphertext.length) :
    parsePayload (orderedPayload kid (b64encode nonce) (b64encode ciphertext)) = .ok ⟨kid, nonce, ciphertext⟩ := by
  have hnonceNil : nonce ≠ [] := fun hnil => by simp [hnil] at hnonce
  have hcipherNil : ciphertext ≠ [] := fun hnil => by simp [hnil] at hlong
  have hkeys : ∀ n c, hasKeys (orderedPayload kid n c) ["version", "kid", "nonce", "ciphertext"] = true := fun _ _ => rfl
  have hversion : ∀ n c, Json.lookup "version" (orderedPayload kid n c) = some (.int 1) := fun _ _ => rfl
  have hkidText : ∀ n c, Json.lookup "kid" (orderedPayload kid n c) = some (.str kid) := fun _ _ => rfl
  have hnonceText : ∀ n c, Json.lookup "nonce" (orderedPayload kid n c) = some (.str n) := fun _ _ => rfl
  have hcipherText : ∀ n c, Json.lookup "ciphertext" (orderedPayload kid n c) = some (.str c) := fun _ _ => rfl
  rw [parsePayload, hkeys, hversion, hkidText, hnonceText, hcipherText]
  simp [isOne, hkid, decodedText, b64decode_encode hnonceNil, b64decode_encode hcipherNil, hnonce, hlong]

variable {lib : Libraries} {env : Environment}

def envelopeText (kid : String) (nonce ciphertext : Bytes) : String :=
  envelopePrefix ++ b64encode (utf8Bytes (payloadText kid nonce ciphertext))

theorem envelopeJson_text {kid : String} {nonce ciphertext : Bytes} {value : Json}
    (h : lib.loads (payloadText kid nonce ciphertext) = .ok value) :
    envelopeJson lib (envelopeText kid nonce ciphertext) = .ok value := by
  have htext : (envelopeText kid nonce ciphertext).toList =
      envelopePrefix.toList ++ (b64encode (utf8Bytes (payloadText kid nonce ciphertext))).toList := String.toList_append
  have hstart : envelopePrefix.toList.isPrefixOf (envelopeText kid nonce ciphertext).toList = true := by
    rw [htext, List.isPrefixOf_iff_prefix]
    exact List.prefix_append _ _
  have hrest : (envelopeText kid nonce ciphertext).toList.drop envelopePrefix.length =
      (b64encode (utf8Bytes (payloadText kid nonce ciphertext))).toList := by
    rw [htext, ← String.length_toList, List.drop_left]
  have hraw : utf8Bytes (payloadText kid nonce ciphertext) ≠ [] := by
    intro hnil
    have hread := utf8Text_utf8Bytes (payloadText kid nonce ciphertext)
    rw [hnil] at hread
    cases Option.some.inj hread
  rw [envelopeJson, hstart, hrest, String.ofList_toList, b64decode_encode hraw, Option.bind_some, utf8Text_utf8Bytes]
  simp [h]

theorem parse_text {kid : String} {nonce ciphertext : Bytes}
    (h : lib.loads (payloadText kid nonce ciphertext) = .ok (Json.sorted (.obj (payload kid (b64encode nonce) (b64encode ciphertext)))))
    (hkid : isKid kid = true) (hnonce : nonce.length = 12) (hlong : 16 ≤ ciphertext.length) :
    parse lib (envelopeText kid nonce ciphertext) = .ok ⟨kid, nonce, ciphertext⟩ := by
  rw [parse, envelopeJson_text h, sorted_payload, ok_bind]
  exact parsePayload_ordered hkid hnonce hlong

theorem CredentialKeyring.get_active (ring : CredentialKeyring) : ring.keys.byKid.get ring.activeKid = some ring.activeKey :=
  (Option.some_get ring.active).symm

theorem CredentialKeyring.isKid_active (ring : CredentialKeyring) : isKid ring.activeKid = true :=
  (ring.keys.valid _ _ ring.get_active).1

/-- The ciphertext of a plaintext, sealed with the active key. -/
def sealed (lib : Libraries) (ring : CredentialKeyring) (nonce : Nonce) (plaintext : String) (bound : Bytes) : Bytes :=
  lib.encrypt ring.activeKey nonce.val (utf8Bytes plaintext.toList) bound

theorem encryptEnvelope_ok {ring : CredentialKeyring} {nonce : Nonce} {plaintext b f : String} {bound : Bytes}
    (hplain : plaintext ≠ "") (haad : aad b f = .ok bound) :
    encryptEnvelope lib env nonce plaintext b f (some ring) =
      .ok (envelopeText ring.activeKid nonce.val (sealed lib ring nonce plaintext bound)) := by
  rw [encryptEnvelope, if_neg hplain, haad]
  rfl

theorem decryptEnvelope_opened {envelope b f : String} {ring : CredentialKeyring} {parsed : Parsed} {key bound : Bytes}
    (hparse : parse lib envelope = .ok parsed) (hkey : ring.keys.byKid.get parsed.kid = some key) (haad : aad b f = .ok bound) :
    decryptEnvelope lib env envelope b f (some ring) =
      ((lib.decrypt key parsed.nonce parsed.ciphertext bound).bind utf8Text).elim (.error authFailed)
        (fun text => .ok (String.ofList text)) := by
  have hring : ringOr lib env (some ring) = .ok ring := rfl
  rw [decryptEnvelope, hparse, hring, ok_bind, ok_bind, hkey]
  dsimp only
  rw [haad, ok_bind]
  cases (lib.decrypt key parsed.nonce parsed.ciphertext bound).bind utf8Text <;> rfl

/-- Where the envelope is read, all that can be raised is a `CredentialEnvelopeError`. -/
theorem decryptEnvelope_refused {envelope b f : String} {ring : CredentialKeyring} {parsed : Parsed}
    (hparse : parse lib envelope = .ok parsed)
    (h : ∀ key bound, ring.keys.byKid.get parsed.kid = some key → aad b f = .ok bound →
      lib.decrypt key parsed.nonce parsed.ciphertext bound = none) :
    ∃ code message, decryptEnvelope lib env envelope b f (some ring) = .error (.envelope code message) := by
  have hring : ringOr lib env (some ring) = .ok ring := rfl
  cases hkey : ring.keys.byKid.get parsed.kid with
  | none =>
    refine ⟨"CREDENTIAL_KEY_UNKNOWN", "Credential key is unavailable.", ?_⟩
    rw [decryptEnvelope, hparse, hring, ok_bind, ok_bind, hkey]
  | some key =>
    cases haad : aad b f with
    | error e =>
      obtain ⟨code, message, rfl⟩ := aad_error haad
      refine ⟨code, message, ?_⟩
      rw [decryptEnvelope, hparse, hring, ok_bind, ok_bind, hkey]
      dsimp only
      rw [haad]
      rfl
    | ok bound =>
      refine ⟨"CREDENTIAL_AUTH_FAILED", "Credential authentication failed.", ?_⟩
      rw [decryptEnvelope_opened hparse hkey haad, h key bound hkey haad]
      rfl

/-! The library. -/

/-- AES-GCM opens what it sealed, and its ciphertexts hold a tag of sixteen bytes. -/
structure Lawful (lib : Libraries) : Prop where
  opens : ∀ key nonce data bound, lib.decrypt key nonce (lib.encrypt key nonce data bound) bound = some data
  long : ∀ key nonce data bound, 16 ≤ (lib.encrypt key nonce data bound).length

/-- An ideal cipher opens a ciphertext only for the key, the nonce and the associated data it was sealed with. -/
def Ideal (lib : Libraries) : Prop :=
  ∀ key nonce data bound key' nonce' bound' data', lib.decrypt key' nonce' (lib.encrypt key nonce data bound) bound' = some data' →
    key' = key ∧ nonce' = nonce ∧ bound' = bound

/-- `json.loads` reads back the payload that was written. -/
def ReadsBack (lib : Libraries) (kid : String) (nonce ciphertext : Bytes) : Prop :=
  lib.loads (payloadText kid nonce ciphertext) = .ok (Json.sorted (.obj (payload kid (b64encode nonce) (b64encode ciphertext))))

/-- Bytes that say where they end. -/
def frame (bytes : Bytes) : Bytes := bytes.flatMap (fun b => [1, b]) ++ [0]

theorem frame_inj {xs ys rest rest' : Bytes} (h : frame xs ++ rest = frame ys ++ rest') : xs = ys ∧ rest = rest' := by
  induction xs generalizing ys with
  | nil =>
    cases ys with
    | nil => exact ⟨rfl, (List.cons.inj h).2⟩
    | cons y ys => cases (List.cons.inj h).1
  | cons x xs ih =>
    cases ys with
    | nil => cases (List.cons.inj h).1
    | cons y ys =>
      obtain ⟨hxy, htail⟩ := List.cons.inj (List.cons.inj h).2
      obtain ⟨hxs, hrest⟩ := ih htail
      exact ⟨by rw [hxy, hxs], hrest⟩

/-- What stands before the data. -/
def sealHead (key nonce bound : Bytes) : Bytes := List.replicate 16 0 ++ (frame key ++ (frame nonce ++ frame bound))

def plainSeal (key nonce data bound : Bytes) : Bytes := sealHead key nonce bound ++ data

def plainOpen (key nonce data bound : Bytes) : Option Bytes :=
  if (sealHead key nonce bound).isPrefixOf data then some (data.drop (sealHead key nonce bound).length) else none

theorem plainOpen_seal (key nonce data bound : Bytes) : plainOpen key nonce (plainSeal key nonce data bound) bound = some data := by
  have hstart : (sealHead key nonce bound).isPrefixOf (plainSeal key nonce data bound) = true :=
    List.isPrefixOf_iff_prefix.mpr (List.prefix_append _ _)
  rw [plainOpen, if_pos hstart, plainSeal, List.drop_left]

theorem plainOpen_ideal {key nonce data bound key' nonce' bound' data' : Bytes}
    (h : plainOpen key' nonce' (plainSeal key nonce data bound) bound' = some data') :
    key' = key ∧ nonce' = nonce ∧ bound' = bound := by
  unfold plainOpen at h
  split at h
  · rename_i hstart
    obtain ⟨rest, hrest⟩ := List.isPrefixOf_iff_prefix.mp hstart
    rw [plainSeal, sealHead, sealHead, List.append_assoc, List.append_assoc, List.append_assoc, List.append_assoc,
      List.append_assoc, List.append_assoc] at hrest
    obtain ⟨hkey, hrest⟩ := frame_inj (List.append_cancel_left hrest)
    obtain ⟨hnonce, hrest⟩ := frame_inj hrest
    exact ⟨hkey, hnonce, (frame_inj hrest).1⟩
  · cases h

def zeroKey : Bytes := List.replicate 32 0

/-- A ring with one key. -/
def plainRing : CredentialKeyring where
  activeKid := "k"
  keys := Keys.none.set "k" zeroKey (by decide)
  active := by decide

def zeroNonce : Nonce := ⟨List.replicate 12 0, by decide⟩

def plainBound : Bytes := utf8Bytes "xgen|db_connections|v1|a|b|db_password".toList

/-- The password `p`, sealed for the row `a|b`. -/
def plainCiphertext : Bytes := plainSeal zeroKey zeroNonce.val (utf8Bytes "p".toList) plainBound

def plainLibraries : Libraries where
  loads text :=
    if text = payloadText "k" zeroNonce.val plainCiphertext then
      .ok (Json.sorted (.obj (payload "k" (b64encode zeroNonce.val) (b64encode plainCiphertext))))
    else .error .decode
  encrypt := plainSeal
  decrypt := plainOpen

theorem plainLibraries_lawful : Lawful plainLibraries := by
  constructor
  · exact plainOpen_seal
  · intro key nonce data bound
    change 16 ≤ (sealHead key nonce bound ++ data).length
    rw [sealHead, List.length_append, List.length_append, List.length_replicate]
    omega

theorem plainLibraries_reads :
    ReadsBack plainLibraries plainRing.activeKid zeroNonce.val (sealed plainLibraries plainRing zeroNonce "p" plainBound) := by
  have hsealed : sealed plainLibraries plainRing zeroNonce "p" plainBound = plainCiphertext := rfl
  have hkid : plainRing.activeKid = "k" := rfl
  rw [ReadsBack, hsealed, hkid]
  unfold plainLibraries
  dsimp only
  rw [if_pos rfl]

theorem aad_plain : aad " a|b " "db_password" = .ok plainBound := by decide

end XgenSdk.DbCredentials
