import XgenSdk.Auth.IssuedVerified
import XgenSdk.Lib.Checks

/-! Short-lived capabilities for documents: they bind the decision of a workflow
and the digests of a resource to some of the document operations. -/
namespace XgenSdk.DocumentCapability
open XgenSdk.Py XgenSdk.Checks
open XgenSdk.Principal (Bytes Fields Retiring hasKeys isText isName isBase64Url uniqueMembers jsonSegment)

/-- What `json.loads` raises beside a `JSONDecodeError`: for a number with too many digits, and for too deep nesting. -/
inductive LoadsError where
  | valueError
  | recursionError
  deriving DecidableEq, Repr

/-- `DocumentCapabilityValidationError`, its subclass `DocumentCapabilityConfigurationError`, the
error of `str.encode("ascii")`, and those of `json.loads` that nothing catches. -/
inductive CapabilityError where
  | validation (message : String)
  | configuration (message : String)
  | unicodeEncode
  | uncaught (error : LoadsError)
  deriving DecidableEq, Repr

abbrev Checked := Except CapabilityError

def invalid (message : String) : CapabilityError := .validation message
def invalidCapability : CapabilityError := invalid "invalid document capability"
def misconfigured (message : String) : CapabilityError := .configuration message

def documentCapabilityKeysEnv : String := "XGEN_DOCUMENT_CAPABILITY_KEYS"
def serviceSigningKeyEnv : String := "XGEN_SERVICE_SIGNING_KEY"
def serviceKeyIdEnv : String := "XGEN_SERVICE_KEY_ID"

def documentCapabilityIssuer : String := "xgen-documents"
def documentCapabilityAudience : String := "xgen-documents"
def documentCapabilityType : String := "document-capability"
def documentCapabilityOperations : List String := ["fetch", "metadata", "access", "download"]

def headerKeys : List String := ["alg", "typ", "kid"]

def inputClaimKeys : List String :=
  ["deployment_id", "workflow_id", "policy_digest", "resource_id", "resource_digest", "operations"]

def payloadKeys : List String := inputClaimKeys ++ ["iss", "aud", "type", "iat", "exp", "jti"]

def maxCapabilityBytes : Nat := 16384

/-- The environment variables of the signer and of the verifier. -/
structure Environment where
  capabilityKeys : Option String
  signingKey : Option String
  keyId : Option String

/-- What other libraries do: `json.loads` without the hook for duplicate members (`none` where it raises, also for a
number that is not finite), `hmac.new(key, text, sha256).digest()`, and what `json.loads` raises with its hooks where
that is neither a `JSONDecodeError` nor theirs. -/
structure Libraries where
  parseJson : List Char → Option Json
  hmac : Bytes → List Char → Bytes
  uncaught : List Char → Option LoadsError := fun _ => none

/-- `json.loads` with `_unique_object` and `_reject_constant`. -/
def loads (lib : Libraries) (text : List Char) : Option Json := (lib.parseJson text).filter uniqueMembers

/-- The bytes of a segment in the one spelling `_b64encode` gives them. -/
def decodeSegment (segment : List Char) (message : String) : Checked Bytes :=
  if !isBase64Url segment then .error invalidCapability
  else match b64urlDecode segment with
    | none => .error invalidCapability
    | some raw => if b64urlEncode raw ≠ segment then .error (invalid message) else .ok raw

/-- What comes of a text that is no object: `refusal`, unless `json.loads` raises what is not caught. -/
def loadsFailure (lib : Libraries) (refusal : CapabilityError) (text : List Char) : CapabilityError :=
  if lib.parseJson text = none then (lib.uncaught text).elim refusal .uncaught else refusal

/-- `_decode_json_segment`. -/
def decodeJsonSegment (lib : Libraries) (segment : List Char) : Checked Fields := do
  let raw ← decodeSegment segment "non-canonical JWT encoding"
  match (utf8Text raw).bind (loads lib) with
  | some (.obj fields) => .ok fields
  | _ => .error ((utf8Text raw).elim invalidCapability (loadsFailure lib invalidCapability))

/-- `_key_id`. -/
def keyId (value : Option Json) (source : String) (configuration : Bool) : Checked String :=
  let refusal := if configuration then misconfigured (source ++ " must be a valid key id") else invalid "invalid key id"
  match value with
  | some (.str kid) => if isName kid then .ok kid else .error refusal
  | _ => .error refusal

/-- `_key_bytes`. -/
def keyBytes (value : Option Json) (source : String) : Checked Bytes :=
  match value with
  | some (.str s) =>
    let bytes := utf8Bytes s.toList
    if bytes.length < 32 then .error (misconfigured (source ++ " must contain at least 32 bytes")) else .ok bytes
  | _ => .error (misconfigured (source ++ " must contain at least 32 bytes"))

/-- `_not_after`. -/
def notAfter (value : Json) (source : String) : Checked Int :=
  match value with
  | .int n => if n ≤ 0 then .error (misconfigured (source ++ " must be a positive integer Unix timestamp")) else .ok n
  | _ => .error (misconfigured (source ++ " must be a positive integer Unix timestamp"))

/-- The cutoff of a key; an active one has none. -/
def keyCutoff (config : Fields) (source : String) : Checked (Option Int) :=
  match Json.lookup "not_after" config with
  | some value => some <$> notAfter value source
  | none => .ok none

/-- One entry of a keyring. -/
def keyringEntry (source : String) (entry : String × Json) : Checked (String × Retiring Bytes) := do
  let kid ← keyId (some (.str entry.1)) source true
  match entry.2 with
  | .obj config =>
    refuse (!(hasKeys config ["key"] || hasKeys config ["key", "not_after"]))
      (misconfigured (source ++ " key entries require key and optional not_after"))
    let cutoff ← keyCutoff config (source ++ "." ++ kid ++ ".not_after")
    let key ← keyBytes (Json.lookup "key" config) (source ++ "." ++ kid ++ ".key")
    return (kid, key, cutoff)
  | _ => .error (misconfigured (source ++ " key entries require key and optional not_after"))

/-- Keys by key id, with the time from which on nothing they sign may live. -/
abbrev Keyring := List (String × Retiring Bytes)

/-- `_parse_keyring`. -/
def parseKeyring (value : Json) (source : String) : Checked Keyring :=
  match value with
  | .obj entries => do
    refuse entries.isEmpty (misconfigured (source ++ " must be a non-empty object"))
    let result ← entries.mapM (keyringEntry source)
    refuse ((result.filter fun k => k.2.2 = none).length ≠ 1) (misconfigured (source ++ " requires exactly one active key"))
    return result
  | _ => .error (misconfigured (source ++ " must be a non-empty object"))

/-- `_environment_keyring`. -/
def environmentKeyring (lib : Libraries) (env : Environment) : Checked Keyring :=
  match env.capabilityKeys with
  | none => do
    let kid ← keyId (env.keyId.map .str) serviceKeyIdEnv true
    let key ← keyBytes (env.signingKey.map .str) serviceSigningKeyEnv
    return [(kid, key, none)]
  | some raw => do
    refuse (raw = "") (misconfigured (documentCapabilityKeysEnv ++ " must be a non-empty JSON object"))
    match loads lib raw.toList with
    | some (.obj entries) => parseKeyring (.obj entries) documentCapabilityKeysEnv
    | _ => .error (loadsFailure lib (misconfigured ("invalid " ++ documentCapabilityKeysEnv)) raw.toList)

/-- The keyring that is given, or else that of the environment. -/
def selectedKeyring (lib : Libraries) (env : Environment) (trustedKeys : Option Json) : Checked Keyring :=
  match trustedKeys with
  | some keys => parseKeyring keys "trusted_keys"
  | none => environmentKeyring lib env

/-! The claims. -/

def isPlain (s : String) : Bool := s ≠ "" && s.toList.all fun c => 32 ≤ c.toNat

/-- `_DIGEST_RE`. -/
def isDigest (s : String) : Bool := s.toList.length = 64 && s.toList.all fun c => c.isDigit || ('a' ≤ c && c ≤ 'f')

def areOperations (operations : List String) : Bool :=
  operations ≠ [] && operations.Nodup && operations.all fun o => documentCapabilityOperations.contains o

abbrev PlainText := {s : String // isPlain s = true}
abbrev Digest := {s : String // isDigest s = true}
abbrev Operations := {operations : List String // areOperations operations = true}

/-- Claims in canonical form. -/
structure BusinessClaims where
  deploymentId : PlainText
  workflowId : PlainText
  policyDigest : Digest
  resourceId : PlainText
  resourceDigest : Digest
  operations : Operations
  deriving DecidableEq

def BusinessClaims.fields (c : BusinessClaims) : Fields :=
  [("deployment_id", .str c.deploymentId.1), ("workflow_id", .str c.workflowId.1), ("policy_digest", .str c.policyDigest.1),
    ("resource_id", .str c.resourceId.1), ("resource_digest", .str c.resourceDigest.1),
    ("operations", .arr (c.operations.1.map .str))]

/-- `_nonempty_string`. -/
def nonemptyString (value : Option Json) (claim : String) : Checked PlainText :=
  let refusal := invalid (claim ++ " must be a non-empty string without control characters")
  match value with
  | some (.str s) => if h : isPlain s = true then .ok ⟨s, h⟩ else .error refusal
  | _ => .error refusal

def plainDeploymentId (s : String) : Checked PlainText :=
  if h : isPlain s = true then .ok ⟨s, h⟩
  else .error (invalid "deployment_id must be non-empty without control characters")

def checkedDeploymentId (value : Option Json) : Checked PlainText :=
  match value with
  | some (.str s) => plainDeploymentId s
  | some (.int n) => plainDeploymentId (toString n)
  | _ => .error (invalid "deployment_id must be a string or integer")

def checkedDigest (value : Option Json) (claim : String) : Checked Digest :=
  let refusal := invalid (claim ++ " must be a lowercase SHA-256 hex digest")
  match value with
  | some (.str s) => if h : isDigest s = true then .ok ⟨s, h⟩ else .error refusal
  | _ => .error refusal

def textItems (items : List Json) : Option (List String) :=
  items.mapM fun item => match item with
    | .str s => some s
    | _ => none

def checkedOperations (value : Option Json) : Checked Operations :=
  let refusal := invalid "operations must be a unique non-empty list of supported finite operations"
  match value with
  | some (.arr items) =>
    match textItems items with
    | some operations => if h : areOperations operations = true then .ok ⟨operations, h⟩ else .error refusal
    | none => .error refusal
  | _ => .error refusal

/-- `_canonical_business_claims`. -/
def canonicalBusinessClaims (claims : Json) : Checked BusinessClaims :=
  match claims with
  | .obj fields => do
    refuse (!hasKeys fields inputClaimKeys) (invalid "unsupported document capability claim schema")
    let deploymentId ← checkedDeploymentId (Json.lookup "deployment_id" fields)
    let policyDigest ← checkedDigest (Json.lookup "policy_digest" fields) "policy_digest"
    let resourceDigest ← checkedDigest (Json.lookup "resource_digest" fields) "resource_digest"
    let operations ← checkedOperations (Json.lookup "operations" fields)
    let workflowId ← nonemptyString (Json.lookup "workflow_id" fields) "workflow_id"
    let resourceId ← nonemptyString (Json.lookup "resource_id" fields) "resource_id"
    return ⟨deploymentId, workflowId, policyDigest, resourceId, resourceDigest, operations⟩
  | _ => .error (invalid "unsupported document capability claim schema")

/-! Signing. -/

/-- What a caller gives besides the claims. -/
structure SigningRequest where
  signingKey : Option String
  keyId : Option String
  ttlSeconds : Json
  now : Option Json

/-- What is signed, and with which key. -/
structure Capability where
  claims : BusinessClaims
  key : Bytes
  keyId : String
  iat : Int
  exp : Int
  jti : String

def checkedTtl (ttlSeconds : Json) : Checked Int :=
  match ttlSeconds with
  | .int ttl =>
    if 1 ≤ ttl ∧ ttl ≤ 60 then .ok ttl else .error (invalid "ttl_seconds must be between 1 and 60")
  | _ => .error (invalid "ttl_seconds must be between 1 and 60")

def checkedNow (now : Json) : Checked Int :=
  match now with
  | .int n => .ok n
  | _ => .error (invalid "now must be an integer Unix timestamp")

/-- The checks of `sign_document_capability`; `random` is what `secrets.token_bytes(24)` draws. -/
def checkedCapability (env : Environment) (clock : Int) (random : Bytes) (claims : Json) (r : SigningRequest) :
    Checked Capability := do
  let canonical ← canonicalBusinessClaims claims
  let key ← keyBytes ((r.signingKey.or env.signingKey).map .str) serviceSigningKeyEnv
  let kid ← keyId ((r.keyId.or env.keyId).map .str) serviceKeyIdEnv true
  let ttl ← checkedTtl r.ttlSeconds
  let issuedAt ← checkedNow (r.now.getD (.int clock))
  return ⟨canonical, key, kid, issuedAt, issuedAt + ttl, String.ofList (b64urlEncode random)⟩

def Capability.header (c : Capability) : Fields := [("alg", .str "HS256"), ("typ", .str "JWT"), ("kid", .str c.keyId)]

def Capability.payload (c : Capability) : Fields :=
  [("iss", .str documentCapabilityIssuer), ("aud", .str documentCapabilityAudience), ("type", .str documentCapabilityType),
    ("iat", .int c.iat), ("exp", .int c.exp), ("jti", .str c.jti)] ++ c.claims.fields

def Capability.signingInput (c : Capability) : List Char := jsonSegment c.header ++ '.' :: jsonSegment c.payload

def Capability.token (c : Capability) (hmac : Bytes → List Char → Bytes) : String :=
  String.ofList (c.signingInput ++ '.' :: b64urlEncode (hmac c.key c.signingInput))

/-- `sign_document_capability`. -/
def signDocumentCapability (lib : Libraries) (env : Environment) (clock : Int) (random : Bytes) (claims : Json)
    (r : SigningRequest) : Checked String :=
  (checkedCapability env clock random claims r).map fun c => c.token lib.hmac

/-! Verifying. -/

def isAscii (c : Char) : Bool := c.toNat < 0x80

/-- `isinstance(value, int)` without the Booleans. -/
def timestamp (value : Option Json) : Checked Int :=
  match value with
  | some (.int n) => .ok n
  | _ => .error (invalid "invalid document capability timestamps")

/-- The key that the protected header names. -/
def selectKey (keyring : Keyring) (kid : String) : Checked (Retiring Bytes) :=
  match keyring.lookup kid with
  | none => .error (invalid "unknown document capability key id")
  | some selected => .ok selected

/-- The checks of the payload. -/
def checkPayload (clock : Int) (now : Option Json) (cutoff : Option Int) (payload : Fields) : Checked Unit := do
  refuse (!hasKeys payload payloadKeys) (invalid "unsupported document capability payload schema")
  refuse (!(isText (Json.lookup "iss" payload) documentCapabilityIssuer &&
      isText (Json.lookup "aud" payload) documentCapabilityAudience &&
      isText (Json.lookup "type" payload) documentCapabilityType))
    (invalid "invalid document capability issuer, audience, or type")
  let iat ← timestamp (Json.lookup "iat" payload)
  let exp ← timestamp (Json.lookup "exp" payload)
  let current ← checkedNow (now.getD (.int clock))
  refuse (iat > current ∨ exp ≤ current ∨ exp ≤ iat ∨ exp > iat + 60)
    (invalid "expired or invalid document capability lifetime")
  refuse (cutoff.any fun c => exp > c) (invalid "document capability expires after the signing key retirement cutoff")
  let _ ← nonemptyString (Json.lookup "jti" payload) "jti"

/-- `{claim: payload[claim] for claim in _INPUT_CLAIM_KEYS}`. -/
def inputClaims (payload : Fields) : Fields :=
  inputClaimKeys.filterMap fun claim => (Json.lookup claim payload).map fun value => (claim, value)

def areTexts (value : Option Json) (texts : List String) : Bool :=
  match value with
  | some (.arr items) => textItems items = some texts
  | _ => false

/-- `payload[claim] == canonical[claim]` for every claim. -/
def sameClaims (payload : Fields) (canonical : BusinessClaims) : Bool :=
  isText (Json.lookup "deployment_id" payload) canonical.deploymentId.1 &&
    isText (Json.lookup "workflow_id" payload) canonical.workflowId.1 &&
    isText (Json.lookup "policy_digest" payload) canonical.policyDigest.1 &&
    isText (Json.lookup "resource_id" payload) canonical.resourceId.1 &&
    isText (Json.lookup "resource_digest" payload) canonical.resourceDigest.1 &&
    areTexts (Json.lookup "operations" payload) canonical.operations.1

/-- `verify_document_capability`. -/
def verifyDocumentCapability (lib : Libraries) (env : Environment) (clock : Int) (token : String)
    (trustedKeys : Option Json) (now : Option Json) : Checked Fields := do
  refuse ((token.toList.filter isAscii).length > maxCapabilityBytes) invalidCapability
  match token.toList.splitOn '.' with
  | [protectedSegment, payloadSegment, signatureSegment] =>
    refuse (protectedSegment = [] ∨ payloadSegment = [] ∨ signatureSegment = []) invalidCapability
    let header ← decodeJsonSegment lib protectedSegment
    refuse (!(hasKeys header headerKeys && isText (Json.lookup "alg" header) "HS256" &&
      isText (Json.lookup "typ" header) "JWT")) (invalid "document capabilities require HS256 and a key id")
    let kid ← keyId (Json.lookup "kid" header) "JWT kid" false
    let keyring ← selectedKeyring lib env trustedKeys
    let selected ← selectKey keyring kid
    let signature ← decodeSegment signatureSegment "non-canonical JWT signature"
    refuse (!payloadSegment.all isAscii) .unicodeEncode
    refuse (signature ≠ lib.hmac selected.1 (protectedSegment ++ '.' :: payloadSegment))
      (invalid "invalid document capability signature")
    let payload ← decodeJsonSegment lib payloadSegment
    checkPayload clock now selected.2 payload
    let canonical ← canonicalBusinessClaims (.obj (inputClaims payload))
    refuse (!sameClaims payload canonical) (invalid "non-canonical document capability claims")
    return payload
  | _ => .error invalidCapability

end XgenSdk.DocumentCapability
