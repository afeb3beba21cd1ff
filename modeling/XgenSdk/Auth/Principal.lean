import XgenSdk.Py.Json
import XgenSdk.Py.Codecs

/-! Verifying the identity headers of a request: they count only where a signed
assertion, made for this service by a configured issuer, binds their values. -/
namespace XgenSdk.Principal
open XgenSdk.Py

abbrev Bytes := List UInt8
abbrev Fields := List (String × Json)

/-- `PrincipalValidationError` and its subclass `PrincipalConfigurationError`. -/
inductive PrincipalError where
  | validation (message : String)
  | configuration (message : String)
  deriving DecidableEq, Repr

def invalid (message : String) : PrincipalError := .validation message
def invalidAssertion : PrincipalError := invalid "invalid principal assertion"
def misconfigured (message : String) : PrincipalError := .configuration message

abbrev Checked := Except PrincipalError

/-- `if wrong: raise error`. -/
def refuse (wrong : Bool) (error : PrincipalError) : Checked Unit := if wrong then .error error else .ok ()

def gatewayPublicKeyEnv : String := "XGEN_GATEWAY_PUBLIC_KEY_PEM"
def gatewayPublicKeysEnv : String := "XGEN_GATEWAY_PUBLIC_KEYS"
def gatewayKeyIdEnv : String := "XGEN_GATEWAY_KEY_ID"
def serviceNameEnv : String := "XGEN_SERVICE_NAME"
def trustedServicesEnv : String := "XGEN_TRUSTED_SERVICES"

/-- The environment variables of the trust configuration. -/
structure Environment where
  gatewayPublicKey : Option String
  gatewayPublicKeys : Option String
  gatewayKeyId : Option String
  serviceName : Option String
  trustedServices : Option String

/-- What other libraries do: `json.loads` without the hook for duplicate members (`none` where it
raises, also for a number that is not finite), RSA keys with their signatures, and whether a tag is
the HMAC-SHA256 of a text. -/
structure Libraries (κ : Type) where
  parseJson : List Char → Option Json
  importKey : String → Option κ
  hasPrivate : κ → Bool
  sizeInBits : κ → Nat
  rsaVerifies : κ → List Char → Bytes → Bool
  hmacVerifies : Bytes → List Char → Bytes → Bool

variable {κ : Type}

def proofHeader : String := "x-xgen-principal"

def identityHeaders : List String :=
  ["x-user-id", "x-user-name", "x-user-superuser", "x-user-roles", "x-user-permissions", "x-user-supervision-full"]

def claimKeys : List String := ["iss", "aud", "type", "iat", "exp", "headers"]

def maxAssertionBytes : Nat := 16384

/-- `set(d) == names`. -/
def hasKeys (fields : Fields) (names : List String) : Bool :=
  fields.all (fun f => names.contains f.1) && names.all fun n => fields.any fun f => f.1 = n

def isText (value : Option Json) (text : String) : Bool :=
  match value with
  | some (.str s) => s = text
  | _ => false

def isNameChar (c : Char) : Bool := c.isAlphanum || c = '.' || c = '_' || c = '-'

/-- `_SERVICE_NAME_RE` and `_KEY_ID_RE`. -/
def isName (s : String) : Bool :=
  match s.toList with
  | [] => false
  | c :: cs => c.isAlphanum && cs.all isNameChar && cs.length ≤ 127

/-- `_B64_RE`. -/
def isBase64Url (s : List Char) : Bool := s ≠ [] && s.all fun c => c.isAlphanum || c = '_' || c = '-'

theorem isBase64Url_encode {raw : Bytes} (h : raw ≠ []) : isBase64Url (b64urlEncode raw) = true := by
  have hdigits : ∀ n < 64, (base64UrlDigit n).isAlphanum || base64UrlDigit n = '_' || base64UrlDigit n = '-' := by
    decide
  rw [isBase64Url, Bool.and_eq_true, List.all_eq_true]
  refine ⟨decide_eq_true fun hnil => h ?_, fun c hc => ?_⟩
  · have hdecode := b64urlDecode_encode raw
    rw [hnil] at hdecode
    exact (Option.some.inj hdecode).symm
  · obtain ⟨n, hn, rfl⟩ := mem_b64urlEncode hc
    exact hdigits n hn

mutual

/-- No object has a member twice. -/
def uniqueMembers : Json → Bool
  | .arr xs => uniqueItems xs
  | .obj fields => uniqueFields fields
  | _ => true

def uniqueItems : List Json → Bool
  | [] => true
  | x :: xs => uniqueMembers x && uniqueItems xs

def uniqueFields : Fields → Bool
  | [] => true
  | f :: fs => uniqueMembers f.2 && !(fs.any fun g => g.1 = f.1) && uniqueFields fs

end

/-- `json.loads` with `_unique_object` and `_reject_constant`. -/
def loads (lib : Libraries κ) (text : List Char) : Option Json := (lib.parseJson text).filter uniqueMembers

/-- The bytes of a segment in the one spelling `_b64encode` gives them. -/
def decodeSegment (segment : List Char) (message : String) : Checked Bytes :=
  if !isBase64Url segment then .error invalidAssertion
  else match b64urlDecode segment with
    | none => .error invalidAssertion
    | some raw => if b64urlEncode raw ≠ segment then .error (invalid message) else .ok raw

/-- `_decode_json_segment`. -/
def decodeJsonSegment (lib : Libraries κ) (segment : List Char) : Checked Fields := do
  let raw ← decodeSegment segment "non-canonical JWT encoding"
  match (utf8Text raw).bind (loads lib) with
  | some (.obj fields) => .ok fields
  | _ => .error invalidAssertion

def keyBytes (value : Option Json) (envName : String) : Checked Bytes :=
  match value with
  | some (.str s) =>
    let bytes := utf8Bytes s.toList
    if bytes.length < 32 then .error (misconfigured (envName ++ " must contain at least 32 bytes")) else .ok bytes
  | _ => .error (misconfigured (envName ++ " must contain at least 32 bytes"))

/-- `_gateway_public_key`. -/
def gatewayPublicKey (lib : Libraries κ) (value : Option Json) (source : String) : Checked κ :=
  match value with
  | some (.str pem) =>
    if pem = "" then .error (misconfigured (source ++ " is not configured"))
    else match lib.importKey pem with
      | none => .error (misconfigured (source ++ " is not a valid RSA public key"))
      | some key =>
        if lib.hasPrivate key then .error (misconfigured (source ++ " must contain a public key only"))
        else if lib.sizeInBits key < 2048 then .error (misconfigured (source ++ " must be at least 2048 bits"))
        else .ok key
  | _ => .error (misconfigured (source ++ " is not configured"))

/-- `_key_id`. -/
def keyId (value : Option Json) (source : String) (configuration : Bool) : Checked String :=
  let refusal := if configuration then misconfigured (source ++ " must be a valid key id") else invalid "invalid key id"
  match value with
  | some (.str kid) => if isName kid then .ok kid else .error refusal
  | _ => .error refusal

/-- `_not_after`. -/
def notAfter (value : Option Json) (source : String) : Checked Int :=
  match value with
  | some (.int n) =>
    if n ≤ 0 then .error (misconfigured (source ++ " must be a positive integer Unix timestamp")) else .ok n
  | _ => .error (misconfigured (source ++ " must be a positive integer Unix timestamp"))

/-- `_json_config`. -/
def jsonConfig (lib : Libraries κ) (raw : Option String) (envName : String) : Checked Fields :=
  match raw with
  | none => .error (misconfigured (envName ++ " is not configured"))
  | some text =>
    if text = "" then .error (misconfigured (envName ++ " is not configured"))
    else match loads lib text.toList with
      | some (.obj fields) =>
        if fields.isEmpty then .error (misconfigured ("invalid " ++ envName)) else .ok fields
      | _ => .error (misconfigured ("invalid " ++ envName))

/-- A key with the time from which on nothing it signs may live. -/
abbrev Retiring (α : Type) := α × Option Int

/-- The cutoff of a key of the gateway; the active one has none. -/
def gatewayCutoff (active : Bool) (config : Fields) (source : String) : Checked (Option Int) :=
  if active then .ok none else some <$> notAfter (Json.lookup "not_after" config) source

/-- One entry of the gateway keyring. -/
def gatewayRingEntry (lib : Libraries κ) (activeKid : String) (entry : String × Json) :
    Checked (String × Retiring κ) := do
  let kid ← keyId (some (.str entry.1)) gatewayPublicKeysEnv true
  let expected := if kid = activeKid then ["key"] else ["key", "not_after"]
  match entry.2 with
  | .obj config =>
    if !hasKeys config expected then
      if kid = activeKid then .error (misconfigured "the active gateway key requires only key")
      else .error (misconfigured "retiring gateway keys require only key and not_after")
    else
      let source := gatewayPublicKeysEnv ++ "." ++ kid
      let cutoff ← gatewayCutoff (kid = activeKid) config (source ++ ".not_after")
      let key ← gatewayPublicKey lib (Json.lookup "key" config) (source ++ ".key")
      return (kid, key, cutoff)
  | _ =>
    if kid = activeKid then .error (misconfigured "the active gateway key requires only key")
    else .error (misconfigured "retiring gateway keys require only key and not_after")

/-- A protected header with a key id. -/
def namesKey (header : Fields) (alg : String) : Bool :=
  hasKeys header ["alg", "typ", "kid"] && isText (Json.lookup "alg" header) alg &&
    isText (Json.lookup "typ" header) "JWT"

/-- A protected header without a key id. -/
def isPlain (header : Fields) (alg : String) : Bool :=
  hasKeys header ["alg", "typ"] && isText (Json.lookup "alg" header) alg &&
    isText (Json.lookup "typ" header) "JWT"

/-- `_gateway_verification_key`. -/
def gatewayVerificationKey (lib : Libraries κ) (env : Environment) (header : Fields) : Checked (Retiring κ) :=
  match env.gatewayPublicKeys with
  | none => do
    refuse (!isPlain header "RS256")
      (invalid "gateway principals require RS256 without a kid in legacy mode")
    let key ← gatewayPublicKey lib (env.gatewayPublicKey.map .str) gatewayPublicKeyEnv
    return (key, none)
  | some rawRing => do
    let ring ← jsonConfig lib (some rawRing) gatewayPublicKeysEnv
    let activeKid ← keyId (env.gatewayKeyId.map .str) gatewayKeyIdEnv true
    refuse (!(ring.any fun f => f.1 = activeKid))
      (misconfigured (gatewayKeyIdEnv ++ " is not present in " ++ gatewayPublicKeysEnv))
    let parsed ← ring.mapM (gatewayRingEntry lib activeKid)
    refuse (!namesKey header "RS256") (invalid "gateway principals require RS256 and a key id")
    let incomingKid ← keyId (Json.lookup "kid" header) "JWT kid" false
    match parsed.lookup incomingKid with
    | none => .error (invalid "unknown gateway key id")
    | some selected => .ok selected

/-- `_service_name`. -/
def serviceName (value : Option String) (source : String) : Checked String :=
  match value with
  | some name =>
    if !isName name || name = "xgen-gateway" then
      .error (misconfigured (source ++ " must be a valid non-gateway service name"))
    else .ok name
  | none => .error (misconfigured (source ++ " must be a valid non-gateway service name"))

/-- `_safe_header_value`. -/
def safeHeaderValue (value : Json) : Checked String :=
  match value with
  | .str s =>
    if s.toList.any fun c => c.toNat < 32 || c.toNat = 127 then
      .error (invalid "principal header contains a control character")
    else .ok s
  | _ => .error (invalid "principal header values must be strings")

def isAlias (name : List Char) : Bool := "x-user_".toList.isPrefixOf name || name = "x-userid".toList

/-- The loop of `_canonical_identity_headers`. No character but an ASCII letter lowers into a letter of these names. -/
def canonicalLoop (canonical : List (String × String)) : Fields → Checked (List (String × String))
  | [] => .ok canonical
  | (rawName, rawValue) :: headers => do
    let name := lower rawName.toList
    refuse (isAlias name) (invalid "ambiguous identity header alias")
    let name := String.ofList name
    refuse (!identityHeaders.contains name) (invalid ("unsupported principal header: " ++ rawName))
    refuse (canonical.any fun f => f.1 = name) (invalid "duplicate identity header")
    let value ← safeHeaderValue rawValue
    canonicalLoop (canonical ++ [(name, value)]) headers

/-- `dict.setdefault`. -/
def setDefault (canonical : List (String × String)) (entry : String × String) : List (String × String) :=
  if canonical.any fun f => f.1 = entry.1 then canonical else canonical ++ [entry]

def headerDefaults : List (String × String) :=
  [("x-user-superuser", "false"), ("x-user-roles", ""), ("x-user-permissions", ""), ("x-user-supervision-full", "")]

def valueOf (headers : List (String × String)) (name : String) : String := (headers.lookup name).getD ""

/-- `_canonical_identity_headers`. -/
def canonicalIdentityHeaders (headers : Fields) (defaults : Bool) : Checked (List (String × String)) := do
  let canonical ← canonicalLoop [] headers
  let canonical := if defaults then headerDefaults.foldl setDefault canonical else canonical
  refuse (!(identityHeaders.all fun n => canonical.any fun f => f.1 = n))
    (invalid "all canonical identity headers are required")
  refuse (valueOf canonical "x-user-id" = "" ∨ valueOf canonical "x-user-name" = "")
    (invalid "user id and name are required")
  let superuser := lower (valueOf canonical "x-user-superuser").toList
  refuse (superuser ≠ "true".toList ∧ superuser ≠ "false".toList) (invalid "invalid superuser value")
  return identityHeaders.map fun n => (n, valueOf canonical n)

/-- The items of a list of permissions, as `_split_permissions` takes them. -/
def splitPermissions (value : String) : List (List Char) :=
  ((value.toList.splitOn ',').map stripChars |>.filter (· ≠ [])).map unquote

/-- `_parse_comma_list`, with which the gateway dependency reads the header. -/
def parseCommaList (value : String) : List (List Char) :=
  if value = "" || stripChars value.toList = [] then []
  else ((value.toList.splitOn ',').filter fun item => stripChars item ≠ []).map fun item => unquote (stripChars item)

/-- A trusted service: its keys by key id, `none` for the single key, and what it may grant. -/
structure TrustedService where
  keys : List (Option String × Retiring Bytes)
  permissions : List String

def permissionText : Json → Option String
  | .str s => if s = "" || (unquote s.toList).contains '*' then none else some s
  | _ => none

/-- The permissions of a trusted service: finite, no wildcard, none twice. -/
def trustedPermissions (value : Option Json) : Checked (List String) :=
  let refusal := misconfigured "trusted service permissions must be unique finite strings"
  match value with
  | some (.arr items) =>
    match items.mapM permissionText with
    | some permissions => if permissions.Nodup then .ok permissions else .error refusal
    | none => .error refusal
  | _ => .error refusal

/-- The cutoff of a key of a service; an active one has none. -/
def serviceCutoff (config : Fields) (source : String) : Checked (Option Int) :=
  match Json.lookup "not_after" config with
  | some value => some <$> notAfter (some value) source
  | none => .ok none

/-- One entry of the keyring of a service. -/
def serviceRingEntry (service : String) (entry : String × Json) : Checked (Option String × Retiring Bytes) := do
  let source := trustedServicesEnv ++ "." ++ service ++ ".keys"
  let kid ← keyId (some (.str entry.1)) source true
  match entry.2 with
  | .obj config =>
    if !(hasKeys config ["key"] || hasKeys config ["key", "not_after"]) then
      .error (misconfigured "trusted service key entries require key and optional not_after")
    else
      let cutoff ← serviceCutoff config (source ++ "." ++ kid ++ ".not_after")
      let key ← keyBytes (Json.lookup "key" config) (source ++ "." ++ kid ++ ".key")
      return (some kid, key, cutoff)
  | _ => .error (misconfigured "trusted service key entries require key and optional not_after")

def trustedService (entry : String × Json) : Checked (String × TrustedService) := do
  let service := entry.1
  refuse (!isName service) (misconfigured "invalid trusted service name")
  match entry.2 with
  | .obj config =>
    if !(hasKeys config ["key", "permissions"] || hasKeys config ["keys", "permissions"]) then
      .error (misconfigured "trusted service entries require permissions and exactly one of key or keys")
    else
      let permissions ← trustedPermissions (Json.lookup "permissions" config)
      match Json.lookup "key" config with
      | some value =>
        let key ← keyBytes (some value) (trustedServicesEnv ++ "." ++ service ++ ".key")
        return (service, ⟨[(none, key, none)], permissions⟩)
      | none =>
        match Json.lookup "keys" config with
        | some (.obj rawKeys) =>
          refuse rawKeys.isEmpty (misconfigured "trusted service keys must be a non-empty object")
          let keys ← rawKeys.mapM (serviceRingEntry service)
          refuse ((keys.filter fun k => k.2.2 = none).length ≠ 1)
            (misconfigured "trusted service keyrings require exactly one active key")
          return (service, ⟨keys, permissions⟩)
        | _ => .error (misconfigured "trusted service keys must be a non-empty object")
  | _ => .error (misconfigured "trusted service entries require permissions and exactly one of key or keys")

/-- `_trusted_services`. -/
def trustedServices (lib : Libraries κ) (raw : Option String) : Checked (List (String × TrustedService)) := do
  let parsed ← jsonConfig lib raw trustedServicesEnv
  parsed.mapM trustedService

/-- The key of a service assertion with this protected header. -/
def serviceVerificationKey (service : TrustedService) (header : Fields) : Checked (Retiring Bytes) :=
  match service.keys.lookup none with
  | some selected =>
    if !isPlain header "HS256" then
      .error (invalid "legacy service principals require HS256 without a key id")
    else .ok selected
  | none => do
    refuse (!namesKey header "HS256") (invalid "service principals require HS256 and a key id")
    let incomingKid ← keyId (Json.lookup "kid" header) "JWT kid" false
    match service.keys.lookup (some incomingKid) with
    | none => .error (invalid "unknown service key id")
    | some selected => .ok selected

/-- An entry of the headers of an ASGI scope: a pair of byte strings, or anything else. -/
inductive HeaderEntry where
  | pair (name value : Bytes)
  | other
  deriving DecidableEq, Repr

/-- The headers met so far. -/
structure RawHeaders where
  identity : List (String × String)
  proof : Option String
  relevant : Bool
  deriving DecidableEq, Repr

def rawLoop (found : RawHeaders) : List HeaderEntry → Checked RawHeaders
  | [] => .ok found
  | .other :: _ => .error (invalid "invalid ASGI header entry")
  | .pair rawName rawValue :: headers =>
    match asciiText rawName with
    | none => .error (invalid "invalid HTTP header name")
    | some text => do
      let name := lower text
      refuse (isAlias name) (invalid "ambiguous identity header alias")
      let name := String.ofList name
      if identityHeaders.contains name then
        refuse (found.identity.any fun f => f.1 = name) (invalid "duplicate identity header")
        let value ← safeHeaderValue (.str (String.ofList (latin1Text rawValue)))
        rawLoop { found with identity := found.identity ++ [(name, value)], relevant := true } headers
      else if name = proofHeader then
        refuse (found.proof.isSome) (invalid "duplicate principal proof header")
        match asciiText rawValue with
        | none => .error (invalid "principal proof must be ASCII")
        | some proof => rawLoop { found with proof := some (String.ofList proof), relevant := true } headers
      else rawLoop found headers

/-- `_raw_principal_headers`; `none` for `(None, None)`. -/
def rawPrincipalHeaders (headers : List HeaderEntry) : Checked (Option (List (String × String) × Option String)) := do
  let found ← rawLoop ⟨[], none, false⟩ headers
  return if found.relevant then some (found.identity, found.proof) else none

/-- The key of an assertion: of the gateway, or shared with a service. -/
inductive SigningKey (κ : Type) where
  | gateway (key : κ)
  | service (key : Bytes)
  deriving DecidableEq

def verifies (lib : Libraries κ) : SigningKey κ → List Char → Bytes → Bool
  | .gateway key, text, signature => lib.rsaVerifies key text signature
  | .service key, text, signature => lib.hmacVerifies key text signature

/-- The issuer of an assertion, as far as its type, its claimed issuer and its header say. -/
structure Issuer (κ : Type) where
  key : SigningKey κ
  cutoff : Option Int
  permissions : Option (List String)
  deriving DecidableEq

def selectIssuer (lib : Libraries κ) (env : Environment) (header payload : Fields) : Checked (Issuer κ) :=
  match Json.lookup "type" payload, Json.lookup "iss" payload with
  | some (.str type), some (.str issuer) =>
    if type = "principal" ∧ issuer = "xgen-gateway" then do
      let selected ← gatewayVerificationKey lib env header
      return ⟨.gateway selected.1, selected.2, none⟩
    else if type = "service" then do
      let trusted ← trustedServices lib env.trustedServices
      match trusted.lookup issuer with
      | none => .error (invalid "untrusted service issuer")
      | some service =>
        let selected ← serviceVerificationKey service header
        return ⟨.service selected.1, selected.2, some service.permissions⟩
    else .error (invalid "invalid principal issuer or type")
  | _, _ => .error (invalid "invalid principal issuer or type")

/-- The checks of the lifetime. -/
def checkLifetime (payload : Fields) (cutoff : Option Int) (now : Int) : Checked Unit :=
  match Json.lookup "iat" payload, Json.lookup "exp" payload with
  | some (.int iat), some (.int exp) =>
    if iat > now ∨ exp ≤ now ∨ exp ≤ iat ∨ exp > iat + 60 then
      .error (invalid "expired or invalid principal lifetime")
    else if cutoff.any fun c => exp > c then
      .error (invalid "principal expires after the signing key retirement cutoff")
    else .ok ()
  | _, _ => .error (invalid "invalid principal timestamps")

/-- What a service may not say about the user. -/
def checkService (permissions : List String) (claims : List (String × String)) : Checked Unit := do
  refuse (lower (valueOf claims "x-user-superuser").toList ≠ "false".toList)
    (invalid "service assertions cannot grant superuser")
  let declared := splitPermissions (valueOf claims "x-user-permissions")
  refuse (declared.any (fun p => p.contains '*') || !(declared.all fun p => permissions.contains (String.ofList p)))
    (invalid "service assertion permissions exceed configured grants")

/-- Only services are held to their permissions. -/
def checkGrants (permissions : Option (List String)) (claims : List (String × String)) : Checked Unit :=
  match permissions with
  | some permissions => checkService permissions claims
  | none => .ok ()

/-- `_verify_assertion`; `now` is the given time or the clock's. -/
def verifyAssertion (lib : Libraries κ) (env : Environment) (proof : String) (actual : List (String × String))
    (now : Int) : Checked Fields := do
  refuse (proof.toList.length > maxAssertionBytes) invalidAssertion
  match proof.toList.splitOn '.' with
  | [headSegment, payloadSegment, signatureSegment] =>
    refuse (headSegment = [] ∨ payloadSegment = [] ∨ signatureSegment = []) invalidAssertion
    let header ← decodeJsonSegment lib headSegment
    let payload ← decodeJsonSegment lib payloadSegment
    refuse (!hasKeys payload claimKeys) (invalid "unsupported JWT schema")
    let issuer ← selectIssuer lib env header payload
    let signature ← decodeSegment signatureSegment "non-canonical JWT signature"
    refuse (!verifies lib issuer.key (headSegment ++ '.' :: payloadSegment) signature)
      (invalid "invalid principal signature")
    let audience ← serviceName env.serviceName serviceNameEnv
    refuse (!isText (Json.lookup "aud" payload) audience) (invalid "invalid principal audience")
    checkLifetime payload issuer.cutoff now
    match Json.lookup "headers" payload with
    | some (.obj claimed) =>
      let canonicalClaims ← canonicalIdentityHeaders claimed false
      let canonicalActual ← canonicalIdentityHeaders (actual.map fun f => (f.1, .str f.2)) false
      refuse (canonicalClaims ≠ canonicalActual) (invalid "principal header binding mismatch")
      checkGrants issuer.permissions canonicalClaims
      return payload
    | _ => .error (invalid "invalid bound headers")
  | _ => .error invalidAssertion

/-- `verified_identity_headers`. -/
def verifiedIdentityHeaders (lib : Libraries κ) (env : Environment) (headers : List HeaderEntry) (now : Int) :
    Checked (Option (List (String × String))) := do
  match ← rawPrincipalHeaders headers with
  | none => return none
  | some (_, none) => .error (invalid "identity headers require a principal proof")
  | some (identity, some proof) =>
    let _ ← verifyAssertion lib env proof identity now
    let canonical ← canonicalIdentityHeaders (identity.map fun f => (f.1, .str f.2)) false
    return some canonical

end XgenSdk.Principal
