import XgenSdk.Py.Json

/-! Which policy kinds are in use at a place: the switches, as the settings
store and the environment spell them, read without turning a failure into an
answer. -/
namespace XgenSdk.Settings
open XgenSdk.Py

/-! What goes wrong. -/

inductive ErrorCode where
  | configUnavailable
  | configInvalid
  | scopeInvalid
  | storeUnavailable
  | exceptionsUnavailable
  | exceptionsInvalid
  | dataInvalid
  deriving DecidableEq, Repr

def ErrorCode.text : ErrorCode → String
  | .configUnavailable => "policy_config_unavailable"
  | .configInvalid => "policy_config_invalid"
  | .scopeInvalid => "policy_scope_invalid"
  | .storeUnavailable => "policy_store_unavailable"
  | .exceptionsUnavailable => "policy_exceptions_unavailable"
  | .exceptionsInvalid => "policy_exceptions_invalid"
  | .dataInvalid => "policy_data_invalid"

/-- `_SAFE_CODE`. -/
def isSafeCode (code : List Char) : Bool :=
  match code with
  | [] => false
  | c :: cs => c.isLower && cs.length ≤ 63 &&
    cs.all fun c => c.isLower || c.isDigit || c = '_' || c = '.' || c = '-'

/-- `validate_error_code` passes every code of the loader. -/
theorem text_safe (code : ErrorCode) : isSafeCode code.text.toList = true := by
  cases code <;> decide

/-- `_SAFE_REQUEST_ID`. -/
def isSafeRequestId (id : List Char) : Bool :=
  id ≠ [] && id.length ≤ 128 && id.all fun c => c.isAlphanum || c = '_' || c = '.' || c = ':' || c = '-'

/-- The caller's request id, and the hex digits `uuid4()` draws where it is not safe to copy. -/
structure Request where
  requestId : Option String
  fresh : String

def safeRequestId (request : Request) : String :=
  match request.requestId with
  | some id => if isSafeRequestId id.toList then id else request.fresh
  | none => request.fresh

/-- `PolicyUnavailableError` and `PolicyInvalidError`. -/
inductive ErrorClass where
  | unavailable
  | invalid
  deriving DecidableEq, Repr

def ErrorClass.defaultRetryable : ErrorClass → Bool
  | .unavailable => true
  | .invalid => false

structure PolicyError where
  cls : ErrorClass
  code : ErrorCode
  requestId : String
  retryable : Bool
  deriving DecidableEq, Repr

/-- What a call raises. -/
inductive Raised where
  | policy (error : PolicyError)
  | valueError
  | typeError
  | regexError
  | overflowError
  deriving DecidableEq, Repr

def raisePolicy {α : Type} (request : Request) (cls : ErrorClass) (code : ErrorCode) : Except Raised α :=
  .error (.policy ⟨cls, code, safeRequestId request, cls.defaultRetryable⟩)

def unavailable {α : Type} (request : Request) (code : ErrorCode) : Except Raised α :=
  raisePolicy request .unavailable code

def invalid {α : Type} (request : Request) (code : ErrorCode) : Except Raised α :=
  raisePolicy request .invalid code

/-! Reading a setting. -/

/-- What a manager finds out about a setting: its value, that there is none, or nothing at all. -/
inductive Probe where
  | ok (value : Json)
  | missing
  | error

/-- A `PersistentConfig`, as far as a switch is read from it. -/
structure PersistentConfig where
  probe : Probe

def PersistentConfig.value (cfg : PersistentConfig) : Json :=
  match cfg.probe with
  | .ok value => value
  | .missing => .null
  | .error => .null

/-- What `get_config_by_name` gives: a setting, `None`, or an exception. -/
inductive Lookup where
  | found (cfg : PersistentConfig)
  | nothing
  | raised

/-- What a manager's `get_config_by_name` gives: a value, a `KeyError`, or another exception. -/
inductive NameLookup where
  | value (value : Json)
  | keyError
  | raised

/-- A config manager; one with `probe_value` answers through it, `none` where that raises. -/
structure Manager where
  probeValue : Option (String → Option Probe)
  getConfigByName : String → NameLookup

/-- `probe_config_status`. -/
def Manager.probeConfigStatus (manager : Manager) (name : String) : Probe :=
  match manager.probeValue with
  | some probe => (probe name).getD .error
  | none =>
    match manager.getConfigByName name with
    | .value value => .ok value
    | .keyError => .missing
    | .raised => .error

/-- The settings store: `get_config_by_name` of the client, `none` where there is no client
that has it. -/
abbrev Config := Option (String → Lookup)

/-- `ConfigClient.get_config_by_name`. -/
def Manager.client (manager : Manager) : Config :=
  some fun name => .found ⟨manager.probeConfigStatus name⟩

/-- `os.getenv`. -/
abbrev Environ := String → Option String

def truthyWords : List String := ["1", "true", "yes", "on"]
def falsyWords : List String := ["0", "false", "no", "off"]

/-- `text.strip().lower()`; only ASCII letters matter to the words it is compared with. -/
def folded (text : String) : String := String.ofList ((stripChars text.toList).map Char.toLower)

/-- `value is None or (isinstance(value, str) and not value.strip())`. -/
def isBlank : Json → Bool
  | .null => true
  | .str s => (stripChars s.toList).isEmpty
  | _ => false

/-- The answer a word gives, if it is one of the words for on and off. -/
def wordSwitch (word : String) : Option Bool :=
  if truthyWords.contains word then some true else if falsyWords.contains word then some false else none

def answerOf (request : Request) : Option Bool → Except Raised Bool
  | some b => .ok b
  | none => invalid request .configInvalid

/-- `_strict_bool`. -/
def strictBool (request : Request) (value : Json) : Except Raised Bool :=
  match value with
  | .bool b => .ok b
  | .null => unavailable request .configUnavailable
  | value => answerOf request (wordSwitch (folded value.toStr))

/-- `os.getenv(name)` as a value. -/
def fromEnviron (environ : Environ) (name : String) : Json :=
  match environ name with
  | some text => .str text
  | none => .null

/-- `config_flag_strict`; the default it is called with is never used. -/
def configFlagStrict (config : Config) (environ : Environ) (request : Request) (name : String) : Except Raised Bool :=
  match config with
  | none => unavailable request .configUnavailable
  | some getConfigByName =>
    match getConfigByName name with
    | .raised => unavailable request .configUnavailable
    | .nothing => strictBool request (fromEnviron environ name)
    | .found cfg =>
      strictBool request (if isBlank cfg.value then fromEnviron environ name else cfg.value)

/-! Kinds and places. -/

structure PolicyKind where
  policyType : String
  table : String
  enableFlag : String
  scopePrefix : String
  deriving DecidableEq, Repr

def pii : PolicyKind := ⟨"pii", "piis", "IS_AVAILABLE_PIIS", "PII"⟩
def forbiddenWord : PolicyKind :=
  ⟨"forbidden_word", "forbidden_words", "IS_AVAILABLE_FORBIDDEN_WORDS", "FORBIDDEN_WORDS"⟩

/-- In the order they are applied in. -/
def kinds : List PolicyKind := [pii, forbiddenWord]

def scopeDefaults : List (String × Bool) :=
  [("BLOCK_CHAT_INPUT", false), ("BLOCK_MODEL_INPUT", true), ("STRIP_CHAT_UPLOAD", false),
   ("STRIP_FILESTORE_UPLOAD", false)]

def isScope (scope : String) : Bool := scopeDefaults.any fun s => s.1 = scope

/-- `scope_key` of a place that is one. -/
def scopeKey (kind : PolicyKind) (scope : String) : String := kind.scopePrefix ++ "_" ++ scope

/-- A reader of switches; the second argument is the default. -/
abbrev FlagReader := String → Bool → Except Raised Bool

/-- `_strict_reader`; what a given reader raises other than a policy error is reported as one. -/
def strictReader (flag : Option FlagReader) (config : Config) (environ : Environ) (request : Request) : FlagReader :=
  match flag with
  | none => fun name _ => configFlagStrict config environ request name
  | some flag => fun name default =>
    match flag name default with
    | .ok value => strictBool request (.bool value)
    | .error (.policy error) => .error (.policy error)
    | .error _ => unavailable request .configUnavailable

def scopeDefault (scope : String) : Bool := (scopeDefaults.lookup scope).getD false

/-- `scope_on_strict`. -/
def scopeOnStrict (flag : Option FlagReader) (config : Config) (environ : Environ) (request : Request)
    (scope : String) (kind : PolicyKind) : Except Raised Bool :=
  if !isScope scope then invalid request .scopeInvalid
  else
    let read := strictReader flag config environ request
    match read kind.enableFlag false with
    | .error raised => .error raised
    | .ok false => .ok false
    | .ok true => read (scopeKey kind scope) (scopeDefault scope)

/-- `[x for x in xs if test(x)]` where the test may raise. -/
def keepWhere {α : Type} (test : α → Except Raised Bool) : List α → Except Raised (List α)
  | [] => .ok []
  | x :: xs =>
    match test x with
    | .error raised => .error raised
    | .ok keep =>
      match keepWhere test xs with
      | .error raised => .error raised
      | .ok kept => .ok (if keep then x :: kept else kept)

/-- `kinds_on_strict`. -/
def kindsOnStrict (flag : Option FlagReader) (config : Config) (environ : Environ) (request : Request)
    (scope : String) : Except Raised (List PolicyKind) :=
  let read := strictReader flag config environ request
  keepWhere (scopeOnStrict (some read) config environ request scope) kinds

end XgenSdk.Settings
