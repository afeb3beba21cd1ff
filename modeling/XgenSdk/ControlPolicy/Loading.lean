import XgenSdk.ControlPolicy.Settings
import XgenSdk.Py.Json
import XgenSdk.Lib.Checks

/-! Loading the rules in use at a place: active rows compiled strictly, less
the policies excepted for an agent, with failures told apart from an empty
policy. -/
namespace XgenSdk.Loading
open XgenSdk.Py XgenSdk.Settings

/-! Compiling rows. -/

/-- What `re.compile` gives. -/
inductive Compiled (P : Type) where
  | pattern (p : P)
  | error
  | overflow

/-- The regex library. `groups` are the capturing groups of a pattern, by index, with their names;
`expands` tells whether a match of groups that are all empty expands a template. -/
structure Regex (P : Type) where
  compile : String → Compiled P
  groups : P → List (Option String)
  expands : List (Option String) → String → Bool

variable {P : Type}

/-- `re.compile(source)`. -/
def Regex.compiled (regex : Regex P) (source : String) : Except Raised P :=
  match regex.compile source with
  | .pattern p => .ok p
  | .error => .error .regexError
  | .overflow => .error .overflowError

def defaultMask : String := "****"

inductive MaskingMode where
  | full
  | part
  deriving DecidableEq, Repr

def maskModeFull : String := "full"
def maskModePartial : String := "partial"

structure MaskingRule (P : Type) where
  policyId : Json
  policyName : String
  policyType : String
  pattern : P
  mask : String
  maskingMode : MaskingMode
  maskChar : String
  keepPrefix : Int
  keepSuffix : Int
  preserveFormat : Bool

/-- How rows the administrator wants unmasked are treated. -/
inductive Unmasked where
  | skip
  | default
  deriving DecidableEq, Repr

/-- An infinity, whose `int()` overflows; the `int()` of a NaN is a `ValueError`. -/
def isInfinite (x : PyFloat) : Bool := x.text = "inf" || x.text = "-inf"

/-- `int(value)`. -/
def toInt (value : Json) : Except Raised Int :=
  match value with
  | .bool b => .ok (if b then 1 else 0)
  | .int n => .ok n
  | .float x =>
    if isInfinite x then .error .overflowError
    else match x.trunc with
      | some n => .ok n
      | none => .error .valueError
  | .str s =>
    match intOfString s with
    | some n => .ok n
    | none => .error .valueError
  | _ => .error .typeError

/-- `int(value or 0)`. -/
def intOrZero (value : Json) : Except Raised Int := if value.truthy then toInt value else .ok 0

/-- `_strict_nonnegative_int`. -/
def strictNonnegativeInt (value : Json) : Except Raised Int :=
  match value with
  | .bool _ => .error .valueError
  | value =>
    match intOrZero value with
    | .error raised => .error raised
    | .ok parsed => if parsed < 0 then .error .valueError else .ok parsed

/-- `value or other` for a text. -/
def orElseText (value : Json) (other : String) : Json := if value.truthy then value else .str other

/-- `row.get(key, default)`. -/
def getD (key : String) (other : Json) : Json → Json
  | .obj fields => (Json.lookup key fields).getD other
  | _ => other

/-- `str(row.get("masking_mode") or "full").strip().lower()`. -/
def modeText (row : Json) : String := folded (orElseText (row.get "masking_mode") maskModeFull).toStr

/-- The rule a row gives; where masking is off even a partial mask is a full one. -/
def ruleOf (policyType : String) (row : Json) (pattern : P) (keepPrefix keepSuffix : Int) : MaskingRule P :=
  let masking := (row.get "masking").truthy
  { policyId := row.get "id"
    policyName := (orElseText (row.get "policy_name") "").toStr
    policyType := policyType
    pattern := pattern
    mask := (orElseText (if masking then row.get "masking_pattern" else .null) defaultMask).toStr
    maskingMode := if modeText row = maskModePartial && masking then .part else .full
    maskChar := (orElseText (row.get "mask_char") "*").toStr
    keepPrefix := keepPrefix
    keepSuffix := keepSuffix
    preserveFormat := (getD "preserve_format" (.bool true) row).truthy }

/-- The body of the loop of `compile_rules`; `none` where the row is skipped. -/
def compileRow (regex : Regex P) (policyType : String) (unmasked : Unmasked) (row : Json) :
    Except Raised (Option (MaskingRule P)) :=
  if !(row.get "masking").truthy && unmasked = .skip then .ok none
  else if !(row.get "regex_pattern").truthy then .ok none
  else
    match row.get "regex_pattern" with
    | .str source =>
      match regex.compile source with
      | .error => .ok none
      | .overflow => .error .overflowError
      | .pattern pattern => do
        let keepPrefix ← intOrZero (row.get "keep_prefix")
        let keepSuffix ← intOrZero (row.get "keep_suffix")
        return some (ruleOf policyType row pattern keepPrefix keepSuffix)
    | _ => .error .typeError

/-- `compile_rules`. -/
def compileRules (regex : Regex P) (rows : List Json) (policyType : String) (unmasked : Unmasked) :
    Except Raised (List (MaskingRule P)) := do
  let compiled ← rows.mapM (compileRow regex policyType unmasked)
  return compiled.reduceOption

/-- `value in (True, False, 0, 1)`. -/
def isZeroOne : Json → Bool
  | .bool _ => true
  | .int n => n = 0 || n = 1
  | .float x => x.isZero || x.text = "1.0"
  | _ => false

def isBool : Json → Bool
  | .bool _ => true
  | _ => false

def isStr : Json → Bool
  | .str _ => true
  | _ => false

def isNull : Json → Bool
  | .null => true
  | _ => false

def raiseIf (wrong : Bool) (raised : Raised) : Except Raised Unit := if wrong then .error raised else .ok ()

/-- `if wrong: raise ValueError`. -/
def refuse (wrong : Bool) : Except Raised Unit := raiseIf wrong .valueError

/-- A text that is not blank. -/
def isFilled (value : Json) : Bool := isStr value && !isBlank value

/-- `row.get("mask_char", "*") or "*"`. -/
def maskCharOf (row : Json) : Json := orElseText (getD "mask_char" (.str "*") row) "*"

/-- A row that masks has its template, `mask or DEFAULT_MASK`, expanded once. -/
def templateBroken (regex : Regex P) (pattern : P) (row : Json) : Bool :=
  (row.get "masking").truthy &&
    !regex.expands (regex.groups pattern) (orElseText (row.get "masking_pattern") defaultMask).toStr

/-- The checks on what stands in place of a match. -/
def checkMask (regex : Regex P) (pattern : P) (row : Json) : Except Raised Unit := do
  refuse (!isZeroOne (getD "preserve_format" (.bool true) row))
  refuse (!isStr (maskCharOf row))
  refuse (!isNull (row.get "masking_pattern") && !isStr (row.get "masking_pattern"))
  raiseIf (templateBroken regex pattern row) .regexError

/-- A row with its checked columns. -/
def normalized (row : Json) (keepPrefix keepSuffix : Int) : Json :=
  ((((((((row.set "policy_name" (row.get "policy_name")).set "regex_pattern" (row.get "regex_pattern")).set
    "masking" (row.get "masking")).set "masking_mode" (.str (modeText row))).set "keep_prefix" (.int keepPrefix)).set
    "keep_suffix" (.int keepSuffix)).set
    "preserve_format" (.bool (getD "preserve_format" (.bool true) row).truthy)).set "mask_char" (maskCharOf row))

def checkColumns (row : Json) : Except Raised Unit := do
  refuse (!row.isObj)
  refuse (isNull (row.get "id"))
  refuse (!isFilled (row.get "policy_name"))
  refuse (!isFilled (row.get "regex_pattern"))
  refuse (!isBool (row.get "masking"))

/-- The body of the loop of `compile_rules_strict`. -/
def normalizeRow (regex : Regex P) (row : Json) : Except Raised Json := do
  checkColumns row
  let pattern ← regex.compiled (row.get "regex_pattern").toStr
  refuse (modeText row ≠ maskModeFull && modeText row ≠ maskModePartial)
  let keepPrefix ← strictNonnegativeInt (row.get "keep_prefix")
  let keepSuffix ← strictNonnegativeInt (row.get "keep_suffix")
  checkMask regex pattern row
  return normalized row keepPrefix keepSuffix

/-- `except (IndexError, TypeError, ValueError, re.error): raise PolicyInvalidError`. -/
def asInvalid {α : Type} (request : Request) : Except Raised α → Except Raised α
  | .ok a => .ok a
  | .error .valueError => invalid request .dataInvalid
  | .error .typeError => invalid request .dataInvalid
  | .error .regexError => invalid request .dataInvalid
  | .error raised => .error raised

/-- `compile_rules_strict`. -/
def compileRulesStrict (regex : Regex P) (rows : List Json) (policyType : String) (unmasked : Unmasked)
    (request : Request) : Except Raised (List (MaskingRule P)) := do
  let normalized ← rows.mapM fun row => asInvalid request (normalizeRow regex row)
  compileRules regex normalized policyType unmasked

/-! Reading the tables. -/

/-- `find_records_by_condition(table, conditions, limit)`; `none` where it raises. -/
abbrev Database := String → List (String × Json) → Nat → Option Json

def exceptionsTable : String := "agent_applied_policies"
def rowLimit : Nat := 100000

/-- A float without a fractional part: its text ends in `.0` or has a positive exponent. -/
def isWhole (x : PyFloat) : Bool :=
  (".0".toList.isSuffixOf x.text.toList || x.text.toList.contains '+') && x.trunc.isSome

/-- `a == b` between values that can be hashed. -/
def pyEq : Json → Json → Bool
  | .str s, .str t => s = t
  | .float x, .float y => (x.isZero && y.isZero) || (x.text = y.text && x.text ≠ "nan")
  | .float x, .int n => isWhole x && x.trunc = some n
  | .float x, .bool b => isWhole x && x.trunc = some (if b then 1 else 0)
  | .int n, .float x => isWhole x && x.trunc = some n
  | .bool b, .float x => isWhole x && x.trunc = some (if b then 1 else 0)
  | .int m, .int n => m = n
  | .int n, .bool b => n = if b then 1 else 0
  | .bool b, .int n => n = if b then 1 else 0
  | .bool b, .bool c => b = c
  | .null, .null => true
  | _, _ => false

def isHashable : Json → Bool
  | .arr _ => false
  | .obj _ => false
  | _ => true

/-- `value not in excluded`. -/
def notIn (excluded : List Json) (value : Json) : Except Raised Bool :=
  if isHashable value then .ok (!excluded.any fun x => pyEq value x) else .error .typeError

/-- `if not workflow_id`. -/
def hasWorkflow (workflowId : Option String) : Bool :=
  match workflowId with
  | some id => id ≠ ""
  | none => false

def exceptionConditions (workflowId : Option String) (policyType : String) : List (String × Json) :=
  [("workflow_id", match workflowId with | some id => .str id | none => .null), ("policy_type", .str policyType)]

/-- One row of the exceptions: the policy id it excludes, if it does. -/
def exceptedOf (request : Request) (row : Json) : Except Raised (Option Json) :=
  if !row.isObj || isNull (row.get "policy_id") || !isBool (row.get "is_applied") then
    invalid request .exceptionsInvalid
  else if (row.get "is_applied").truthy then .ok none
  else if isHashable (row.get "policy_id") then .ok (some (row.get "policy_id"))
  else .error .typeError

/-- `excepted_policy_ids_strict`. -/
def exceptedPolicyIdsStrict (db : Option Database) (workflowId : Option String) (policyType : String)
    (request : Request) : Except Raised (List Json) :=
  if !hasWorkflow workflowId then .ok []
  else
    match db with
    | none => unavailable request .storeUnavailable
    | some find =>
      match find exceptionsTable (exceptionConditions workflowId policyType) rowLimit with
      | none => unavailable request .exceptionsUnavailable
      | some .null => unavailable request .exceptionsUnavailable
      | some (.arr rows) => do
        let excluded ← rows.mapM (exceptedOf request)
        return excluded.reduceOption
      | some _ => invalid request .exceptionsInvalid

/-- `f"{row.get('id')}:{value}"` with the first of the revision columns that is there. -/
def revisionOfRow (row : Json) : Option String :=
  ((["revision", "version", "updated_at"].map fun key => row.get key).find? fun value => !isNull value).map
    fun value => (row.get "id").toStr ++ ":" ++ value.toStr

def joined : List String → Option String
  | [] => none
  | revisions => some (String.intercalate "|" revisions)

/-- `_revision_from_rows`. -/
def revisionFromRows (rows : List Json) : Option String := joined (rows.filterMap revisionOfRow)

/-! Results. -/

structure Failure where
  errorCode : ErrorCode
  requestId : String
  retryable : Bool
  deriving DecidableEq, Repr

/-- A `PolicyLoadResult`: only a failure has error data, and only a load has rules. -/
inductive PolicyLoadResult (P : Type) where
  | disabled (scope : Option String)
  | loaded (rules : List (MaskingRule P)) (revision : Option String) (scope : Option String)
  | unavailable (failure : Failure) (scope : Option String)
  | invalid (failure : Failure) (scope : Option String)

/-- `_failure`. -/
def failure (error : PolicyError) (scope : Option String) : PolicyLoadResult P :=
  match error.cls with
  | .unavailable => .unavailable ⟨error.code, error.requestId, error.retryable⟩ scope
  | .invalid => .invalid ⟨error.code, error.requestId, error.retryable⟩ scope

/-- `except PolicyError as exc: return _failure(exc, scope)`. -/
def asFailure (scope : Option String) : Except Raised (PolicyLoadResult P) → Except Raised (PolicyLoadResult P)
  | .error (.policy error) => .ok (failure error scope)
  | outcome => outcome

def activeConditions : List (String × Json) := [("is_active", .bool true)]

/-- `find_records_by_condition(kind.table, {"is_active": True})` as a list of rows. -/
def activeRows (db : Option Database) (kind : PolicyKind) (request : Request) : Except Raised (List Json) :=
  match db with
  | none => unavailable request .storeUnavailable
  | some find =>
    match find kind.table activeConditions rowLimit with
    | none => unavailable request .storeUnavailable
    | some .null => unavailable request .storeUnavailable
    | some (.arr rows) => .ok rows
    | some _ => invalid request .dataInvalid

/-- The body of `load_rules_strict`. -/
def loadRules (regex : Regex P) (db : Option Database) (kind : PolicyKind) (workflowId : Option String)
    (unmasked : Unmasked) (scope : Option String) (revision : Option String) (request : Request) :
    Except Raised (PolicyLoadResult P) := do
  let rows ← activeRows db kind request
  let excluded ← exceptedPolicyIdsStrict db workflowId kind.policyType request
  let compiled ← compileRulesStrict regex rows kind.policyType unmasked request
  let rules ← keepWhere (fun rule : MaskingRule P => notIn excluded rule.policyId) compiled
  return .loaded rules (if revision.isSome then revision else revisionFromRows rows) scope

/-- `load_rules_strict`. -/
def loadRulesStrict (regex : Regex P) (db : Option Database) (kind : PolicyKind) (workflowId : Option String)
    (unmasked : Unmasked) (scope : Option String) (revision : Option String) (request : Request) :
    Except Raised (PolicyLoadResult P) :=
  asFailure scope (loadRules regex db kind workflowId unmasked scope revision request)

/-- `if result.revision: revisions.append(...)`. -/
def addRevision (kind : PolicyKind) (revision : Option String) (revisions : List String) : List String :=
  match revision with
  | some text => if text = "" then revisions else revisions ++ [kind.policyType ++ ":" ++ text]
  | none => revisions

/-- The loop over the enabled kinds, with the rules and revisions found so far. -/
def loadKinds (regex : Regex P) (db : Option Database) (workflowId : Option String) (scope : String)
    (request : Request) (rules : List (MaskingRule P)) (revisions : List String) :
    List PolicyKind → Except Raised (PolicyLoadResult P)
  | [] => .ok (.loaded rules (joined revisions) (some scope))
  | kind :: rest =>
    match loadRulesStrict regex db kind workflowId .skip (some scope) none request with
    | .error raised => .error raised
    | .ok (.unavailable failure scope) => .ok (.unavailable failure scope)
    | .ok (.invalid failure scope) => .ok (.invalid failure scope)
    | .ok (.disabled _) => loadKinds regex db workflowId scope request rules revisions rest
    | .ok (.loaded found revision _) =>
      loadKinds regex db workflowId scope request (rules ++ found) (addRevision kind revision revisions) rest

/-- `load_scope_rules_strict`. -/
def loadScopeRulesStrict (regex : Regex P) (db : Option Database) (scope : String) (workflowId : Option String)
    (flag : Option FlagReader) (config : Config) (environ : Environ) (request : Request) :
    Except Raised (PolicyLoadResult P) :=
  match kindsOnStrict flag config environ request scope with
  | .error (.policy error) => .ok (failure error (some scope))
  | .error raised => .error raised
  | .ok [] => .ok (.disabled (some scope))
  | .ok enabled => loadKinds regex db workflowId scope request [] [] enabled

/-! The first thing that is wrong with what the tables hold, and whether the
loader refuses it or lets an exception through. -/

open XgenSdk.Checks (ok_bind)

/-- A policy error is reported; anything else escapes the loader. -/
inductive Problem where
  | refused
  | escapes
  deriving DecidableEq, Repr

def Raised.problem : Raised → Problem
  | .policy _ => .refused
  | _ => .escapes

/-- How a call fails, if it does. -/
def problemOf {α : Type} : Except Raised α → Option Problem
  | .ok _ => none
  | .error raised => some (Raised.problem raised)

@[simp] theorem problemOf_ok {α : Type} (a : α) : problemOf (.ok a : Except Raised α) = none := rfl

@[simp] theorem problemOf_error {α : Type} (raised : Raised) :
    problemOf (.error raised : Except Raised α) = some (Raised.problem raised) := rfl

theorem problemOf_eq_none {α : Type} {x : Except Raised α} (h : problemOf x = none) : ∃ a, x = .ok a := by
  cases x with
  | ok a => exact ⟨a, rfl⟩
  | error raised => cases h

theorem problemOf_refused {α : Type} {x : Except Raised α} (h : problemOf x = some .refused) :
    ∃ error, x = .error (.policy error) := by
  cases x with
  | ok a => cases h
  | error raised =>
    cases raised with
    | policy error => exact ⟨error, rfl⟩
    | _ => cases h

theorem problemOf_escapes {α : Type} {x : Except Raised α} (h : problemOf x = some .escapes) :
    ∃ raised, x = .error raised ∧ ∀ error, raised ≠ .policy error := by
  cases x with
  | ok a => cases h
  | error raised =>
    refine ⟨raised, rfl, fun error heq => ?_⟩
    rw [heq] at h
    cases h

/-- A call made after another one fails where the first does, else where it does itself. -/
theorem problemOf_bind {α β : Type} {x : Except Raised α} {f : α → Except Raised β} {rest : Option Problem}
    (hf : ∀ a, x = .ok a → problemOf (f a) = rest) :
    problemOf (x >>= f) = (problemOf x).or rest := by
  cases x with
  | ok a => exact hf a rfl
  | error raised => rfl

theorem problemOf_mapM {α β : Type} (f : α → Except Raised β) (xs : List α) :
    problemOf (xs.mapM f) = xs.findSome? fun x => problemOf (f x) := by
  induction xs with
  | nil => rfl
  | cons x xs ih =>
    rw [List.mapM_cons, List.findSome?_cons, ← ih]
    cases hx : f x with
    | error raised => rfl
    | ok y => cases xs.mapM f <;> rfl

theorem problemOf_keepWhere {α : Type} (test : α → Except Raised Bool) (xs : List α) :
    problemOf (keepWhere test xs) = xs.findSome? fun x => problemOf (test x) := by
  induction xs with
  | nil => rfl
  | cons x xs ih =>
    rw [keepWhere, List.findSome?_cons]
    cases hx : test x with
    | error raised => rfl
    | ok keep =>
      dsimp only [problemOf_ok]
      rw [← ih]
      cases hxs : keepWhere test xs <;> rfl

/-! What is wrong with a row. -/

variable {P : Type} (regex : Regex P)

def badColumns (row : Json) : Bool :=
  !row.isObj || isNull (row.get "id") || !isFilled (row.get "policy_name") || !isFilled (row.get "regex_pattern") ||
    !isBool (row.get "masking")

def badMode (row : Json) : Bool := modeText row ≠ maskModeFull && modeText row ≠ maskModePartial

/-- An infinite number of letters to keep, of which `int()` raises `OverflowError`. -/
def overflows : Json → Bool
  | .float x => !x.isZero && isInfinite x
  | _ => false

/-- A number of letters to keep. -/
def isCount : Json → Bool
  | .bool _ => false
  | value => !value.truthy || value.toInt.any fun n => 0 ≤ n

def keepProblem (value : Json) : Option Problem :=
  if overflows value then some .escapes else if isCount value then none else some .refused

def badMask (pattern : P) (row : Json) : Bool :=
  !isZeroOne (getD "preserve_format" (.bool true) row) || !isStr (maskCharOf row) ||
    (!isNull (row.get "masking_pattern") && !isStr (row.get "masking_pattern")) || templateBroken regex pattern row

def refusedIf (wrong : Bool) : Option Problem := if wrong then some .refused else none

/-- The first thing wrong with how a row masks what its pattern finds. -/
def maskProblem (pattern : P) (row : Json) : Option Problem :=
  (refusedIf (badMode row)).or ((keepProblem (row.get "keep_prefix")).or
    ((keepProblem (row.get "keep_suffix")).or (refusedIf (badMask regex pattern row))))

/-- The first thing wrong with an active row. -/
def rowProblem (row : Json) : Option Problem :=
  if badColumns row then some .refused
  else match regex.compile (row.get "regex_pattern").toStr with
    | .error => some .refused
    | .overflow => some .escapes
    | .pattern pattern => maskProblem regex pattern row

theorem asInvalid_bind {α β : Type} (request : Request) (x : Except Raised α) (f : α → Except Raised β) :
    asInvalid request (x >>= f) = (asInvalid request x >>= fun a => asInvalid request (f a)) := by
  cases x with
  | ok a => rfl
  | error raised => cases raised <;> rfl

theorem problemOf_raiseIf {β : Type} (request : Request) {wrong : Bool} {raised : Raised}
    (hraised : problemOf (asInvalid request (.error raised : Except Raised Unit)) = some .refused)
    (f : Unit → Except Raised β) :
    problemOf (asInvalid request (raiseIf wrong raised >>= f)) =
      (refusedIf wrong).or (problemOf (asInvalid request (f ()))) := by
  cases wrong with
  | false => rfl
  | true =>
    cases raised with
    | overflowError => cases hraised
    | _ => rfl

theorem problemOf_refuse {β : Type} (request : Request) (wrong : Bool) (f : Unit → Except Raised β) :
    problemOf (asInvalid request (refuse wrong >>= f)) = (refusedIf wrong).or (problemOf (asInvalid request (f ()))) :=
  problemOf_raiseIf request rfl f

theorem problemOf_nonneg (request : Request) (n : Int) :
    problemOf (asInvalid request (if n < 0 then .error .valueError else .ok n)) =
      if 0 ≤ n then none else some .refused := by
  by_cases hneg : n < 0
  · have hnot : ¬ 0 ≤ n := by omega
    rw [if_pos hneg]
    simp [hnot, asInvalid, invalid, raisePolicy, Raised.problem]
  · have hle : 0 ≤ n := by omega
    rw [if_neg hneg]
    simp [hle, asInvalid]

theorem problemOf_count (request : Request) (value : Json) :
    problemOf (asInvalid request (strictNonnegativeInt value)) = keepProblem value := by
  cases value with
  | null => rfl
  | bool b => rfl
  | int n =>
    by_cases hzero : n = 0
    · rw [hzero]
      rfl
    · have hvalue : strictNonnegativeInt (.int n) = if n < 0 then .error .valueError else .ok n := by
        simp [strictNonnegativeInt, intOrZero, Json.truthy, hzero, toInt]
      rw [hvalue, problemOf_nonneg]
      simp [keepProblem, overflows, isCount, Json.truthy, Json.toInt, hzero]
  | float x =>
    cases hzero : x.isZero with
    | true => simp [strictNonnegativeInt, intOrZero, keepProblem, overflows, isCount, Json.truthy, hzero, asInvalid]
    | false =>
      cases hinf : isInfinite x with
      | true =>
        simp [strictNonnegativeInt, intOrZero, keepProblem, overflows, Json.truthy, toInt, hzero, hinf, asInvalid,
          Raised.problem]
      | false =>
        cases htrunc : x.trunc with
        | none =>
          simp [strictNonnegativeInt, intOrZero, keepProblem, overflows, isCount, Json.truthy, toInt, Json.toInt,
            hzero, hinf, htrunc, asInvalid, invalid, raisePolicy, Raised.problem]
        | some n =>
          have hvalue : strictNonnegativeInt (.float x) = if n < 0 then .error .valueError else .ok n := by
            simp [strictNonnegativeInt, intOrZero, Json.truthy, toInt, hzero, hinf, htrunc]
          rw [hvalue, problemOf_nonneg]
          simp [keepProblem, overflows, isCount, Json.truthy, Json.toInt, hzero, hinf, htrunc]
  | str s =>
    by_cases hempty : s = ""
    · simp [strictNonnegativeInt, intOrZero, keepProblem, overflows, isCount, Json.truthy, hempty, asInvalid]
    · cases hint : intOfString s with
      | none =>
        simp [strictNonnegativeInt, intOrZero, keepProblem, overflows, isCount, Json.truthy, toInt, Json.toInt,
          hempty, hint, asInvalid, invalid, raisePolicy, Raised.problem]
      | some n =>
        have hvalue : strictNonnegativeInt (.str s) = if n < 0 then .error .valueError else .ok n := by
          simp [strictNonnegativeInt, intOrZero, Json.truthy, toInt, hempty, hint]
        rw [hvalue, problemOf_nonneg]
        simp [keepProblem, overflows, isCount, Json.truthy, Json.toInt, hempty, hint]
  | arr xs => cases xs <;> rfl
  | obj fields => cases fields <;> rfl

/-- The last check fails where it does. -/
theorem problemOf_raiseIf_last (request : Request) {wrong : Bool} {raised : Raised}
    (hraised : problemOf (asInvalid request (.error raised : Except Raised Unit)) = some .refused) :
    problemOf (asInvalid request (raiseIf wrong raised)) = refusedIf wrong := by
  cases wrong with
  | false => rfl
  | true => exact hraised

theorem refusedIf_or (a b : Bool) : (refusedIf a).or (refusedIf b) = refusedIf (a || b) := by
  cases a <;> cases b <;> rfl

theorem problemOf_checkColumns (request : Request) (row : Json) :
    problemOf (asInvalid request (checkColumns row)) = refusedIf (badColumns row) := by
  unfold checkColumns badColumns
  rw [problemOf_refuse, problemOf_refuse, problemOf_refuse, problemOf_refuse, refuse, problemOf_raiseIf_last request rfl]
  simp only [refusedIf_or, Bool.or_assoc]

theorem problemOf_checkMask (request : Request) (pattern : P) (row : Json) :
    problemOf (asInvalid request (checkMask regex pattern row)) = refusedIf (badMask regex pattern row) := by
  unfold checkMask badMask
  rw [problemOf_refuse, problemOf_refuse, problemOf_refuse, problemOf_raiseIf_last request rfl]
  simp only [refusedIf_or, Bool.or_assoc]

theorem problemOf_behindPattern (request : Request) (pattern : P) (row : Json) :
    problemOf (asInvalid request (do
      refuse (modeText row ≠ maskModeFull && modeText row ≠ maskModePartial)
      let keepPrefix ← strictNonnegativeInt (row.get "keep_prefix")
      let keepSuffix ← strictNonnegativeInt (row.get "keep_suffix")
      checkMask regex pattern row
      return normalized row keepPrefix keepSuffix)) = maskProblem regex pattern row := by
  rw [problemOf_refuse, maskProblem, ← problemOf_count request (row.get "keep_prefix"),
    ← problemOf_count request (row.get "keep_suffix"), ← problemOf_checkMask regex request pattern row]
  congr 1
  rw [asInvalid_bind]
  refine problemOf_bind fun keepPrefix _ => ?_
  rw [asInvalid_bind]
  refine problemOf_bind fun keepSuffix _ => ?_
  rw [asInvalid_bind]
  exact (problemOf_bind fun _ _ => rfl).trans Option.or_none

/-- How the strict compiler fails on a row. -/
theorem problemOf_normalizeRow (request : Request) (row : Json) :
    problemOf (asInvalid request (normalizeRow regex row)) = rowProblem regex row := by
  have hcolumns : rowProblem regex row = (refusedIf (badColumns row)).or
      (match regex.compile (row.get "regex_pattern").toStr with
        | .error => some .refused
        | .overflow => some .escapes
        | .pattern pattern => maskProblem regex pattern row) := by
    unfold rowProblem
    cases badColumns row <;> rfl
  rw [hcolumns, normalizeRow, asInvalid_bind, ← problemOf_checkColumns request row]
  refine problemOf_bind fun _ _ => ?_
  rw [Regex.compiled]
  cases regex.compile (row.get "regex_pattern").toStr with
  | error => rfl
  | overflow => rfl
  | pattern pattern =>
    rw [ok_bind]
    exact problemOf_behindPattern regex request pattern row

end XgenSdk.Loading
