import XgenSdk.ControlPolicy.Loading
import Mathlib.Data.List.Forall2
import Mathlib.Data.List.ReduceOption

/-! The rules of active rows: one for each row that masks, in row order, less
the policies that are excepted. -/
namespace XgenSdk.Loading
open XgenSdk.Py XgenSdk.Settings
open XgenSdk.Checks (bind_ok mapM_eq_ok)

variable {P : Type} (regex : Regex P)

/-- A row the administrator wants masked. -/
def masks (row : Json) : Bool := (row.get "masking").truthy

/-- A rule made of the columns of a row. -/
structure RuleFor (policyType : String) (row : Json) (rule : MaskingRule P) : Prop where
  policyId : rule.policyId = row.get "id"
  policyName : row.get "policy_name" = .str rule.policyName
  policyType : rule.policyType = policyType
  pattern : ∃ source, row.get "regex_pattern" = .str source ∧ regex.compile source = .pattern rule.pattern
  mask : rule.mask = (orElseText (row.get "masking_pattern") defaultMask).toStr
  maskingMode : rule.maskingMode = if modeText row = maskModePartial then .part else .full
  maskChar : maskCharOf row = .str rule.maskChar
  keepPrefix : strictNonnegativeInt (row.get "keep_prefix") = .ok rule.keepPrefix
  keepSuffix : strictNonnegativeInt (row.get "keep_suffix") = .ok rule.keepSuffix
  preserveFormat : rule.preserveFormat = (getD "preserve_format" (.bool true) row).truthy

/-! The strict compiler hands the lenient one rows that it compiles. -/

theorem asInvalid_ok {α : Type} {request : Request} {x : Except Raised α} {a : α} (h : asInvalid request x = .ok a) :
    x = .ok a := by
  cases x with
  | ok b => exact h
  | error raised => cases raised <;> cases h

theorem refuse_ok {wrong : Bool} {u : Unit} (h : refuse wrong = .ok u) : wrong = false := by
  cases wrong with
  | false => rfl
  | true => cases h

/-- A row that passes every check. -/
structure Checked (row : Json) (pattern : P) (keepPrefix keepSuffix : Int) : Prop where
  isObj : row.isObj = true
  name : isFilled (row.get "policy_name") = true
  source : isFilled (row.get "regex_pattern") = true
  masking : isBool (row.get "masking") = true
  compiled : regex.compile (row.get "regex_pattern").toStr = .pattern pattern
  mode : modeText row = maskModeFull ∨ modeText row = maskModePartial
  prefixed : strictNonnegativeInt (row.get "keep_prefix") = .ok keepPrefix
  suffixed : strictNonnegativeInt (row.get "keep_suffix") = .ok keepSuffix
  maskChar : isStr (maskCharOf row) = true
  template : isNull (row.get "masking_pattern") = true ∨ isStr (row.get "masking_pattern") = true

variable {regex}

theorem checkColumns_ok {row : Json} {u : Unit} (h : checkColumns row = .ok u) :
    row.isObj = true ∧ isFilled (row.get "policy_name") = true ∧ isFilled (row.get "regex_pattern") = true ∧
      isBool (row.get "masking") = true := by
  unfold checkColumns at h
  obtain ⟨_, hobj, h⟩ := bind_ok h
  obtain ⟨_, -, h⟩ := bind_ok h
  obtain ⟨_, hname, h⟩ := bind_ok h
  obtain ⟨_, hsource, h⟩ := bind_ok h
  exact ⟨by simpa using refuse_ok hobj, by simpa using refuse_ok hname, by simpa using refuse_ok hsource,
    by simpa using refuse_ok h⟩

theorem checkMask_ok {pattern : P} {row : Json} {u : Unit} (h : checkMask regex pattern row = .ok u) :
    isStr (maskCharOf row) = true ∧
      (isNull (row.get "masking_pattern") = true ∨ isStr (row.get "masking_pattern") = true) := by
  unfold checkMask at h
  obtain ⟨_, -, h⟩ := bind_ok h
  obtain ⟨_, hchar, h⟩ := bind_ok h
  obtain ⟨_, htemplate, -⟩ := bind_ok h
  have hbad := refuse_ok htemplate
  refine ⟨by simpa using refuse_ok hchar, ?_⟩
  cases hnull : isNull (row.get "masking_pattern") with
  | true => exact Or.inl rfl
  | false =>
    rw [hnull] at hbad
    exact Or.inr (by simpa using hbad)

theorem compiled_ok {source : String} {pattern : P} (h : regex.compiled source = .ok pattern) :
    regex.compile source = .pattern pattern := by
  unfold Regex.compiled at h
  cases hpattern : regex.compile source with
  | error => rw [hpattern] at h; cases h
  | overflow => rw [hpattern] at h; cases h
  | pattern p =>
    rw [hpattern] at h
    rw [Except.ok.inj h]

theorem normalizeRow_ok {row after : Json} (h : normalizeRow regex row = .ok after) :
    ∃ pattern keepPrefix keepSuffix, Checked regex row pattern keepPrefix keepSuffix ∧
      after = normalized row keepPrefix keepSuffix := by
  unfold normalizeRow at h
  obtain ⟨_, hcolumns, h⟩ := bind_ok h
  obtain ⟨pattern, hpattern, h⟩ := bind_ok h
  obtain ⟨_, hmode, h⟩ := bind_ok h
  obtain ⟨keepPrefix, hprefixed, h⟩ := bind_ok h
  obtain ⟨keepSuffix, hsuffixed, h⟩ := bind_ok h
  obtain ⟨_, hmask, h⟩ := bind_ok h
  obtain ⟨hobj, hname, hsource, hmasking⟩ := checkColumns_ok hcolumns
  obtain ⟨hchar, htemplate⟩ := checkMask_ok hmask
  have hbad := refuse_ok hmode
  have hmodes : modeText row = maskModeFull ∨ modeText row = maskModePartial := by
    by_cases hfull : modeText row = maskModeFull
    · exact Or.inl hfull
    · by_cases hpart : modeText row = maskModePartial
      · exact Or.inr hpart
      · simp [hfull, hpart] at hbad
  exact ⟨pattern, keepPrefix, keepSuffix,
    ⟨hobj, hname, hsource, hmasking, compiled_ok hpattern, hmodes, hprefixed, hsuffixed, hchar, htemplate⟩,
    (Except.ok.inj h).symm⟩

theorem getD_eq (key : String) (other v : Json) : getD key other v = if v.has key then v.get key else other := by
  cases v with
  | obj fields =>
    simp only [getD, Json.has, Json.get]
    obtain hnone | ⟨value, hsome⟩ := Option.eq_none_or_eq_some (Json.lookup key fields)
    · simp [hnone]
    · simp [hsome]
  | _ => rfl

/-! What the lenient compiler reads in a checked row. -/

section
variable (row : Json) (keepPrefix keepSuffix : Int) (hobj : row.isObj = true)
include hobj

theorem normalized_get (key : String) : (normalized row keepPrefix keepSuffix).get key =
    if key = "mask_char" then maskCharOf row
    else if key = "preserve_format" then .bool (getD "preserve_format" (.bool true) row).truthy
    else if key = "keep_suffix" then .int keepSuffix
    else if key = "keep_prefix" then .int keepPrefix
    else if key = "masking_mode" then .str (modeText row)
    else row.get key := by
  unfold normalized
  simp only [Json.get_set, Json.isObj_set, hobj]
  repeat' (split <;> try rfl)
  all_goals simp_all

theorem normalized_preserve : getD "preserve_format" (.bool true) (normalized row keepPrefix keepSuffix) =
    .bool (getD "preserve_format" (.bool true) row).truthy := by
  have hget := normalized_get row keepPrefix keepSuffix hobj "preserve_format"
  have hhas : (normalized row keepPrefix keepSuffix).has "preserve_format" = true := by
    unfold normalized
    simp [Json.has_set, Json.isObj_set, hobj]
  rw [getD_eq, hhas, if_pos rfl, hget]
  rfl

end

theorem isFilled_str {value : Json} (h : isFilled value = true) : ∃ s, value = .str s ∧ s ≠ "" := by
  cases value with
  | str s =>
    refine ⟨s, rfl, fun hempty => ?_⟩
    rw [hempty] at h
    cases h
  | _ => cases h

theorem orElseText_str {s : String} (other : String) (h : s ≠ "") : orElseText (.str s) other = .str s := by
  simp [orElseText, Json.truthy, h]

theorem intOrZero_int (n : Int) : intOrZero (.int n) = .ok n := by
  by_cases hzero : n = 0
  · rw [hzero]
    rfl
  · simp [intOrZero, Json.truthy, hzero, toInt]

theorem folded_mode {mode : String} (h : mode = maskModeFull ∨ mode = maskModePartial) :
    folded (orElseText (.str mode) maskModeFull).toStr = mode := by
  obtain rfl | rfl := h
  · decide
  · decide

/-- `mask_char` is a text, and never an empty one. -/
theorem maskCharOf_filled {row : Json} (h : isStr (maskCharOf row) = true) :
    ∃ c, maskCharOf row = .str c ∧ c ≠ "" := by
  unfold maskCharOf orElseText at h ⊢
  split at h
  · rename_i htruthy
    rw [if_pos htruthy]
    cases hvalue : getD "mask_char" (.str "*") row with
    | str c =>
      rw [hvalue] at htruthy
      exact ⟨c, rfl, by simpa [Json.truthy] using htruthy⟩
    | _ => rw [hvalue] at h; cases h
  · rename_i hfalsy
    rw [if_neg hfalsy]
    exact ⟨"*", rfl, by decide⟩

/-- The rule of a checked row has the columns of that row. -/
theorem ruleOf_normalized {row : Json} {pattern : P} {keepPrefix keepSuffix : Int} (policyType : String)
    (h : Checked regex row pattern keepPrefix keepSuffix) (hmasks : masks row = true) :
    RuleFor regex policyType row (ruleOf policyType (normalized row keepPrefix keepSuffix) pattern keepPrefix keepSuffix) := by
  have hget := normalized_get row keepPrefix keepSuffix h.isObj
  obtain ⟨name, hname, hnameFilled⟩ := isFilled_str h.name
  obtain ⟨source, hsource, -⟩ := isFilled_str h.source
  obtain ⟨c, hc, hcFilled⟩ := maskCharOf_filled h.maskChar
  have hcompile := h.compiled
  rw [hsource] at hcompile
  have hmasking : ((normalized row keepPrefix keepSuffix).get "masking").truthy = true := by
    rw [hget]
    exact hmasks
  have hmode : modeText (normalized row keepPrefix keepSuffix) = modeText row := by
    rw [modeText, hget]
    exact folded_mode h.mode
  have hgetName : (normalized row keepPrefix keepSuffix).get "policy_name" = .str name := by
    rw [hget]
    exact hname
  have hgetChar : (normalized row keepPrefix keepSuffix).get "mask_char" = .str c := by
    rw [hget]
    exact hc
  constructor
  · exact hget "id"
  · simp only [ruleOf]
    rw [hgetName, orElseText_str "" hnameFilled]
    exact hname
  · rfl
  · exact ⟨source, hsource, hcompile⟩
  · simp only [ruleOf]
    rw [hmasking, if_pos rfl, hget]
    rfl
  · simp only [ruleOf]
    rw [hmasking, hmode, Bool.and_true]
    by_cases hpart : modeText row = maskModePartial
    · simp [hpart]
    · simp [hpart]
  · simp only [ruleOf]
    rw [hgetChar, orElseText_str "*" hcFilled]
    exact hc
  · exact h.prefixed
  · exact h.suffixed
  · simp only [ruleOf]
    rw [normalized_preserve row keepPrefix keepSuffix h.isObj]
    rfl

/-- The lenient compiler takes a checked row, and drops it only where it does not mask. -/
theorem compileRow_normalized {row : Json} {pattern : P} {keepPrefix keepSuffix : Int} (policyType : String)
    (h : Checked regex row pattern keepPrefix keepSuffix) :
    compileRow regex policyType .skip (normalized row keepPrefix keepSuffix) =
      .ok (if masks row then some (ruleOf policyType (normalized row keepPrefix keepSuffix) pattern keepPrefix keepSuffix)
        else none) := by
  have hget := normalized_get row keepPrefix keepSuffix h.isObj
  obtain ⟨source, hsource, hsourceFilled⟩ := isFilled_str h.source
  have hcompile := h.compiled
  rw [hsource] at hcompile
  have hmasking : ((normalized row keepPrefix keepSuffix).get "masking").truthy = masks row := by
    rw [hget]
    rfl
  have hregex : (normalized row keepPrefix keepSuffix).get "regex_pattern" = .str source := by
    rw [hget]
    exact hsource
  have hprefixed : intOrZero ((normalized row keepPrefix keepSuffix).get "keep_prefix") = .ok keepPrefix := by
    rw [hget]
    exact intOrZero_int keepPrefix
  have hsuffixed : intOrZero ((normalized row keepPrefix keepSuffix).get "keep_suffix") = .ok keepSuffix := by
    rw [hget]
    exact intOrZero_int keepSuffix
  have htruthy : (Json.str source).truthy = true := by simp [Json.truthy, hsourceFilled]
  unfold compileRow
  rw [hmasking, hregex, htruthy]
  cases masks row with
  | false => rfl
  | true =>
    dsimp only
    rw [show Json.toStr (.str source) = source from rfl] at hcompile
    rw [hcompile, hprefixed, hsuffixed]
    rfl

/-! One rule for each row that masks. -/

theorem compileRules_normalized {request : Request} (policyType : String) {rows after : List Json}
    (h : List.Forall₂ (fun row n => asInvalid request (normalizeRow regex row) = .ok n) rows after) :
    ∃ compiled, compileRules regex after policyType .skip = .ok compiled ∧
      List.Forall₂ (RuleFor regex policyType) (rows.filter masks) compiled := by
  unfold compileRules
  induction h with
  | nil => exact ⟨[], rfl, .nil⟩
  | @cons row n rows after hrow _ ih =>
    obtain ⟨compiled, hcompiled, hrules⟩ := ih
    obtain ⟨options, hoptions, hreduced⟩ := bind_ok hcompiled
    obtain ⟨pattern, keepPrefix, keepSuffix, hchecked, rfl⟩ := normalizeRow_ok (asInvalid_ok hrow)
    rw [List.mapM_cons, compileRow_normalized policyType hchecked, hoptions]
    rw [← Except.ok.inj hreduced] at hrules
    cases hmasks : masks row with
    | false =>
      rw [List.filter_cons_of_neg (by rw [hmasks]; decide)]
      exact ⟨options.reduceOption, rfl, hrules⟩
    | true =>
      rw [List.filter_cons_of_pos hmasks]
      exact ⟨_, rfl, .cons (ruleOf_normalized policyType hchecked hmasks) hrules⟩

/-- The strict compiler fails where a row does, and else gives one rule for each row that masks. -/
theorem compileRulesStrict_spec (rows : List Json) (policyType : String) (request : Request) :
    problemOf (compileRulesStrict regex rows policyType .skip request) = rows.findSome? (rowProblem regex) ∧
      ∀ compiled, compileRulesStrict regex rows policyType .skip request = .ok compiled →
        List.Forall₂ (RuleFor regex policyType) (rows.filter masks) compiled := by
  have hproblem : problemOf (rows.mapM fun row => asInvalid request (normalizeRow regex row)) =
      rows.findSome? (rowProblem regex) := by
    rw [problemOf_mapM]
    simp only [problemOf_normalizeRow]
  unfold compileRulesStrict
  constructor
  · rw [← hproblem]
    refine (problemOf_bind fun after hafter => ?_).trans Option.or_none
    obtain ⟨compiled, hcompiled, -⟩ := compileRules_normalized policyType (mapM_eq_ok hafter)
    rw [hcompiled]
    rfl
  · intro compiled h
    obtain ⟨after, hafter, hcompiled⟩ := bind_ok h
    obtain ⟨compiled', hcompiled', hrules⟩ := compileRules_normalized policyType (mapM_eq_ok hafter)
    rw [← Except.ok.inj (hcompiled'.symm.trans hcompiled)]
    exact hrules

/-! The policies that are excepted. -/

def isExcepted (exceptions : List Json) (id : Json) : Bool :=
  exceptions.any fun row => !(row.get "is_applied").truthy && pyEq id (row.get "policy_id")

/-- The first thing wrong with a row of the exceptions. -/
def exceptionProblem (row : Json) : Option Problem :=
  if !row.isObj || isNull (row.get "policy_id") || !isBool (row.get "is_applied") then some .refused
  else if !(row.get "is_applied").truthy && !isHashable (row.get "policy_id") then some .escapes else none

theorem problemOf_exceptedOf (request : Request) (row : Json) :
    problemOf (exceptedOf request row) = exceptionProblem row := by
  unfold exceptedOf exceptionProblem
  cases !row.isObj || isNull (row.get "policy_id") || !isBool (row.get "is_applied") with
  | true => rfl
  | false =>
    cases (row.get "is_applied").truthy with
    | true => rfl
    | false => cases isHashable (row.get "policy_id") <;> rfl

theorem exceptedOf_ok {request : Request} {row : Json} {excluded : Option Json}
    (h : exceptedOf request row = .ok excluded) :
    excluded = if (row.get "is_applied").truthy then none else some (row.get "policy_id") := by
  unfold exceptedOf at h
  split at h
  · cases h
  · split at h
    · rename_i happlied
      rw [if_pos happlied, Except.ok.inj h]
    · rename_i happlied
      rw [if_neg happlied]
      split at h
      · exact (Except.ok.inj h).symm
      · cases h

theorem excluded_any {request : Request} {exceptions : List Json} {excluded : List (Option Json)}
    (h : List.Forall₂ (fun row e => exceptedOf request row = .ok e) exceptions excluded) (id : Json) :
    (excluded.reduceOption.any fun x => pyEq id x) = isExcepted exceptions id := by
  unfold isExcepted
  induction h with
  | nil => rfl
  | @cons row e exceptions excluded hrow _ ih =>
    rw [exceptedOf_ok hrow, List.any_cons, ← ih]
    cases (row.get "is_applied").truthy <;> rfl

/-- The rows a table answers with; `none` where the read fails or is malformed. -/
def answered (db : Option Database) (table : String) (conditions : List (String × Json)) : Option (List Json) :=
  match db with
  | none => none
  | some find =>
    match find table conditions rowLimit with
    | some (.arr rows) => some rows
    | _ => none

/-- The first thing wrong with the exceptions of an agent. -/
def exceptionsProblem (db : Option Database) (workflowId : Option String) (policyType : String) : Option Problem :=
  if !hasWorkflow workflowId then none
  else
    match answered db exceptionsTable (exceptionConditions workflowId policyType) with
    | none => some .refused
    | some rows => rows.findSome? exceptionProblem

/-- The exceptions that were read; none are without an agent. -/
def Excepts (db : Option Database) (workflowId : Option String) (policyType : String) (exceptions : List Json) : Prop :=
  if hasWorkflow workflowId then
    answered db exceptionsTable (exceptionConditions workflowId policyType) = some exceptions
  else exceptions = []

theorem exceptedPolicyIdsStrict_spec (db : Option Database) (workflowId : Option String) (policyType : String)
    (request : Request) :
    problemOf (exceptedPolicyIdsStrict db workflowId policyType request) = exceptionsProblem db workflowId policyType ∧
      ∀ excluded, exceptedPolicyIdsStrict db workflowId policyType request = .ok excluded →
        ∃ exceptions, Excepts db workflowId policyType exceptions ∧
          ∀ id, (excluded.any fun x => pyEq id x) = isExcepted exceptions id := by
  unfold exceptedPolicyIdsStrict exceptionsProblem Excepts answered
  cases hasWorkflow workflowId with
  | false => exact ⟨rfl, fun excluded h => ⟨[], rfl, fun id => by rw [← Except.ok.inj h]; rfl⟩⟩
  | true =>
    cases db with
    | none => exact ⟨rfl, fun excluded h => by cases h⟩
    | some find =>
      dsimp only
      cases find exceptionsTable (exceptionConditions workflowId policyType) rowLimit with
      | none => exact ⟨rfl, fun excluded h => by cases h⟩
      | some answer =>
        cases answer with
        | arr rows =>
          constructor
          · change problemOf (rows.mapM (exceptedOf request) >>= fun excluded => pure excluded.reduceOption) =
              rows.findSome? exceptionProblem
            have hrows : problemOf (rows.mapM (exceptedOf request)) = rows.findSome? exceptionProblem := by
              rw [problemOf_mapM]
              simp only [problemOf_exceptedOf]
            rw [← hrows]
            refine (problemOf_bind fun _ _ => ?_).trans Option.or_none
            rfl
          · intro excluded h
            obtain ⟨options, hoptions, hexcluded⟩ := bind_ok h
            refine ⟨rows, rfl, fun id => ?_⟩
            rw [← Except.ok.inj hexcluded]
            exact excluded_any (mapM_eq_ok hoptions) id
        | _ => exact ⟨rfl, fun excluded h => by cases h⟩

end XgenSdk.Loading
