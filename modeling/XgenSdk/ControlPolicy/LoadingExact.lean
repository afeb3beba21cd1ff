import XgenSdk.ControlPolicy.LoadingRules

/-! When the strict loader is exact: off only where the store says so, loaded
only with every read answered and one rule for each row, and else a failure. -/
namespace XgenSdk.Loading
open XgenSdk.Py XgenSdk.Settings
open XgenSdk.Checks (ok_bind bind_ok)

/-! What the switches say. -/

/-- The switch a value spells. -/
def asSwitch (value : Json) : Option Bool :=
  match value with
  | .bool b => some b
  | .null => none
  | value => wordSwitch (folded value.toStr)

/-- How a switch is spelled: by the store, and by the environment where the store holds nothing. -/
def spelled (config : Config) (environ : Environ) (name : String) : Option Bool :=
  match config with
  | none => none
  | some getConfigByName =>
    match getConfigByName name with
    | .raised => none
    | .nothing => asSwitch (fromEnviron environ name)
    | .found cfg => asSwitch (if isBlank cfg.value then fromEnviron environ name else cfg.value)

/-- The store did not answer for a switch. -/
def unanswered (config : Config) (name : String) : Bool :=
  match config with
  | none => true
  | some getConfigByName =>
    match getConfigByName name with
    | .raised => true
    | .nothing => false
    | .found cfg =>
      match cfg.probe with
      | .error => true
      | _ => false

/-- What the store answers for a switch, or the environment where the answer is that it is not set. -/
def tells (config : Config) (environ : Environ) (name : String) : Option Bool :=
  if unanswered config name then none else spelled config environ name

variable (config : Config) (environ : Environ) (scope : String)

/-- The switches of a kind that are read. -/
def switchesOf (kind : PolicyKind) : List String :=
  if spelled config environ kind.enableFlag = some true then [kind.enableFlag, scopeKey kind scope]
  else [kind.enableFlag]

def switchesRead : List String := kinds.flatMap (switchesOf config environ scope)

def enabledBy (read : String → Option Bool) : List PolicyKind :=
  kinds.filter fun kind => read kind.enableFlag = some true && read (scopeKey kind scope) = some true

/-! What is loaded. -/

section
variable {P : Type} (regex : Regex P) (db : Option Database) (workflowId : Option String)

/-- One rule for each active row of a kind that masks, in row order, less the excepted ones; with every
read of the kind answered. -/
def LoadsKind (kind : PolicyKind) (rules : List (MaskingRule P)) : Prop :=
  ∃ rows exceptions, answered db kind.table activeConditions = some rows ∧
    Excepts db workflowId kind.policyType exceptions ∧
    List.Forall₂ (RuleFor regex kind.policyType)
      (rows.filter fun row => masks row && !isExcepted exceptions (row.get "id")) rules

/-- The loader returns, and what it returns can be relied on. -/
structure Exact (outcome : Except Raised (PolicyLoadResult P)) : Prop where
  returns : ∃ result, outcome = .ok result
  disabled : ∀ s, outcome = .ok (.disabled s) → ∀ name ∈ switchesRead config environ scope,
    spelled config environ name = some false → tells config environ name = some false
  loaded : ∀ rules revision s, outcome = .ok (.loaded rules revision s) →
    (∀ name ∈ switchesRead config environ scope, unanswered config name = false) ∧
    ∃ found, List.Forall₂ (LoadsKind regex db workflowId) (enabledBy scope (tells config environ)) found ∧
      rules = found.flatten

/-! When it can. -/

/-- A row that masks and whose id cannot be looked up in a set. -/
def idProblem (row : Json) : Option Problem :=
  if masks row && !isHashable (row.get "id") then some .escapes else none

/-- The first thing wrong with the tables of a kind. -/
def kindProblem (kind : PolicyKind) : Option Problem :=
  match answered db kind.table activeConditions with
  | none => some .refused
  | some rows =>
    (exceptionsProblem db workflowId kind.policyType).or
      ((rows.findSome? (rowProblem regex)).or (rows.findSome? idProblem))

/-- Either some switch is not spelled, and the call is refused; or no switch that counts is spelled by
the environment for a store that did not answer, and no exception escapes from the tables. -/
def Reliable : Prop :=
  isScope scope = true → (∀ name ∈ switchesRead config environ scope, spelled config environ name ≠ none) →
    if enabledBy scope (spelled config environ) = [] then
      ∀ name ∈ switchesRead config environ scope, spelled config environ name = some false → unanswered config name = false
    else
      (enabledBy scope (spelled config environ)).findSome? (kindProblem regex db workflowId) ≠ some .escapes ∧
      ((enabledBy scope (spelled config environ)).findSome? (kindProblem regex db workflowId) = none →
        ∀ name ∈ switchesRead config environ scope, unanswered config name = false)

end

/-! Reading the switches. -/

/-- A call answers, or is refused with a policy error. -/
inductive Settles {α : Type} : Except Raised α → Option α → Prop
  | answers (a : α) : Settles (.ok a) (some a)
  | refused (error : PolicyError) : Settles (.error (.policy error)) none

theorem Settles.answer {α : Type} {x : Except Raised α} {a : α} (h : Settles x (some a)) : x = .ok a := by
  cases h with
  | answers => rfl

theorem Settles.refusal {α : Type} {x : Except Raised α} (h : Settles x none) : ∃ error, x = .error (.policy error) := by
  cases h with
  | refused error => exact ⟨error, rfl⟩

variable (request : Request)

theorem answerOf_settles (word : Option Bool) : Settles (answerOf request word) word := by
  cases word with
  | none => exact .refused _
  | some b => exact .answers b

theorem strictBool_settles (value : Json) : Settles (strictBool request value) (asSwitch value) := by
  cases value with
  | bool b => exact .answers b
  | null => exact .refused _
  | _ =>
    simp only [strictBool, asSwitch]
    exact answerOf_settles request _

theorem configFlagStrict_settles (name : String) :
    Settles (configFlagStrict config environ request name) (spelled config environ name) := by
  unfold configFlagStrict spelled
  cases config with
  | none => exact .refused _
  | some getConfigByName =>
    dsimp only
    cases getConfigByName name with
    | raised => exact .refused _
    | nothing => exact strictBool_settles request _
    | found cfg => exact strictBool_settles request _

/-- Reading a reader of the same kind changes nothing. -/
theorem strictReader_settles (name : String) (default : Bool) :
    Settles (strictReader (some (strictReader none config environ request)) config environ request name default)
      (spelled config environ name) := by
  have hread := configFlagStrict_settles config environ request name
  unfold strictReader
  dsimp only
  cases hspelled : spelled config environ name with
  | none =>
    rw [hspelled] at hread
    obtain ⟨error, herror⟩ := hread.refusal
    rw [herror]
    exact .refused error
  | some b =>
    rw [hspelled] at hread
    rw [show configFlagStrict config environ request name = .ok b from hread.answer]
    exact .answers b

/-- Whether a kind is in use, where its switches are spelled. -/
def scopeOn (kind : PolicyKind) : Option Bool :=
  match spelled config environ kind.enableFlag with
  | none => none
  | some false => some false
  | some true => spelled config environ (scopeKey kind scope)

theorem scopeOnStrict_settles (kind : PolicyKind) (hscope : isScope scope = true) :
    Settles (scopeOnStrict (some (strictReader none config environ request)) config environ request scope kind)
      (scopeOn config environ scope kind) := by
  have henable := strictReader_settles config environ request kind.enableFlag false
  unfold scopeOnStrict scopeOn
  rw [hscope, Bool.not_true, if_neg Bool.false_ne_true]
  dsimp only
  cases hspelled : spelled config environ kind.enableFlag with
  | none =>
    rw [hspelled] at henable
    obtain ⟨error, herror⟩ := henable.refusal
    rw [herror]
    exact .refused error
  | some b =>
    rw [hspelled] at henable
    rw [show strictReader _ config environ request kind.enableFlag false = .ok b from henable.answer]
    cases b with
    | false => exact .answers false
    | true => exact strictReader_settles config environ request _ _

theorem keepWhere_settles {α : Type} {test : α → Except Raised Bool} {value : α → Option Bool} (xs : List α)
    (h : ∀ x ∈ xs, Settles (test x) (value x)) :
    Settles (keepWhere test xs)
      (if ∀ x ∈ xs, value x ≠ none then some (xs.filter fun x => value x = some true) else none) := by
  induction xs with
  | nil => exact .answers []
  | cons x xs ih =>
    have hrest := ih fun y hy => h y (List.mem_cons_of_mem _ hy)
    have hx := h x List.mem_cons_self
    rw [keepWhere]
    cases hvalue : value x with
    | none =>
      rw [hvalue] at hx
      obtain ⟨error, herror⟩ := hx.refusal
      rw [herror, if_neg (fun hall => hall x List.mem_cons_self hvalue)]
      exact .refused error
    | some b =>
      rw [hvalue] at hx
      rw [show test x = .ok b from hx.answer]
      by_cases hall : ∀ y ∈ xs, value y ≠ none
      · rw [if_pos hall] at hrest
        have hcons : ∀ y ∈ x :: xs, value y ≠ none := by
          intro y hy
          obtain rfl | hy := List.mem_cons.mp hy
          · rw [hvalue]
            exact Option.some_ne_none b
          · exact hall y hy
        rw [if_pos hcons, show keepWhere test xs = .ok _ from hrest.answer]
        cases b with
        | false => simpa [hvalue] using Settles.answers _
        | true => simpa [hvalue] using Settles.answers _
      · rw [if_neg hall] at hrest
        obtain ⟨error, herror⟩ := hrest.refusal
        rw [herror, if_neg (fun hcons => hall fun y hy => hcons y (List.mem_cons_of_mem _ hy))]
        exact .refused error

theorem scopeOn_eq_none (kind : PolicyKind) :
    scopeOn config environ scope kind = none ↔
      ∃ name ∈ switchesOf config environ scope kind, spelled config environ name = none := by
  unfold scopeOn switchesOf
  cases henable : spelled config environ kind.enableFlag with
  | none => simp [henable]
  | some b => cases b <;> simp [henable]

theorem scopeOn_eq_true (kind : PolicyKind) :
    scopeOn config environ scope kind = some true ↔
      spelled config environ kind.enableFlag = some true ∧ spelled config environ (scopeKey kind scope) = some true := by
  unfold scopeOn
  cases henable : spelled config environ kind.enableFlag with
  | none => simp
  | some b => cases b <;> simp

/-- The kinds in use are read where every switch that counts is spelled, and else the call is refused. -/
theorem kindsOnStrict_settles (hscope : isScope scope = true) :
    Settles (kindsOnStrict none config environ request scope)
      (if ∀ name ∈ switchesRead config environ scope, spelled config environ name ≠ none then
        some (enabledBy scope (spelled config environ)) else none) := by
  have hkinds := keepWhere_settles kinds fun kind _ => scopeOnStrict_settles config environ scope request kind hscope
  have hnames : (∀ kind ∈ kinds, scopeOn config environ scope kind ≠ none) ↔
      ∀ name ∈ switchesRead config environ scope, spelled config environ name ≠ none := by
    simp only [switchesRead, List.mem_flatMap, ne_eq, scopeOn_eq_none, not_exists, not_and, forall_exists_index, and_imp]
    exact ⟨fun h name kind hkind hname => h kind hkind name hname, fun h kind hkind name hname => h name kind hkind hname⟩
  have henabled : (kinds.filter fun kind => scopeOn config environ scope kind = some true) =
      enabledBy scope (spelled config environ) := by
    unfold enabledBy
    refine List.filter_congr fun kind _ => ?_
    rw [Bool.eq_iff_iff]
    simp only [decide_eq_true_eq, Bool.and_eq_true, scopeOn_eq_true]
  rw [henabled] at hkinds
  unfold kindsOnStrict
  by_cases hall : ∀ kind ∈ kinds, scopeOn config environ scope kind ≠ none
  · rw [if_pos hall] at hkinds
    rw [if_pos (hnames.mp hall)]
    exact hkinds
  · rw [if_neg hall] at hkinds
    rw [if_neg (fun h => hall (hnames.mpr h))]
    exact hkinds

/-- A place that is none is refused. -/
theorem kindsOnStrict_unknown (hscope : isScope scope = false) :
    ∃ error, kindsOnStrict none config environ request scope = .error (.policy error) := by
  unfold kindsOnStrict kinds
  rw [keepWhere, scopeOnStrict, hscope]
  exact ⟨_, rfl⟩

/-! Loading a kind. -/

variable {P : Type} (regex : Regex P) (db : Option Database) (workflowId : Option String)

theorem activeRows_settles (kind : PolicyKind) :
    Settles (activeRows db kind request) (answered db kind.table activeConditions) := by
  unfold activeRows answered
  cases db with
  | none => exact .refused _
  | some find =>
    dsimp only
    cases find kind.table activeConditions rowLimit with
    | none => exact .refused _
    | some answer =>
      cases answer with
      | arr rows => exact .answers rows
      | _ => exact .refused _

theorem keepWhere_ok {α : Type} {test : α → Except Raised Bool} {keep : α → Bool} {xs kept : List α}
    (htest : ∀ x b, test x = .ok b → b = keep x) (h : keepWhere test xs = .ok kept) : kept = xs.filter keep := by
  induction xs generalizing kept with
  | nil => exact (Except.ok.inj h).symm
  | cons x xs ih =>
    rw [keepWhere] at h
    cases hx : test x with
    | error raised => rw [hx] at h; cases h
    | ok b =>
      cases hxs : keepWhere test xs with
      | error raised => rw [hx, hxs] at h; cases h
      | ok rest =>
        rw [hx, hxs] at h
        rw [← Except.ok.inj h, ih hxs, List.filter_cons, htest x b hx]

theorem problemOf_notIn {excluded : List Json} {policyType : String} {rows : List Json} {compiled : List (MaskingRule P)}
    (h : List.Forall₂ (RuleFor regex policyType) (rows.filter masks) compiled) :
    problemOf (keepWhere (fun rule : MaskingRule P => notIn excluded rule.policyId) compiled) =
      rows.findSome? idProblem := by
  have hid : ∀ value, problemOf (notIn excluded value) = if isHashable value then none else some .escapes := by
    intro value
    unfold notIn
    cases isHashable value <;> rfl
  rw [problemOf_keepWhere]
  simp only [hid]
  induction rows generalizing compiled with
  | nil =>
    cases h
    rfl
  | cons row rows ih =>
    rw [List.findSome?_cons, idProblem]
    cases hmasks : masks row with
    | false =>
      rw [List.filter_cons_of_neg (by rw [hmasks]; decide)] at h
      exact ih h
    | true =>
      rw [List.filter_cons_of_pos hmasks] at h
      cases h with
      | cons hrule hrules =>
        rw [List.findSome?_cons, hrule.policyId, ih hrules]
        cases isHashable (row.get "id") <;> rfl

/-- The rules that are kept are those of the rows that are. -/
theorem kept_rules {excluded exceptions : List Json} {policyType : String} {rows : List Json}
    {compiled kept : List (MaskingRule P)} (h : List.Forall₂ (RuleFor regex policyType) (rows.filter masks) compiled)
    (hexcluded : ∀ id, (excluded.any fun x => pyEq id x) = isExcepted exceptions id)
    (hkept : keepWhere (fun rule : MaskingRule P => notIn excluded rule.policyId) compiled = .ok kept) :
    List.Forall₂ (RuleFor regex policyType)
      (rows.filter fun row => masks row && !isExcepted exceptions (row.get "id")) kept := by
  have hfilter : kept = compiled.filter fun rule => !isExcepted exceptions rule.policyId := by
    refine keepWhere_ok (fun rule b hb => ?_) hkept
    unfold notIn at hb
    split at hb
    · rw [← Except.ok.inj hb, hexcluded]
    · cases hb
  have hrows : (rows.filter fun row => masks row && !isExcepted exceptions (row.get "id")) =
      (rows.filter masks).filter fun row => !isExcepted exceptions (row.get "id") := by
    rw [List.filter_filter]
    refine List.filter_congr fun row _ => ?_
    rw [Bool.and_comm]
  rw [hfilter, hrows]
  refine List.rel_filter (fun row rule hrule => ?_) h
  change (!isExcepted exceptions (row.get "id")) = true ↔ (!isExcepted exceptions rule.policyId) = true
  rw [hrule.policyId]

/-- Loading a kind fails as its tables do, and else gives exactly its rules. -/
theorem loadRules_spec (kind : PolicyKind) (s revision : Option String) :
    problemOf (loadRules regex db kind workflowId .skip s revision request) = kindProblem regex db workflowId kind ∧
      ∀ result, loadRules regex db kind workflowId .skip s revision request = .ok result →
        ∃ rules found, result = .loaded rules found s ∧ LoadsKind regex db workflowId kind rules := by
  have hactive := activeRows_settles request db kind
  obtain ⟨hproblem, hexcluded⟩ := exceptedPolicyIdsStrict_spec db workflowId kind.policyType request
  unfold loadRules kindProblem LoadsKind
  cases hanswered : answered db kind.table activeConditions with
  | none =>
    rw [hanswered] at hactive
    obtain ⟨error, herror⟩ := hactive.refusal
    rw [herror]
    exact ⟨rfl, fun result h => by cases h⟩
  | some rows =>
    rw [hanswered] at hactive
    obtain ⟨hcompile, hrules⟩ := @compileRulesStrict_spec P regex rows kind.policyType request
    rw [show activeRows db kind request = .ok rows from hactive.answer, ok_bind]
    constructor
    · dsimp only
      rw [← hproblem, ← hcompile]
      refine problemOf_bind fun excluded _ => problemOf_bind fun compiled hcompiled => ?_
      rw [← problemOf_notIn regex (hrules compiled hcompiled)]
      refine (problemOf_bind fun _ _ => ?_).trans Option.or_none
      rfl
    · intro result h
      obtain ⟨excluded, hexcept, h⟩ := bind_ok h
      obtain ⟨compiled, hcompiled, h⟩ := bind_ok h
      obtain ⟨kept, hkept, h⟩ := bind_ok h
      obtain ⟨exceptions, hread, hany⟩ := hexcluded excluded hexcept
      exact ⟨kept, _, (Except.ok.inj h).symm, rows, exceptions, rfl, hread,
        kept_rules regex (hrules compiled hcompiled) hany hkept⟩

theorem loadRulesStrict_spec (kind : PolicyKind) (s revision : Option String) :
    match kindProblem regex db workflowId kind with
    | none => ∃ rules found, loadRulesStrict regex db kind workflowId .skip s revision request = .ok (.loaded rules found s) ∧
        LoadsKind regex db workflowId kind rules
    | some .refused => ∃ error, loadRulesStrict regex db kind workflowId .skip s revision request = .ok (failure error s)
    | some .escapes => ∃ raised, loadRulesStrict regex db kind workflowId .skip s revision request = .error raised := by
  obtain ⟨hproblem, hloaded⟩ := loadRules_spec request regex db workflowId kind s revision
  unfold loadRulesStrict
  cases hkind : kindProblem regex db workflowId kind with
  | none =>
    obtain ⟨result, hresult⟩ := problemOf_eq_none (hproblem.trans hkind)
    obtain ⟨rules, found, rfl, hloads⟩ := hloaded result hresult
    rw [hresult]
    exact ⟨rules, found, rfl, hloads⟩
  | some problem =>
    cases problem with
    | refused =>
      obtain ⟨error, herror⟩ := problemOf_refused (hproblem.trans hkind)
      rw [herror]
      exact ⟨error, rfl⟩
    | escapes =>
      obtain ⟨raised, hraised, hother⟩ := problemOf_escapes (hproblem.trans hkind)
      rw [hraised]
      refine ⟨raised, ?_⟩
      cases raised with
      | policy error => exact absurd rfl (hother error)
      | _ => rfl

/-- The kinds are loaded one after the other; the first one with a problem decides. -/
theorem loadKinds_spec (enabled : List PolicyKind) (rules : List (MaskingRule P)) (revisions : List String) :
    match enabled.findSome? (kindProblem regex db workflowId) with
    | none => ∃ found revision, loadKinds regex db workflowId scope request rules revisions enabled =
        .ok (.loaded (rules ++ found.flatten) revision (some scope)) ∧
        List.Forall₂ (LoadsKind regex db workflowId) enabled found
    | some .refused => ∃ error, loadKinds regex db workflowId scope request rules revisions enabled =
        .ok (failure error (some scope))
    | some .escapes => ∃ raised, loadKinds regex db workflowId scope request rules revisions enabled = .error raised := by
  induction enabled generalizing rules revisions with
  | nil => exact ⟨[], joined revisions, by simp [loadKinds], .nil⟩
  | cons kind rest ih =>
    have hkind := loadRulesStrict_spec request regex db workflowId kind (some scope) none
    rw [List.findSome?_cons]
    unfold loadKinds
    cases hproblem : kindProblem regex db workflowId kind with
    | none =>
      rw [hproblem] at hkind
      obtain ⟨here, revision, hload, hloads⟩ := hkind
      rw [hload]
      dsimp only
      have hrest := ih (rules ++ here) (addRevision kind revision revisions)
      cases hlater : rest.findSome? (kindProblem regex db workflowId) with
      | none =>
        rw [hlater] at hrest
        obtain ⟨found, later, hloaded, hall⟩ := hrest
        exact ⟨here :: found, later, by rw [hloaded, List.flatten_cons, List.append_assoc], .cons hloads hall⟩
      | some problem =>
        rw [hlater] at hrest
        cases problem <;> exact hrest
    | some problem =>
      rw [hproblem] at hkind
      cases problem with
      | refused =>
        obtain ⟨error, herror⟩ := hkind
        refine ⟨error, ?_⟩
        rw [herror, failure]
        cases error.cls <;> rfl
      | escapes =>
        obtain ⟨raised, hraised⟩ := hkind
        exact ⟨raised, by rw [hraised]⟩

/-! The loader. -/

/-- Where every read of a switch was answered, what it is spelled is what it is answered. -/
theorem tells_eq_spelled {name : String} (h : unanswered config name = false) :
    tells config environ name = spelled config environ name := by
  rw [tells, h]
  rfl

/-- The kinds in use are those the answers put in use, where every switch that is read was answered. -/
theorem enabledBy_tells (h : ∀ name ∈ switchesRead config environ scope, unanswered config name = false) :
    enabledBy scope (tells config environ) = enabledBy scope (spelled config environ) := by
  unfold enabledBy
  refine List.filter_congr fun kind hkind => ?_
  have hread : ∀ name ∈ switchesOf config environ scope kind, tells config environ name = spelled config environ name :=
    fun name hname => tells_eq_spelled config environ (h name (List.mem_flatMap.mpr ⟨kind, hkind, hname⟩))
  unfold switchesOf at hread
  by_cases henable : spelled config environ kind.enableFlag = some true
  · rw [if_pos henable] at hread
    rw [hread kind.enableFlag (by simp), hread (scopeKey kind scope) (by simp)]
  · rw [if_neg henable] at hread
    rw [hread kind.enableFlag (by simp)]
    simp [henable]

/-- What the loader returns, by what the switches are spelled and the first thing wrong with the tables. -/
theorem loadScopeRulesStrict_spec (hscope : isScope scope = true) :
    if ∀ name ∈ switchesRead config environ scope, spelled config environ name ≠ none then
      if enabledBy scope (spelled config environ) = [] then
        loadScopeRulesStrict regex db scope workflowId none config environ request = .ok (.disabled (some scope))
      else
        loadScopeRulesStrict regex db scope workflowId none config environ request =
          loadKinds regex db workflowId scope request [] [] (enabledBy scope (spelled config environ))
    else ∃ error, loadScopeRulesStrict regex db scope workflowId none config environ request =
      .ok (failure error (some scope)) := by
  have hkinds := kindsOnStrict_settles config environ scope request hscope
  unfold loadScopeRulesStrict
  by_cases hall : ∀ name ∈ switchesRead config environ scope, spelled config environ name ≠ none
  · rw [if_pos hall] at hkinds ⊢
    rw [show kindsOnStrict none config environ request scope = .ok _ from hkinds.answer]
    cases enabledBy scope (spelled config environ) with
    | nil => rfl
    | cons kind rest => rfl
  · rw [if_neg hall] at hkinds ⊢
    obtain ⟨error, herror⟩ := hkinds.refusal
    rw [herror]
    exact ⟨error, rfl⟩

theorem exact_of_failure (error : PolicyError) {outcome : Except Raised (PolicyLoadResult P)}
    (h : outcome = .ok (failure error (some scope))) : Exact config environ scope regex db workflowId outcome := by
  have hfailure : ∀ (s : Option String) (rules : List (MaskingRule P)) (revision : Option String),
      failure error (some scope) ≠ PolicyLoadResult.disabled (P := P) s ∧
      failure error (some scope) ≠ PolicyLoadResult.loaded rules revision s := by
    intro s rules revision
    unfold failure
    cases error.cls with
    | unavailable => exact ⟨by simp, by simp⟩
    | invalid => exact ⟨by simp, by simp⟩
  constructor
  · exact ⟨_, h⟩
  · intro s hs
    exact absurd (Except.ok.inj (h.symm.trans hs)) (hfailure s [] none).1
  · intro rules revision s hs
    exact absurd (Except.ok.inj (h.symm.trans hs)) (hfailure s rules revision).2

theorem exact_disabled_iff :
    Exact config environ scope regex db workflowId (.ok (.disabled (some scope)) : Except Raised (PolicyLoadResult P)) ↔
      ∀ name ∈ switchesRead config environ scope, spelled config environ name = some false →
        unanswered config name = false := by
  constructor
  · intro h name hname hoff
    have htells := h.disabled _ rfl name hname hoff
    cases hun : unanswered config name with
    | false => rfl
    | true =>
      rw [tells, hun] at htells
      cases htells
  · intro h
    refine ⟨⟨_, rfl⟩, fun s _ name hname hoff => ?_, fun rules revision s hs => by cases hs⟩
    rw [tells_eq_spelled config environ (h name hname hoff)]
    exact hoff

theorem exact_loaded_iff {found : List (List (MaskingRule P))} {revision : Option String}
    (hfound : List.Forall₂ (LoadsKind regex db workflowId) (enabledBy scope (spelled config environ)) found) :
    Exact config environ scope regex db workflowId (.ok (.loaded found.flatten revision (some scope))) ↔
      ∀ name ∈ switchesRead config environ scope, unanswered config name = false := by
  constructor
  · intro h
    exact (h.loaded _ _ _ rfl).1
  · intro h
    constructor
    · exact ⟨_, rfl⟩
    · intro s hs
      cases hs
    · intro rules revision' s hs
      refine ⟨h, found, ?_, ?_⟩
      · rw [enabledBy_tells config environ scope h]
        exact hfound
      · cases hs
        rfl

/-- The strict loader is exact just where no switch that counts is spelled by the environment for a store
that did not answer, and no exception escapes from what the tables hold. -/
theorem loadScopeRulesStrict_exact_iff :
    Exact config environ scope regex db workflowId
        (loadScopeRulesStrict regex db scope workflowId none config environ request) ↔
      Reliable config environ scope regex db workflowId := by
  unfold Reliable
  cases hscope : isScope scope with
  | false =>
    obtain ⟨error, herror⟩ := kindsOnStrict_unknown config environ scope request hscope
    refine iff_of_true ?_ (fun h => by cases h)
    refine exact_of_failure config environ scope regex db workflowId error ?_
    rw [loadScopeRulesStrict, herror]
  | true =>
    have hspec := loadScopeRulesStrict_spec config environ scope request regex db workflowId hscope
    by_cases hall : ∀ name ∈ switchesRead config environ scope, spelled config environ name ≠ none
    · rw [if_pos hall] at hspec
      refine Iff.trans ?_ ⟨fun h _ _ => h, fun h => h rfl hall⟩
      by_cases hnone : enabledBy scope (spelled config environ) = []
      · rw [if_pos hnone] at hspec ⊢
        rw [hspec]
        exact exact_disabled_iff config environ scope regex db workflowId
      · rw [if_neg hnone] at hspec ⊢
        rw [hspec]
        have hkinds := loadKinds_spec scope request regex db workflowId (enabledBy scope (spelled config environ)) [] []
        cases hproblem : (enabledBy scope (spelled config environ)).findSome? (kindProblem regex db workflowId) with
        | none =>
          rw [hproblem] at hkinds
          obtain ⟨found, revision, hloaded, hfound⟩ := hkinds
          rw [hloaded, List.nil_append, exact_loaded_iff config environ scope regex db workflowId hfound]
          simp
        | some problem =>
          rw [hproblem] at hkinds
          cases problem with
          | refused =>
            obtain ⟨error, herror⟩ := hkinds
            exact iff_of_true (exact_of_failure config environ scope regex db workflowId error herror) (by simp)
          | escapes =>
            obtain ⟨raised, hraised⟩ := hkinds
            rw [hraised]
            refine iff_of_false (fun h => ?_) (by simp)
            obtain ⟨result, hresult⟩ := h.returns
            cases hresult
    · rw [if_neg hall] at hspec
      obtain ⟨error, herror⟩ := hspec
      refine iff_of_true ?_ (fun _ h => absurd h hall)
      exact exact_of_failure config environ scope regex db workflowId error herror

/-- A settings store that is down, and an environment that still spells every switch off. -/
def outage : Manager := ⟨some fun _ => none, fun _ => .raised⟩

def allOff : Environ := fun _ => some "off"

def literals : Regex String := ⟨.pattern, fun _ => [], fun _ _ => true⟩

/-- With the store down the loader says that protection is switched off. -/
theorem outage_disables :
    ¬ Exact outage.client allOff "BLOCK_CHAT_INPUT" literals none none
      (loadScopeRulesStrict literals none "BLOCK_CHAT_INPUT" none none outage.client allOff ⟨none, "0"⟩) := by
  have hspelled : ∀ name, spelled outage.client allOff name = some false := by
    intro name
    have hoff : asSwitch (.str "off") = some false := by decide
    exact hoff
  have hscope : isScope "BLOCK_CHAT_INPUT" = true := by decide
  have hspec := loadScopeRulesStrict_spec outage.client allOff "BLOCK_CHAT_INPUT" ⟨none, "0"⟩ literals none none hscope
  have hnone : enabledBy "BLOCK_CHAT_INPUT" (spelled outage.client allOff) = [] := by
    simp [enabledBy, hspelled]
  rw [if_pos (fun name _ h => by rw [hspelled name] at h; cases h), if_pos hnone] at hspec
  rw [hspec, exact_disabled_iff]
  intro h
  have hread : pii.enableFlag ∈ switchesRead outage.client allOff "BLOCK_CHAT_INPUT" := by
    simp [switchesRead, switchesOf, hspelled, kinds]
  have hanswered := h pii.enableFlag hread (hspelled _)
  cases hanswered

end XgenSdk.Loading
