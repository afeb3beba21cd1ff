import XgenSdk.ComfyUi.Applied
import XgenSdk.Lib.Outcomes

/-! Randomised parameters that are left empty: what is drawn, and when it is a value
the parameter itself would take. -/
namespace XgenSdk.ComfyUi
open XgenSdk.Py XgenSdk.Outcomes
variable {fl : Floats} {p : Param} {n : Int}

/-- `randint(low, high)`: any integer of the range, where it is not empty. -/
def InRange (randint : Int → Int → Int) : Prop := ∀ low high, low ≤ high → low ≤ randint low high ∧ randint low high ≤ high

/-- The least integer that the minimum allows, from zero on where there is none. -/
def lowest (fl : Floats) (p : Param) : Int := ((fl.number p.minimum).getD 0).ceil

/-- The lowest integer, and what lies above it up to the maximum and to `2 ** 53 - 1`. -/
def MayDraw (fl : Floats) (p : Param) (n : Int) : Prop :=
  n = lowest fl p ∨ lowest fl p ≤ n ∧ n ≤ randomMax ∧ ∀ high, fl.number p.maximum = some high → (n : Rat) ≤ high

/-- Some integer lies between the bounds, and those that may be drawn are choices. -/
def DrawsFit (fl : Floats) (p : Param) : Prop :=
  (∀ high, fl.number p.maximum = some high → (lowest fl p : Rat) ≤ high) ∧
    (hasChoices p = true → ∀ n, MayDraw fl p n → fl.isIn (.int n) (p.choices.getD []) = true)

theorem randomBounds_le : (randomBounds fl p).1 ≤ (randomBounds fl p).2 := Int.le_max_left _ _

theorem le_high_iff : n ≤ ((((fl.number p.maximum).map fun q => if (randomMax : Rat) < q then (randomMax : Rat) else q).getD
    (randomMax : Rat)).floor) ↔ n ≤ randomMax ∧ ∀ high, fl.number p.maximum = some high → (n : Rat) ≤ high := by
  rw [Rat.le_floor_iff]
  cases hmax : fl.number p.maximum with
  | none =>
    rw [Option.map_none, Option.getD_none, Rat.intCast_le_intCast]
    exact (and_iff_left fun high hhigh => by cases hhigh).symm
  | some q =>
    rw [Option.map_some, Option.getD_some]
    simp only [Option.some.injEq, forall_eq']
    split
    · rename_i hlarge
      rw [Rat.intCast_le_intCast]
      refine (and_iff_left_of_imp fun hle => ?_).symm
      exact Rat.le_trans (Rat.intCast_le_intCast.mpr hle) (Rat.le_of_lt hlarge)
    · rename_i hsmall
      refine (and_iff_right_of_imp fun hle => ?_).symm
      exact Rat.intCast_le_intCast.mp (Rat.le_trans hle (Rat.not_lt.mp hsmall))

/-- The range that is drawn from. -/
theorem mem_randomBounds : (randomBounds fl p).1 ≤ n ∧ n ≤ (randomBounds fl p).2 ↔ MayDraw fl p n := by
  have hhigh : n ≤ (randomBounds fl p).2 ↔ n ≤ lowest fl p ∨
      n ≤ randomMax ∧ ∀ high, fl.number p.maximum = some high → (n : Rat) ≤ high := by
    rw [← le_high_iff]
    exact le_max_iff
  rw [hhigh, MayDraw]
  change lowest fl p ≤ n ∧ _ ↔ _
  constructor
  · rintro ⟨hlow, hle | hle⟩
    · exact .inl (le_antisymm hle hlow)
    · exact .inr ⟨hlow, hle⟩
  · rintro (rfl | ⟨hlow, hle⟩)
    · exact ⟨le_rfl, .inl le_rfl⟩
    · exact ⟨hlow, .inr hle⟩

/-- `_coerce` of an integer. -/
theorem coerce_int_iff (htype : p.type = "integer") :
    coerce fl p (.int n) = .ok (.int n) ↔ outOfRange fl p (.int n) = false ∧ notInChoices fl p (.int n) = false := by
  have hcoerce : coerceType fl p (.int n) = .ok (.int n) := by
    rw [coerceType, htype]
    rfl
  have hnumeric : isNumeric p.type = true := by rw [htype]; rfl
  rw [coerce, hcoerce]
  change (if (isNumeric p.type && outOfRange fl p (.int n)) = true then _ else _) = _ ↔ _
  rw [hnumeric, Bool.true_and]
  cases outOfRange fl p (.int n) <;> cases notInChoices fl p (.int n) <;> simp

theorem outOfRange_int : outOfRange fl p (.int n) = false ↔ (∀ low, fl.number p.minimum = some low → low ≤ n) ∧
    ∀ high, fl.number p.maximum = some high → (n : Rat) ≤ high := by
  have hn : fl.number (.int n) = some (n : Rat) := rfl
  rw [outOfRange, Bool.or_eq_false_iff]
  refine and_congr ?_ ?_
  · rw [Floats.less, hn]
    cases fl.number p.minimum with
    | none => simp
    | some low => simp [Rat.not_lt]
  · rw [Floats.less, hn]
    cases fl.number p.maximum with
    | none => simp
    | some high => simp [Rat.not_lt]

theorem lowest_le (h : lowest fl p ≤ n) : ∀ low, fl.number p.minimum = some low → low ≤ n := by
  intro low hlow
  rw [lowest, hlow, Option.getD_some, Rat.ceil_le_iff] at h
  exact h

/-- What is drawn is accepted exactly if it fits. -/
theorem drawn_accepted_iff (htype : p.type = "integer") :
    (∀ n, MayDraw fl p n → coerce fl p (.int n) = .ok (.int n)) ↔ DrawsFit fl p := by
  constructor
  · intro h
    refine ⟨fun high hhigh => ?_, fun hsome n hn => ?_⟩
    · exact (outOfRange_int.mp ((coerce_int_iff htype).mp (h _ (.inl rfl))).1).2 high hhigh
    · have hin := ((coerce_int_iff htype).mp (h n hn)).2
      rw [notInChoices, hsome, Bool.true_and, Bool.not_eq_false'] at hin
      exact hin
  · rintro ⟨hhigh, hchoices⟩ n hn
    refine (coerce_int_iff htype).mpr ⟨outOfRange_int.mpr ⟨lowest_le ?_, fun high hmax => ?_⟩, ?_⟩
    · obtain rfl | ⟨hlow, -⟩ := hn
      · exact le_rfl
      · exact hlow
    · obtain rfl | ⟨-, -, hle⟩ := hn
      · exact hhigh high hmax
      · exact hle high hmax
    · cases hsome : hasChoices p with
      | false => rw [notInChoices, hsome, Bool.false_and]
      | true => rw [notInChoices, hchoices hsome n hn, Bool.not_true, Bool.and_false]

/-! ## A run -/

/-- A call that succeeds, with the graph it leaves behind those in memory. -/
def Applies (lib : Libraries) (memory : Memory) (place : Nat) (mapping : RawMapping) (arguments : Json)
    (randint : Nat → Int → Int → Int) (result : Json) : Prop :=
  (applyArguments lib randint place mapping arguments).on memory = (.ok memory.length, memory ++ [result])

/-- What comes of a value is no link. -/
def Plain (x : Except ArgumentError Json) : Prop := Ends (fun _ => True) (fun out => isLink out = false) x

theorem isLink_of_isNumber {v : Json} (h : fl.isNumber v = true) : isLink v = false := by
  cases v with
  | arr xs => cases h
  | _ => rfl

theorem floatArgument_plain (name text : String) : Plain (floatArgument fl name text) := by
  unfold floatArgument
  split
  · exact trivial
  · exact Ends.ite (fun _ => rfl) fun _ => trivial

/-- Every type has texts, numbers or Booleans. -/
theorem coerceType_plain (p : Param) (value : Json) : Plain (coerceType fl p value) := by
  refine Ends.ite (fun _ => ?_) fun _ => Ends.ite (fun _ => ?_) fun _ => Ends.ite (fun _ => ?_) fun _ =>
    Ends.ite (fun _ => ?_) fun _ => trivial
  · split
    · rfl
    · exact Ends.ite (fun _ => rfl) fun _ => trivial
  · refine Ends.ite (fun _ => rfl) fun _ => ?_
    split
    · exact Ends.ite (fun _ => rfl) fun _ => trivial
    · exact trivial
  · refine Ends.ite (fun hnumber => isLink_of_isNumber hnumber) fun _ => ?_
    split
    · exact Ends.ite (fun _ => trivial) fun _ => Ends.ite (fun _ => rfl) fun _ => floatArgument_plain _ _
    · exact trivial
  · split
    · rfl
    · exact Ends.ite (fun _ => rfl) fun _ => Ends.ite (fun _ => rfl) fun _ => trivial
    · exact Ends.ite (fun _ => rfl) fun _ => Ends.ite (fun _ => rfl) fun _ => trivial
    · exact trivial

theorem coerce_plain (p : Param) (value : Json) : Plain (coerce fl p value) := by
  refine (coerceType_plain p value).bind fun out hout => ?_
  exact Ends.ite (fun _ => trivial) fun _ => Ends.ite (fun _ => trivial) fun _ => hout

/-- No parameter sets a link. -/
theorem paramValue_plain (randint : Int → Int → Int) (p : Param) (raw : Json) :
    Ends (fun _ => True) (fun value => ∀ v, value = some v → isLink v = false) (paramValue fl randint p raw) := by
  have hcoerce : ∀ value, Ends (fun _ => True) (fun value => ∀ v, value = some v → isLink v = false)
      (some <$> coerce fl p value) := by
    intro value
    refine (coerce_plain p value).bind fun out hout v hv => ?_
    rw [← Option.some.inj hv]
    exact hout
  refine Ends.ite (fun _ => ?_) fun _ => hcoerce raw
  refine Ends.ite (fun _ v hv => ?_) fun _ => Ends.ite (fun _ => hcoerce p.default) fun _ =>
    Ends.ite (fun _ => trivial) fun _ v hv => ?_
  · rw [← Option.some.inj hv]
    rfl
  · cases hv

/-- What fails for one source fails for all. -/
theorem paramValue_any {randint other : Int → Int → Int} {raw : Json} {value : Option Json}
    (h : paramValue fl randint p raw = .ok value) : ∃ value', paramValue fl other p raw = .ok value' := by
  unfold paramValue at h ⊢
  by_cases hempty : isEmptyArgument p raw = true
  · rw [if_pos hempty] at h ⊢
    by_cases hrandom : (p.randomize && decide (p.type = "integer")) = true
    · rw [if_pos hrandom]
      exact ⟨_, rfl⟩
    · rw [if_neg hrandom] at h ⊢
      exact ⟨value, h⟩
  · rw [if_neg hempty] at h ⊢
    exact ⟨value, h⟩

/-- A parameter that is left empty gets what is drawn. -/
theorem paramValue_empty (hrandom : IsRandomised p) {raw : Json} (hempty : isEmptyArgument p raw = true)
    (randint : Int → Int → Int) :
    paramValue fl randint p raw = .ok (some (.int (randint (randomBounds fl p).1 (randomBounds fl p).2))) := by
  have hboth : (p.randomize && decide (p.type = "integer")) = true := by
    rw [Bool.and_eq_true, decide_eq_true_eq]
    exact hrandom
  rw [paramValue, if_pos hempty, if_pos hboth]

/-- Behind a run that succeeds, every parameter had a value. -/
theorem applyParams_values (randint : Nat → Int → Int → Int) (fields : Fields) (out i : Nat) (params : List Param) :
    Raising.Spec (fun _ => True) (applyParams fl randint fields out i params)
      (fun _ _ => ∀ p ∈ params, ∃ j value, paramValue fl (randint j) p ((Json.lookup p.name fields).getD .null) = .ok value)
      fun _ => True := by
  induction params generalizing i with
  | nil => exact Raising.Spec.pure fun _ _ p hp => by cases hp
  | cons p params ih =>
    refine Raising.Spec.bind_lift (fun value hvalue => ?_) fun _ _ => trivial
    refine Raising.Spec.bind (Raising.Spec.any _) fun _ => (ih (i + 1)).imp (fun _ _ hrest q hq => ?_) fun _ h => h
    obtain rfl | hq := List.mem_cons.mp hq
    · exact ⟨i, value, hvalue⟩
    · exact hrest q hq

section Runs
variable {lib : Libraries} {memory : Memory} {place : Nat} {graph : Json} {mapping : RawMapping} {arguments : Json}
  {fields : Fields} (hgraph : memory[place]? = some graph)
  (hfields : checkedArguments ((normalizeMapping lib mapping).params.map Param.name) arguments = .ok fields)
include hgraph hfields

theorem applyArguments_on (randint : Nat → Int → Int → Int) : (applyArguments lib randint place mapping arguments).on memory =
    ((applyParams lib.toFloats randint fields memory.length 0 (normalizeMapping lib mapping).params).on (memory ++ [graph])).map
      (fun r => r.map fun _ => memory.length) id := by
  have hcopy : memory.getD place .null = graph := by
    rw [List.getD_eq_getElem?_getD, hgraph, Option.getD_some]
  rw [applyArguments, hfields]
  simp only [Raising.on_bind, Raising.on_lift, deepcopy, Raising.on_read, Raising.on_write, Raising.on_pure, hcopy]
  cases (applyParams lib.toFloats randint fields memory.length 0 (normalizeMapping lib mapping).params).on
    (memory ++ [graph]) with
  | mk r t => cases r <;> rfl

/-- A call that succeeds with one source succeeds with all, and sets what each draws. -/
theorem applies_updated (hok : ParamsOk lib.toFloats graph (normalizeMapping lib mapping).params)
    {source : Nat → Int → Int → Int} {result : Json} (h : Applies lib memory place mapping arguments source result)
    (randint : Nat → Int → Int → Int) :
    (∀ p ∈ (normalizeMapping lib mapping).params, ∀ j,
      paramValue lib.toFloats (randint j) p ((Json.lookup p.name fields).getD .null) =
        .ok (valueOf lib.toFloats randint fields j p)) ∧
    Applies lib memory place mapping arguments randint
      (updated graph (updatesFrom (valueOf lib.toFloats randint fields) 0 (normalizeMapping lib mapping).params)) := by
  rw [Applies, applyArguments_on hgraph hfields] at h
  cases hrun : (applyParams lib.toFloats source fields memory.length 0 (normalizeMapping lib mapping).params).on
      (memory ++ [graph]) with
  | mk r t =>
    rw [hrun] at h
    cases r with
    | error e => cases h
    | ok u =>
      have hvalues := (applyParams_values source fields memory.length 0 (normalizeMapping lib mapping).params).on_ok trivial hrun
      have hvalue : ∀ p ∈ (normalizeMapping lib mapping).params, ∀ j,
          paramValue lib.toFloats (randint j) p ((Json.lookup p.name fields).getD .null) =
            .ok (valueOf lib.toFloats randint fields j p) := by
        intro p hp j
        obtain ⟨k, value, hk⟩ := hvalues p hp
        obtain ⟨value', hvalue'⟩ := paramValue_any hk
        rw [hvalue', valueOf_eq hvalue']
      refine ⟨hvalue, ?_⟩
      rw [Applies, applyArguments_on hgraph hfields, applyParams_on memory hvalue (fun p hp j =>
        (paramValue_plain (randint j) p _).of_ok (hvalue p hp j)) hok.inputs]
      rfl

end Runs

theorem updatesFrom_some {value : Nat → Param → Option Json} {i : Nat} {params : List Param} (hp : p ∈ params)
    (hvalue : ∀ j, ∃ v, value j p = some v) {t : Target} (ht : t ∈ p.targets) :
    ∃ j v, value j p = some v ∧ (t, v) ∈ updatesFrom value i params := by
  induction params generalizing i with
  | nil => cases hp
  | cons q params ih =>
    obtain rfl | hp := List.mem_cons.mp hp
    · obtain ⟨v, hv⟩ := hvalue i
      refine ⟨i, v, hv, List.mem_append_left _ ?_⟩
      rw [hv]
      exact List.mem_map_of_mem ht
    · obtain ⟨j, v, hv, hmem⟩ := ih hp
      exact ⟨j, v, hv, List.mem_append_right _ hmem⟩

/-- What a target of a randomised parameter holds after a run. -/
theorem drawn_written {graph : Json} {params : List Param} {fields : Fields} (hok : ParamsOk fl graph params)
    {randint : Nat → Int → Int → Int} (hvalues : ∀ p ∈ params, ∀ j,
      paramValue fl (randint j) p ((Json.lookup p.name fields).getD .null) = .ok (valueOf fl randint fields j p))
    (hp : p ∈ params) (hrandom : IsRandomised p) (hempty : isEmptyArgument p ((Json.lookup p.name fields).getD .null) = true)
    {t : Target} (ht : t ∈ p.targets) :
    ∃ j, inputAt (updated graph (updatesFrom (valueOf fl randint fields) 0 params)) t =
      some (.int (randint j (randomBounds fl p).1 (randomBounds fl p).2)) := by
  have hdrawn : ∀ j, valueOf fl randint fields j p =
      some (.int (randint j (randomBounds fl p).1 (randomBounds fl p).2)) := fun j =>
    valueOf_eq (paramValue_empty hrandom hempty (randint j))
  have htargets : ∀ u ∈ updatesFrom (valueOf fl randint fields) 0 params,
      u.1 ∈ params.flatMap Param.targets ∧ isLink u.2 = false := by
    intro u hu
    obtain ⟨q, hq, htq, j, hv⟩ := mem_updatesFrom hu
    exact ⟨List.mem_flatMap.mpr ⟨q, hq, htq⟩, (paramValue_plain (randint j) q _).of_ok (hvalues q hq j) u.2 hv⟩
  obtain ⟨hset, -⟩ := updated_inputs (fun u hu => hok.inputs u.1 (htargets u hu).1) (fun u hu => (htargets u hu).2)
    (updatesFrom_nodup hok.targets)
  obtain ⟨j, v, hv, hmem⟩ := updatesFrom_some (i := 0) hp (fun j => ⟨_, hdrawn j⟩) ht
  refine ⟨j, ?_⟩
  rw [hset (t, v) hmem, ← hdrawn j, hv]

theorem checkParams_fields {specs : List (String × Fields)} {graph : Json} {i : Nat} {params : List Param} {names : List String}
    {targets : List Target} (h : checkParams fl specs graph i params names targets = []) :
    ∀ p ∈ params, ∃ j, fieldIssues fl j p = [] := by
  induction params generalizing i names targets with
  | nil => exact fun p hp => by cases hp
  | cons q params ih =>
    rw [checkParams] at h
    obtain ⟨h, hrest⟩ := List.append_eq_nil_iff.mp h
    obtain ⟨h, -⟩ := List.append_eq_nil_iff.mp h
    intro p hp
    obtain rfl | hp := List.mem_cons.mp hp
    · exact ⟨i, (List.append_eq_nil_iff.mp h).2⟩
    · exact ih hrest p hp

theorem targets_ne_nil {i : Nat} (h : fieldIssues fl i p = []) : p.targets ≠ [] := by
  have hnone := issueIf_nil (List.append_eq_nil_iff.mp h).2
  rintro hnil
  rw [hnil] at hnone
  cases hnone

/-- Draws `n` wherever it can. -/
def always (n : Int) : Int → Int → Int := fun low high => if low ≤ n ∧ n ≤ high then n else low

theorem always_inRange (n : Int) : InRange (always n) := by
  intro low high hle
  unfold always
  split
  · assumption
  · exact ⟨le_rfl, hle⟩

/-- Whatever is drawn for a parameter that is left empty, the parameter would take it: exactly
if some integer lies between its bounds, and its choices are all that may be drawn. -/
theorem randomised_accepted_iff {lib : Libraries} {memory : Memory} {place : Nat} {graph : Json} {mapping : RawMapping}
    {objectInfo arguments : Json} {fields : Fields} (hgraph : memory[place]? = some graph)
    (happroved : validateEntry lib graph mapping objectInfo = [])
    (hfields : checkedArguments ((normalizeMapping lib mapping).params.map Param.name) arguments = .ok fields)
    (hsucceeds : ∃ source result, Applies lib memory place mapping arguments source result)
    (hp : p ∈ (normalizeMapping lib mapping).params) (hrandom : IsRandomised p)
    (hempty : isEmptyArgument p ((Json.lookup p.name fields).getD .null) = true) :
    ((∀ randint, (∀ i, InRange (randint i)) → ∀ result, Applies lib memory place mapping arguments randint result →
        ∀ t ∈ p.targets, ∃ value, inputAt result t = some value ∧ coerce lib.toFloats p value = .ok value) ∧
      (randomBounds lib.toFloats p).1 ≤ (randomBounds lib.toFloats p).2) ↔ DrawsFit lib.toFloats p := by
  have hok := validateEntry_nil happroved
  obtain ⟨source, result, hsource⟩ := hsucceeds
  have hruns := applies_updated hgraph hfields hok hsource
  rw [and_iff_left randomBounds_le, ← drawn_accepted_iff hrandom.2]
  constructor
  · intro h n hn
    obtain ⟨hvalues, hrun⟩ := hruns fun _ => always n
    obtain ⟨i, hissues⟩ := checkParams_fields (List.append_eq_nil_iff.mp (List.append_eq_nil_iff.mp happroved).1).2 p hp
    obtain ⟨t, ht⟩ := List.exists_mem_of_ne_nil _ (targets_ne_nil hissues)
    obtain ⟨value, hvalue, hcoerce⟩ := h _ (fun _ => always_inRange n) _ hrun t ht
    obtain ⟨j, hj⟩ := drawn_written hok hvalues hp hrandom hempty ht
    have hdrawn : always n (randomBounds lib.toFloats p).1 (randomBounds lib.toFloats p).2 = n := if_pos (mem_randomBounds.mpr hn)
    rw [hdrawn] at hj
    obtain rfl := Option.some.inj (hvalue.symm.trans hj)
    exact hcoerce
  · intro h randint hrange result hresult t ht
    obtain ⟨hvalues, hrun⟩ := hruns randint
    have hsame : memory ++ [result] = memory ++ [_] := (Prod.mk.inj (hresult.symm.trans hrun)).2
    obtain ⟨j, hj⟩ := drawn_written hok hvalues hp hrandom hempty ht
    rw [(List.cons.inj (List.append_cancel_left hsame)).1]
    exact ⟨_, hj, h _ (mem_randomBounds.mp (hrange j _ _ randomBounds_le))⟩

/-! A random width. -/

def randomWidth (fields : Fields) : Json :=
  .obj [("params", .arr [.obj ([("name", .str "width"), ("type", .str "integer"), ("randomize", .bool true),
    ("targets", .arr [.obj [("node_id", .str "1"), ("input", .str "width")]])] ++ fields)]), ("outputs", .arr [.str "1"])]

def widthBelow : Json := randomWidth [("minimum", .int 1), ("maximum", .int 64)]

def widthBelowParam : Param := ⟨"width", "", "integer", false, .null, false, .int 1, .int 64, none, true, [⟨"1", "width"⟩]⟩

theorem randomised_accepted_width :
    (∀ randint, (∀ i, InRange (randint i)) → ∀ result,
        Applies noFloats [emptyImage] 0 (.value widthBelow) (.obj []) randint result →
        ∀ t ∈ widthBelowParam.targets, ∃ value, inputAt result t = some value ∧
          coerce noFloats.toFloats widthBelowParam value = .ok value) ∧
      (randomBounds noFloats.toFloats widthBelowParam).1 ≤ (randomBounds noFloats.toFloats widthBelowParam).2 := by
  have happroved : validateEntry noFloats emptyImage (.value widthBelow) .null = [] := by decide
  have hp : widthBelowParam ∈ (normalizeMapping noFloats (.value widthBelow)).params := List.mem_singleton.mpr rfl
  have hsucceeds : ∃ source result, Applies noFloats [emptyImage] 0 (.value widthBelow) (.obj []) source result :=
    ⟨fun _ low _ => low, _, rfl⟩
  refine (randomised_accepted_iff rfl happroved rfl hsucceeds hp ⟨rfl, rfl⟩ rfl).mpr ⟨fun high hhigh => ?_, ?_⟩
  · obtain rfl : (64 : Rat) = high := Option.some.inj hhigh
    decide
  · intro hchoices
    cases hchoices

/-- The choices say nothing to the one who draws: 0 is none of them. -/
theorem random_choice_refused :
    ¬ ∀ lib memory place graph mapping objectInfo arguments randint result, memory[place]? = some graph →
      validateEntry lib graph mapping objectInfo = [] → (∀ i, InRange (randint i)) →
      Applies lib memory place mapping arguments randint result → ∀ p ∈ (normalizeMapping lib mapping).params, IsRandomised p →
      ∀ fields, arguments = .obj fields → isEmptyArgument p ((Json.lookup p.name fields).getD .null) = true →
      ∀ t ∈ p.targets, ∃ value, inputAt result t = some value ∧ coerce lib.toFloats p value = .ok value := by
  intro h
  obtain ⟨value, hvalue, hcoerce⟩ := h noFloats [emptyImage] 0 emptyImage
    (.value (randomWidth [("choices", .arr [.int 512, .int 1024])])) .null (.obj []) (fun _ low _ => low) _ rfl (by decide)
    (fun _ low _ hle => ⟨le_rfl, hle⟩) rfl _ (List.mem_singleton.mpr rfl) ⟨rfl, rfl⟩ [] rfl rfl ⟨"1", "width"⟩
    (List.mem_singleton.mpr rfl)
  have hzero : value = .int 0 := (Option.some.inj hvalue).symm
  rw [hzero] at hcoerce
  cases (show (Except.error _ : Except ArgumentError Json) = .ok (.int 0) from hcoerce)

end XgenSdk.ComfyUi
