import XgenSdk.ComfyUi.Coerced
import XgenSdk.Py.Json
import Mathlib.Data.List.Pairwise

/-! Applying accepted arguments of an approved mapping: it succeeds, and only the
targets change. -/
namespace XgenSdk.ComfyUi
open XgenSdk.Py
variable {fl : Floats}

/-! One input set. -/

theorem fieldsOf_of_lookup {v w : Json} {key : String} (h : Json.lookup key (fieldsOf v) = some w) : ∃ fields, v = .obj fields := by
  cases v with
  | obj fields => exact ⟨fields, rfl⟩
  | _ => cases h

theorem inputAt_setInput {graph : Json} {t : Target} {old : Json} (h : inputAt graph t = some old) (value : Json)
    (other : Target) : inputAt (setInput graph t value) other = if other = t then some value else inputAt graph other := by
  obtain ⟨node, hnode, hinput⟩ := Option.bind_eq_some_iff.mp h
  obtain ⟨hlookup, hobj⟩ := Option.filter_eq_some_iff.mp hnode
  obtain ⟨nodes, rfl⟩ := fieldsOf_of_lookup hlookup
  obtain ⟨inputs, hinputs⟩ := fieldsOf_of_lookup hinput
  cases node with
  | obj members =>
    obtain ⟨inputs', hset, hinputs'⟩ := Json.lookup_set t.input t.input value inputs
    obtain ⟨members', hset', hmembers'⟩ := Json.lookup_set "inputs" "inputs" (.obj inputs') members
    obtain ⟨nodes', hset'', hnodes'⟩ := Json.lookup_set t.nodeId other.nodeId (.obj members') nodes
    have hgraph : setInput (.obj nodes) t value = .obj nodes' := by
      rw [setInput, hnode]
      dsimp only
      rw [hinputs, hset, hset', hset'']
    have hget : (Json.obj members').get "inputs" = .obj inputs' := by
      rw [Json.get, hmembers', if_pos rfl]
      rfl
    rw [hgraph, inputAt, inputAt, nodeAt, nodeAt, fieldsOf, fieldsOf, hnodes']
    by_cases hid : other.nodeId = t.nodeId
    · rw [if_pos hid, Option.filter_some, if_pos (show (Json.obj members').isObj = true from rfl),
        Option.bind_some, inputOf, hget, fieldsOf]
      obtain ⟨keptInputs, hkept, hkeptInputs⟩ := Json.lookup_set t.input other.input value inputs
      obtain rfl : keptInputs = inputs' := Json.obj.inj (hkept.symm.trans hset)
      rw [hkeptInputs]
      by_cases hname : other.input = t.input
      · have heq : other = t := by
          cases other
          cases t
          simp_all
        rw [if_pos hname, if_pos heq]
      · have hne : other ≠ t := fun heq => hname (by rw [heq])
        have hother : nodeAt (.obj nodes) other.nodeId = some (.obj members) := by rw [hid, hnode]
        rw [nodeAt, fieldsOf] at hother
        rw [if_neg hname, if_neg hne, hother, Option.bind_some, inputOf, hinputs, fieldsOf]
    · have hne : other ≠ t := fun heq => hid (by rw [heq])
      rw [if_neg hid, if_neg hne]
  | _ => cases hobj

theorem isOpen_setInput {graph : Json} {t other : Target} {value : Json} (ht : IsOpen graph t) (hvalue : isLink value = false)
    (hother : IsOpen graph other) : IsOpen (setInput graph t value) other := by
  obtain ⟨old, hold, -⟩ := ht
  obtain ⟨w, hw, hlink⟩ := hother
  by_cases heq : other = t
  · exact ⟨value, by rw [inputAt_setInput hold, if_pos heq], hvalue⟩
  · exact ⟨w, by rw [inputAt_setInput hold, if_neg heq, hw], hlink⟩

/-! Inputs set one after the other. -/

abbrev Update := Target × Json

def updated (graph : Json) (updates : List Update) : Json := updates.foldl (fun graph u => setInput graph u.1 u.2) graph

theorem updated_inputs {graph : Json} {updates : List Update} (hopen : ∀ u ∈ updates, IsOpen graph u.1)
    (hlinks : ∀ u ∈ updates, isLink u.2 = false) (hnodup : (updates.map Prod.fst).Nodup) :
    (∀ u ∈ updates, inputAt (updated graph updates) u.1 = some u.2) ∧
      ∀ t, t ∉ updates.map Prod.fst → inputAt (updated graph updates) t = inputAt graph t := by
  induction updates generalizing graph with
  | nil => exact ⟨(fun u hu => by cases hu), fun t _ => rfl⟩
  | cons u updates ih =>
    obtain ⟨old, hold, -⟩ := id (hopen u List.mem_cons_self)
    rw [List.map_cons, List.nodup_cons] at hnodup
    have hlink := hlinks u List.mem_cons_self
    obtain ⟨hset, hkept⟩ := ih
      (fun w hw => isOpen_setInput (hopen u List.mem_cons_self) hlink (hopen w (List.mem_cons_of_mem u hw)))
      (fun w hw => hlinks w (List.mem_cons_of_mem u hw)) hnodup.2
    refine ⟨fun w hw => ?_, fun t ht => ?_⟩
    · obtain rfl | hw := List.mem_cons.mp hw
      · change inputAt (updated (setInput graph w.1 w.2) updates) w.1 = some w.2
        rw [hkept w.1 hnodup.1, inputAt_setInput hold, if_pos rfl]
      · exact hset w hw
    · rw [List.map_cons, List.mem_cons, not_or] at ht
      change inputAt (updated (setInput graph u.1 u.2) updates) t = inputAt graph t
      rw [hkept t ht.2, inputAt_setInput hold, if_neg ht.1]

theorem updated_isOpen {graph : Json} {updates : List Update} (hopen : ∀ u ∈ updates, IsOpen graph u.1)
    (hlinks : ∀ u ∈ updates, isLink u.2 = false) {t : Target} (ht : IsOpen graph t) : IsOpen (updated graph updates) t := by
  induction updates generalizing graph with
  | nil => exact ht
  | cons u updates ih =>
    have hu := hopen u List.mem_cons_self
    have hlink := hlinks u List.mem_cons_self
    exact ih (fun w hw => isOpen_setInput hu hlink (hopen w (List.mem_cons_of_mem u hw)))
      (fun w hw => hlinks w (List.mem_cons_of_mem u hw)) (isOpen_setInput hu hlink ht)

/-! The loops, on a memory whose last graph is the copy. -/

theorem getD_last (before : Memory) (graph : Json) : (before ++ [graph]).getD before.length .null = graph := by
  simp [List.getD_eq_getElem?_getD]

theorem set_last (before : Memory) (graph graph' : Json) : (before ++ [graph]).set before.length graph' = before ++ [graph'] := by
  simp

theorem setTarget_on (before : Memory) {graph : Json} {t : Target} (hopen : IsOpen graph t) (name : String) (value : Json) :
    (setTarget before.length name value t).on (before ++ [graph]) = (.ok (), before ++ [setInput graph t value]) := by
  obtain ⟨old, hold, hlink⟩ := hopen
  have hall : (inputAt ((before ++ [graph]).getD before.length .null) t).all isLink = false := by
    rw [getD_last, hold]
    exact hlink
  rw [setTarget, Raising.on_bind, Raising.on_read]
  dsimp only
  rw [if_neg (by rw [hall]; exact Bool.false_ne_true), Raising.on_write, getD_last, set_last]

theorem setTargets_on (before : Memory) {graph : Json} {targets : List Target} (hopen : ∀ t ∈ targets, IsOpen graph t)
    (name : String) {value : Json} (hlink : isLink value = false) :
    (setTargets before.length name value targets).on (before ++ [graph]) =
      (.ok (), before ++ [updated graph (targets.map fun t => (t, value))]) := by
  induction targets generalizing graph with
  | nil => rfl
  | cons t targets ih =>
    have ht := hopen t List.mem_cons_self
    rw [setTargets, Raising.on_bind, setTarget_on before ht]
    exact ih fun u hu => isOpen_setInput ht hlink (hopen u (List.mem_cons_of_mem t hu))

/-- What a parameter sets, with the value it has. -/
def updatesOf (p : Param) : Option Json → List Update
  | none => []
  | some value => p.targets.map fun t => (t, value)

theorem setParam_on (before : Memory) {graph : Json} {p : Param} (hopen : ∀ t ∈ p.targets, IsOpen graph t)
    {value : Option Json} (hlink : ∀ v, value = some v → isLink v = false) :
    (setParam before.length p value).on (before ++ [graph]) = (.ok (), before ++ [updated graph (updatesOf p value)]) := by
  cases value with
  | none => rfl
  | some v => exact setTargets_on before hopen p.name (hlink v rfl)

/-- What the parameters from the `i`-th one on set. -/
def updatesFrom (value : Nat → Param → Option Json) (i : Nat) : List Param → List Update
  | [] => []
  | p :: params => updatesOf p (value i p) ++ updatesFrom value (i + 1) params

theorem mem_updatesOf {p : Param} {value : Option Json} {u : Update} (h : u ∈ updatesOf p value) :
    u.1 ∈ p.targets ∧ value = some u.2 := by
  cases value with
  | none => cases h
  | some v =>
    obtain ⟨t, ht, rfl⟩ := List.mem_map.mp h
    exact ⟨ht, rfl⟩

theorem mem_updatesFrom {value : Nat → Param → Option Json} {i : Nat} {params : List Param} {u : Update}
    (h : u ∈ updatesFrom value i params) : ∃ p ∈ params, u.1 ∈ p.targets ∧ ∃ j, value j p = some u.2 := by
  induction params generalizing i with
  | nil => cases h
  | cons p params ih =>
    obtain h | h := List.mem_append.mp h
    · obtain ⟨ht, hv⟩ := mem_updatesOf h
      exact ⟨p, List.mem_cons_self, ht, i, hv⟩
    · obtain ⟨q, hq, ht⟩ := ih h
      exact ⟨q, List.mem_cons_of_mem p hq, ht⟩

theorem updatesFrom_mem {value : Nat → Param → Option Json} {i : Nat} {params : List Param} {p : Param} {v : Json}
    (hp : p ∈ params) (hv : ∀ j, value j p = some v) {t : Target} (ht : t ∈ p.targets) :
    (t, v) ∈ updatesFrom value i params := by
  induction params generalizing i with
  | nil => cases hp
  | cons q params ih =>
    obtain rfl | hp := List.mem_cons.mp hp
    · refine List.mem_append_left _ ?_
      rw [hv i]
      exact List.mem_map_of_mem (f := fun t => (t, v)) ht
    · exact List.mem_append_right _ (ih hp)

theorem updatesFrom_nodup {value : Nat → Param → Option Json} {i : Nat} {params : List Param}
    (h : (params.flatMap Param.targets).Nodup) : ((updatesFrom value i params).map Prod.fst).Nodup := by
  have hone : ∀ p v, ((updatesOf p v).map Prod.fst).Sublist p.targets := by
    intro p v
    cases v with
    | none => exact List.nil_sublist _
    | some v =>
      have hfst : Prod.fst ∘ (fun t : Target => (t, v)) = id := rfl
      rw [updatesOf, List.map_map, hfst, List.map_id]
  have hall : ((updatesFrom value i params).map Prod.fst).Sublist (params.flatMap Param.targets) := by
    clear h
    induction params generalizing i with
    | nil => exact List.Sublist.refl _
    | cons p params ih =>
      rw [updatesFrom, List.map_append, List.flatMap_cons]
      exact (hone p _).append ih
  exact h.sublist hall

theorem applyParams_on (before : Memory) {graph : Json} {randint : Nat → Int → Int → Int} {arguments : Fields} {i : Nat}
    {params : List Param} {value : Nat → Param → Option Json}
    (hvalue : ∀ p ∈ params, ∀ j, paramValue fl (randint j) p ((Json.lookup p.name arguments).getD .null) = .ok (value j p))
    (hlink : ∀ p ∈ params, ∀ j v, value j p = some v → isLink v = false)
    (hopen : ∀ t ∈ params.flatMap Param.targets, IsOpen graph t) :
    (applyParams fl randint arguments before.length i params).on (before ++ [graph]) =
      (.ok (), before ++ [updated graph (updatesFrom value i params)]) := by
  induction params generalizing graph i with
  | nil => rfl
  | cons p params ih =>
    have hp : ∀ t ∈ p.targets, IsOpen graph t := fun t ht => hopen t (List.mem_flatMap.mpr ⟨p, List.mem_cons_self, ht⟩)
    have hsets : ∀ u ∈ updatesOf p (value i p), IsOpen graph u.1 ∧ isLink u.2 = false := by
      intro u hu
      obtain ⟨ht, hv⟩ := mem_updatesOf hu
      exact ⟨hp u.1 ht, hlink p List.mem_cons_self i u.2 hv⟩
    rw [applyParams, Raising.on_bind, hvalue p List.mem_cons_self i, Raising.on_lift]
    dsimp only
    rw [Raising.on_bind, setParam_on before hp (hlink p List.mem_cons_self i)]
    dsimp only
    rw [ih (fun q hq => hvalue q (List.mem_cons_of_mem p hq)) (fun q hq => hlink q (List.mem_cons_of_mem p hq))]
    · rw [updatesFrom, updated, updated, updated, List.foldl_append]
    · intro t ht
      obtain ⟨q, hq, ht⟩ := List.mem_flatMap.mp ht
      exact updated_isOpen (fun u hu => (hsets u hu).1) (fun u hu => (hsets u hu).2)
        (hopen t (List.mem_flatMap.mpr ⟨q, List.mem_cons_of_mem p hq, ht⟩))

/-! An approved mapping makes a sound tool: whatever its schema accepts is applied,
and every target holds a value as its parameter wants it. -/

variable {fl : Floats} {p : Param}

def IsRandomised (p : Param) : Prop := p.randomize = true ∧ p.type = "integer"

theorem not_isLink {value : Json} {type : String} (h : matchesType fl value type = true) : isLink value = false := by
  unfold matchesType at h
  cases value with
  | arr xs => split_ifs at h <;> cases h
  | _ => rfl

/-! The value of a parameter. -/

theorem not_empty {value : Json} (h : matchesType fl value p.type = true) : isEmptyArgument p value = false := by
  unfold matchesType at h
  cases value with
  | null => split_ifs at h <;> cases h
  | str s =>
    by_cases htype : p.type = "string"
    · simp [isEmptyArgument, htype]
    · rw [if_neg htype] at h
      split_ifs at h <;> cases h
  | _ => rfl

theorem paramValue_given (hok : ParamOk fl p) {value : Json} (h : (schemaProperty fl p).accepts fl value = true) :
    ∃ out, Fits fl p out ∧ ∀ randint, paramValue fl randint p value = .ok (some out) := by
  obtain ⟨htype, hrange, hchoices⟩ := accepted_checks hok h
  obtain ⟨out, hout, hfits⟩ := coerce_checked hok htype hrange hchoices
  refine ⟨out, hfits, fun randint => ?_⟩
  rw [paramValue, not_empty htype, if_neg Bool.false_ne_true, hout]
  rfl

theorem not_randomised (h : ¬ IsRandomised p) : (p.randomize && decide (p.type = "integer")) = false := by
  rw [Bool.eq_false_iff]
  intro hboth
  rw [Bool.and_eq_true, decide_eq_true_eq] at hboth
  exact h hboth

theorem paramValue_default (hok : ParamOk fl p) (hdefault : p.default ≠ .null) (hrandom : ¬ IsRandomised p) :
    ∃ out, Fits fl p out ∧ ∀ randint, paramValue fl randint p .null = .ok (some out) := by
  obtain ⟨htype, hrange, hchoices⟩ := hok.default hdefault
  obtain ⟨out, hout, hfits⟩ := coerce_checked hok htype hrange hchoices
  refine ⟨out, hfits, fun randint => ?_⟩
  rw [paramValue, not_randomised hrandom, isNull_false hdefault, hout]
  rfl

theorem paramValue_random (hrandom : IsRandomised p) (randint : Int → Int → Int) :
    ∃ n, paramValue fl randint p .null = .ok (some (.int n)) := by
  have hboth : (p.randomize && decide (p.type = "integer")) = true := by
    rw [Bool.and_eq_true, decide_eq_true_eq]
    exact hrandom
  refine ⟨randint (randomBounds fl p).1 (randomBounds fl p).2, ?_⟩
  rw [paramValue, hboth]
  rfl

theorem paramValue_left (hdefault : p.default = .null) (hrandom : ¬ IsRandomised p) (hrequired : p.required = false)
    (randint : Int → Int → Int) : paramValue fl randint p .null = .ok none := by
  rw [paramValue, not_randomised hrandom, hdefault, hrequired]
  rfl

/-- What a parameter sets; nothing where the call fails. -/
def valueOf (fl : Floats) (randint : Nat → Int → Int → Int) (arguments : Fields) (j : Nat) (p : Param) : Option Json :=
  match paramValue fl (randint j) p ((Json.lookup p.name arguments).getD .null) with
  | .ok value => value
  | .error _ => none

theorem valueOf_eq {randint : Nat → Int → Int → Int} {arguments : Fields} {j : Nat} {value : Option Json}
    (h : paramValue fl (randint j) p ((Json.lookup p.name arguments).getD .null) = .ok value) :
    valueOf fl randint arguments j p = value := by
  rw [valueOf, h]

variable {params : List Param} {arguments : Fields}

/-- A parameter that is given, or has a default and is not randomised. -/
theorem value_set (hok : ParamOk fl p) (haccepted : Accepted fl params arguments) (hp : p ∈ params)
    (h : (Json.lookup p.name arguments).isSome = true ∨ (p.default ≠ .null ∧ ¬ IsRandomised p)) :
    ∃ out, Fits fl p out ∧
      ∀ randint, paramValue fl randint p ((Json.lookup p.name arguments).getD .null) = .ok (some out) := by
  cases hlookup : Json.lookup p.name arguments with
  | some value => exact paramValue_given hok (haccepted.value p hp value hlookup)
  | none =>
    rw [hlookup] at h
    obtain h | ⟨hdefault, hrandom⟩ := h
    · cases h
    · exact paramValue_default hok hdefault hrandom

theorem value_kept (haccepted : Accepted fl params arguments) (hp : p ∈ params) (hleft : Json.lookup p.name arguments = none)
    (hdefault : p.default = .null) (hrandom : ¬ IsRandomised p) (randint : Int → Int → Int) :
    paramValue fl randint p ((Json.lookup p.name arguments).getD .null) = .ok none := by
  have hrequired : p.required = false := by
    rw [Bool.eq_false_iff]
    intro hneeded
    have hsome := haccepted.required p hp hneeded
    rw [hleft] at hsome
    cases hsome
  rw [hleft]
  exact paramValue_left hdefault hrandom hrequired randint

/-- No parameter fails, and none sets a link. -/
theorem value_ok (hok : ParamOk fl p) (haccepted : Accepted fl params arguments) (hp : p ∈ params)
    (randint : Nat → Int → Int → Int) (j : Nat) :
    paramValue fl (randint j) p ((Json.lookup p.name arguments).getD .null) = .ok (valueOf fl randint arguments j p) ∧
      ∀ v, valueOf fl randint arguments j p = some v → isLink v = false := by
  have hof : ∀ {value}, paramValue fl (randint j) p ((Json.lookup p.name arguments).getD .null) = .ok value →
      (∀ v, value = some v → isLink v = false) →
      paramValue fl (randint j) p ((Json.lookup p.name arguments).getD .null) = .ok (valueOf fl randint arguments j p) ∧
        ∀ v, valueOf fl randint arguments j p = some v → isLink v = false := by
    intro value hvalue hlink
    rw [valueOf_eq hvalue]
    exact ⟨hvalue, hlink⟩
  by_cases hset : (Json.lookup p.name arguments).isSome = true ∨ (p.default ≠ .null ∧ ¬ IsRandomised p)
  · obtain ⟨out, hfits, hout⟩ := value_set hok haccepted hp hset
    refine hof (hout (randint j)) fun v hv => ?_
    rw [← Option.some.inj hv]
    exact not_isLink hfits.type
  · rw [not_or] at hset
    have hnone : Json.lookup p.name arguments = none := by simpa using hset.1
    by_cases hrandom : IsRandomised p
    · obtain ⟨n, hn⟩ := @paramValue_random fl _ hrandom (randint j)
      refine @hof (some (.int n)) ?_ fun v hv => ?_
      · rw [hnone]
        exact hn
      · rw [← Option.some.inj hv]
        rfl
    · have hdefault : p.default = .null := by
        by_contra hne
        exact hset.2 ⟨hne, hrandom⟩
      exact hof (value_kept haccepted hp hnone hdefault hrandom (randint j)) fun v hv => by cases hv

/-! The tool. -/

/-- The result is the graph with some of these inputs set. -/
def DiffersOnlyAt (targets : List Target) (graph result : Json) : Prop :=
  ∃ updates : List Update, (∀ u ∈ updates, u.1 ∈ targets) ∧ result = updated graph updates

/-- The result of a call with these arguments. -/
structure Sound (fl : Floats) (m : Mapping) (arguments : Fields) (graph result : Json) : Prop where
  others : DiffersOnlyAt (m.params.flatMap Param.targets) graph result
  set : ∀ p ∈ m.params, (Json.lookup p.name arguments).isSome = true ∨ (p.default ≠ .null ∧ ¬ IsRandomised p) →
    ∃ value, Fits fl p value ∧ ∀ t ∈ p.targets, inputAt result t = some value
  kept : ∀ p ∈ m.params, Json.lookup p.name arguments = none → p.default = .null → ¬ IsRandomised p →
    ∀ t ∈ p.targets, inputAt result t = inputAt graph t

theorem sound_updated {m : Mapping} {graph : Json} (hok : ParamsOk fl graph m.params)
    (haccepted : Accepted fl m.params arguments) (randint : Nat → Int → Int → Int) :
    Sound fl m arguments graph (updated graph (updatesFrom (valueOf fl randint arguments) 0 m.params)) := by
  have hvalues := fun p hp => value_ok (hok.each p hp) haccepted hp randint
  have htargets : ∀ u ∈ updatesFrom (valueOf fl randint arguments) 0 m.params,
      u.1 ∈ m.params.flatMap Param.targets ∧ isLink u.2 = false := by
    intro u hu
    obtain ⟨p, hp, ht, j, hv⟩ := mem_updatesFrom hu
    exact ⟨List.mem_flatMap.mpr ⟨p, hp, ht⟩, (hvalues p hp j).2 u.2 hv⟩
  obtain ⟨hset, hkept⟩ := updated_inputs (fun u hu => hok.inputs u.1 (htargets u hu).1) (fun u hu => (htargets u hu).2)
    (updatesFrom_nodup hok.targets)
  refine ⟨⟨_, fun u hu => (htargets u hu).1, rfl⟩, fun p hp hgiven => ?_, fun p hp hleft hdefault hrandom t ht => ?_⟩
  · obtain ⟨out, hfits, hout⟩ := value_set (hok.each p hp) haccepted hp hgiven
    exact ⟨out, hfits, fun t ht => hset (t, out) (updatesFrom_mem hp (fun j => valueOf_eq (hout (randint j))) ht)⟩
  · refine hkept t fun hmem => ?_
    obtain ⟨u, hu, rfl⟩ := List.mem_map.mp hmem
    obtain ⟨q, hq, htq, j, hv⟩ := mem_updatesFrom hu
    have hpq : q ≠ p := by
      rintro rfl
      rw [valueOf_eq (value_kept haccepted hp hleft hdefault hrandom (randint j))] at hv
      cases hv
    have hsymm : Std.Symm (Function.onFun List.Disjoint Param.targets) := ⟨fun _ _ h _ hx hy => h hy hx⟩
    exact (List.nodup_flatMap.mp hok.targets).2.forall hq hp hpq htq ht

/-- A mapping without an issue, and arguments that its schema accepts: the call succeeds with a new graph behind those in
memory, which stay as they are. -/
theorem approved_mapping_sound (lib : Libraries) (randint : Nat → Int → Int → Int) (memory : Memory) (place : Nat)
    (graph : Json) (hgraph : memory[place]? = some graph) (mapping : RawMapping) (objectInfo arguments : Json)
    (happroved : validateEntry lib graph mapping objectInfo = [])
    (haccepts : (toolInputSchema lib mapping).accepts lib.toFloats arguments = true) :
    ∃ fields result, arguments = .obj fields ∧
      (applyArguments lib randint place mapping arguments).on memory = (.ok memory.length, memory ++ [result]) ∧
      Sound lib.toFloats (normalizeMapping lib mapping) fields graph result := by
  have hok := validateEntry_nil happroved
  obtain ⟨fields, rfl, haccepted⟩ := accepted_of_schema hok haccepts
  have hvalues := fun p hp => value_ok (hok.each p hp) haccepted hp randint
  refine ⟨fields, _, rfl, ?_, sound_updated hok haccepted randint⟩
  have hknown : checkedArguments ((normalizeMapping lib mapping).params.map Param.name) (.obj fields) = .ok fields := by
    have hnone : ((fields.map Prod.fst).filter fun name =>
        !((normalizeMapping lib mapping).params.map Param.name).contains name) = [] := by
      rw [List.filter_eq_nil_iff]
      intro name hname
      obtain ⟨f, hf, rfl⟩ := List.mem_map.mp hname
      simpa using haccepted.known f hf
    rw [checkedArguments, hnone]
    rfl
  have hcopy : memory.getD place .null = graph := by
    rw [List.getD_eq_getElem?_getD, hgraph, Option.getD_some]
  rw [applyArguments, hknown]
  simp only [Raising.on_bind, Raising.on_lift, deepcopy, Raising.on_read, Raising.on_write, Raising.on_pure, hcopy]
  rw [applyParams_on memory (fun p hp j => (hvalues p hp j).1) (fun p hp j => (hvalues p hp j).2) hok.inputs]

/-! An image and its width. -/

def emptyImage : Json :=
  .obj [("1", .obj [("class_type", .str "EmptyImage"), ("inputs", .obj [("width", .int 8), ("height", .int 8)])])]

def widthMapping : Json :=
  .obj [("params", .arr [.obj [("name", .str "width"), ("type", .str "integer"), ("minimum", .int 1), ("maximum", .int 64),
    ("targets", .arr [.obj [("node_id", .str "1"), ("input", .str "width")]])]]), ("outputs", .arr [.str "1"])]

def noFloats : Libraries := ⟨⟨fun _ => none, fun _ => none⟩, fun _ => none⟩

theorem approved_mapping_sound_width : ∃ fields result, Json.obj [("width", .int 32)] = .obj fields ∧
    (applyArguments noFloats (fun _ low _ => low) 0 (.value widthMapping) (.obj [("width", .int 32)])).on [emptyImage] =
      (.ok 1, [emptyImage, result]) ∧
    Sound noFloats.toFloats (normalizeMapping noFloats (.value widthMapping)) fields emptyImage result := by
  have happroved : validateEntry noFloats emptyImage (.value widthMapping) .null = [] := by decide
  have haccepts : (toolInputSchema noFloats (.value widthMapping)).accepts noFloats.toFloats (.obj [("width", .int 32)]) =
      true := by decide
  exact approved_mapping_sound noFloats (fun _ low _ => low) [emptyImage] 0 emptyImage rfl (.value widthMapping) .null
    (.obj [("width", .int 32)]) happroved haccepts

end XgenSdk.ComfyUi
