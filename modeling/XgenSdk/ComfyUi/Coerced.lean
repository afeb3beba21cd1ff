import XgenSdk.ComfyUi.Approved
import XgenSdk.ComfyUi.Arguments

/-! The arguments that the schema of an approved mapping accepts, and what becomes
of them. -/
namespace XgenSdk.ComfyUi
open XgenSdk.Py
variable {fl : Floats} {p : Param}

/-! Values of the declared type. -/

theorem isParamType_cases {type : String} (h : isParamType type = true) :
    type = "string" ∨ type = "integer" ∨ type = "number" ∨ type = "boolean" := by
  simpa [isParamType, paramTypes] using h

theorem isNumber_of_matches {value : Json} {type : String} (hnumeric : isNumeric type = true)
    (h : matchesType fl value type = true) : fl.isNumber value = true := by
  simp only [isNumeric, Bool.or_eq_true, decide_eq_true_eq] at hnumeric
  obtain rfl | rfl := hnumeric
  · exact fl.isNumber_of_isInteger h
  · exact h

/-- A value of the declared type keeps it, and its value as a number. -/
theorem coerceType_matching {value : Json} (htype : isParamType p.type = true) (h : matchesType fl value p.type = true) :
    ∃ out, coerceType fl p value = .ok out ∧ matchesType fl out p.type = true ∧
      (isNumeric p.type = true → fl.number out = fl.number value) ∧ (isNumeric p.type = false → out = value) := by
  unfold coerceType matchesType isNumeric
  rw [matchesType] at h
  obtain htype | htype | htype | htype := isParamType_cases htype
  · rw [htype] at h ⊢
    cases value with
    | str s => exact ⟨.str s, rfl, rfl, (fun hn => by cases hn), fun _ => rfl⟩
    | _ => cases h
  · rw [htype] at h ⊢
    have hinteger : fl.isInteger value = true := h
    refine ⟨.int (fl.toInt value), ?_, rfl, fun _ => (fl.number_toInt hinteger).symm, fun hn => by cases hn⟩
    exact if_pos hinteger
  · rw [htype] at h ⊢
    have hnumber : fl.isNumber value = true := h
    exact ⟨value, if_pos hnumber, h, fun _ => rfl, fun _ => rfl⟩
  · rw [htype] at h ⊢
    cases value with
    | bool b => exact ⟨.bool b, rfl, rfl, (fun hn => by cases hn), fun _ => rfl⟩
    | _ => cases h

/-- A value as a parameter wants it. -/
structure Fits (fl : Floats) (p : Param) (value : Json) : Prop where
  type : matchesType fl value p.type = true
  minimum : isNumeric p.type = true → ∀ low x, fl.number p.minimum = some low → fl.number value = some x → low ≤ x
  maximum : isNumeric p.type = true → ∀ high x, fl.number p.maximum = some high → fl.number value = some x → x ≤ high
  choices : ∀ choices, p.choices = some choices → fl.isIn value choices = true

theorem not_less {a b : Json} {x y : Rat} (h : fl.less a b = false) (ha : fl.number a = some x) (hb : fl.number b = some y) :
    y ≤ x := by
  rw [Floats.less, ha, hb] at h
  exact Rat.not_lt.mp (of_decide_eq_false h)

theorem fits_of_checks (hok : ParamOk fl p) {value : Json} (htype : matchesType fl value p.type = true)
    (hrange : (isNumeric p.type && outOfRange fl p value) = false) (hchoices : notInChoices fl p value = false) :
    Fits fl p value := by
  have hless : isNumeric p.type = true → fl.less value p.minimum = false ∧ fl.less p.maximum value = false := by
    intro hnumeric
    rw [hnumeric, Bool.true_and, outOfRange, Bool.or_eq_false_iff] at hrange
    exact hrange
  refine ⟨htype, fun hnumeric low x hlow hx => not_less (hless hnumeric).1 hx hlow, fun hnumeric high x hhigh hx =>
    not_less (hless hnumeric).2 hhigh hx, fun choices heq => ?_⟩
  rw [notInChoices, hok.choices choices heq, heq] at hchoices
  simpa using hchoices

/-- A value that passes the checks is taken, and still passes them. -/
theorem coerce_checked (hok : ParamOk fl p) {value : Json} (htype : matchesType fl value p.type = true)
    (hrange : (isNumeric p.type && outOfRange fl p value) = false) (hchoices : notInChoices fl p value = false) :
    ∃ out, coerce fl p value = .ok out ∧ Fits fl p out := by
  obtain ⟨out, hout, hmatches, hnumber, hsame⟩ := coerceType_matching hok.type htype
  have hrange' : (isNumeric p.type && outOfRange fl p out) = false := by
    cases hnumeric : isNumeric p.type with
    | false => rfl
    | true =>
      rw [hnumeric, Bool.true_and] at hrange
      rw [Bool.true_and, outOfRange, fl.less_congr (hnumber hnumeric) rfl, fl.less_congr rfl (hnumber hnumeric)]
      exact hrange
  have hchoices' : notInChoices fl p out = false := by
    cases hnumeric : isNumeric p.type with
    | false =>
      rw [hsame hnumeric]
      exact hchoices
    | true =>
      rw [notInChoices, fl.isIn_congr (isNumber_of_matches hnumeric hmatches) (isNumber_of_matches hnumeric htype)
        (hnumber hnumeric)]
      exact hchoices
  refine ⟨out, ?_, fits_of_checks hok hmatches hrange' hchoices'⟩
  rw [coerce, hout]
  change (if (isNumeric p.type && outOfRange fl p out) = true then _ else _) = _
  rw [hrange', if_neg Bool.false_ne_true, hchoices', if_neg Bool.false_ne_true]

/-! The schema of parameters with names, none twice. -/

theorem addParam_foldl {params : List Param} {schema : ToolSchema} (hnamed : ∀ p ∈ params, p.name ≠ "")
    (hnames : (schema.properties.map Prod.fst ++ params.map Param.name).Nodup) :
    params.foldl (addParam fl) schema =
      ⟨schema.properties ++ params.map (fun p => (p.name, schemaProperty fl p)),
        schema.required ++ (params.filter Param.required).map Param.name⟩ := by
  induction params generalizing schema with
  | nil => simp
  | cons p params ih =>
    have hfresh : (schema.properties.any fun f => f.1 = p.name) = false := by
      rw [List.any_eq_false]
      intro f hf heq
      rw [List.nodup_append] at hnames
      exact hnames.2.2 f.1 (List.mem_map_of_mem hf) p.name (by simp) (of_decide_eq_true heq)
    have hname : p.name ≠ "" := hnamed p List.mem_cons_self
    rw [List.foldl_cons, addParam, if_neg (by simp [hname, hfresh]), ih fun q hq => hnamed q (List.mem_cons_of_mem p hq)]
    · cases hrequired : p.required <;> simp [hrequired]
    · simpa using hnames

theorem lookup_map_name {β : Type} (f : Param → β) {params : List Param} (hnames : (params.map Param.name).Nodup)
    (hp : p ∈ params) : (params.map fun p => (p.name, f p)).lookup p.name = some (f p) := by
  induction params with
  | nil => cases hp
  | cons q params ih =>
    rw [List.map_cons, List.nodup_cons] at hnames
    rw [List.map_cons, List.lookup_cons]
    obtain rfl | hp := List.mem_cons.mp hp
    · simp
    · have hne : (p.name == q.name) = false := beq_false_of_ne fun heq => hnames.1 (heq ▸ List.mem_map_of_mem hp)
      rw [hne]
      exact ih hnames.2 hp

theorem mem_of_lookup_json {fields : Fields} {name : String} {value : Json} (h : Json.lookup name fields = some value) :
    (name, value) ∈ fields := by
  obtain ⟨f, hf, hv⟩ := Option.map_eq_some_iff.mp h
  have hkey : f.1 = name := by simpa using List.find?_some hf
  rw [← hkey, ← hv]
  exact List.mem_of_find?_eq_some hf

/-- Arguments that the schema of these parameters accepts. -/
structure Accepted (fl : Floats) (params : List Param) (fields : Fields) : Prop where
  known : ∀ f ∈ fields, f.1 ∈ params.map Param.name
  required : ∀ p ∈ params, p.required = true → (Json.lookup p.name fields).isSome = true
  value : ∀ p ∈ params, ∀ v, Json.lookup p.name fields = some v → (schemaProperty fl p).accepts fl v = true

theorem accepted_of_schema {lib : Libraries} {mapping : RawMapping} {graph arguments : Json}
    (hok : ParamsOk lib.toFloats graph (normalizeMapping lib mapping).params)
    (h : (toolInputSchema lib mapping).accepts lib.toFloats arguments = true) :
    ∃ fields, arguments = .obj fields ∧ Accepted lib.toFloats (normalizeMapping lib mapping).params fields := by
  unfold toolInputSchema at h
  rw [addParam_foldl hok.named (by simpa using hok.names)] at h
  unfold ToolSchema.accepts at h
  split at h
  · rename_i fields
    rw [List.nil_append, List.nil_append, Bool.and_eq_true, List.all_eq_true, List.all_eq_true] at h
    obtain ⟨hrequired, hfields⟩ := h
    dsimp only at hrequired hfields
    refine ⟨fields, rfl, fun f hf => ?_, fun p hp hneeded => ?_, fun p hp v hv => ?_⟩
    · obtain ⟨property, hlookup, -⟩ := (Option.any_eq_true _ _).mp (hfields f hf)
      have hmem : f.1 ∈ ((normalizeMapping lib mapping).params.map fun p => (p.name, schemaProperty lib.toFloats p)).map
          Prod.fst := by
        obtain ⟨front, back, hsplit, -⟩ := List.lookup_eq_some_iff.mp hlookup
        rw [hsplit]
        simp
      rw [List.map_map] at hmem
      exact hmem
    · exact hrequired p.name (List.mem_map.mpr ⟨p, List.mem_filter.mpr ⟨hp, hneeded⟩, rfl⟩)
    · obtain ⟨property, hlookup, haccepts⟩ := (Option.any_eq_true _ _).mp (hfields (p.name, v) (mem_of_lookup_json hv))
      rw [lookup_map_name _ hok.names hp] at hlookup
      rw [Option.some.inj hlookup]
      exact haccepts
  · cases h

/-! What is accepted passes the checks. -/

theorem acceptsType_matches {value : Json} (htype : isParamType p.type = true)
    (h : acceptsType fl p.type value = true) : matchesType fl value p.type = true := by
  unfold matchesType
  obtain htype | htype | htype | htype := isParamType_cases htype
  · rw [htype] at h ⊢
    cases value with
    | str s => rfl
    | _ => cases h
  · rw [htype] at h ⊢
    cases value <;> exact h
  · rw [htype] at h ⊢
    cases value <;> exact h
  · rw [htype] at h ⊢
    cases value with
    | bool b => rfl
    | _ => cases h

theorem less_number {a b : Json} (h : fl.isNumber b = false) : fl.less a b = false ∧ fl.less b a = false := by
  have hnone : fl.number b = none := by simpa [Floats.isNumber] using h
  constructor
  · rw [Floats.less, hnone]
    cases fl.number a <;> rfl
  · rw [Floats.less, hnone]

theorem accepted_checks (hok : ParamOk fl p) {value : Json} (h : (schemaProperty fl p).accepts fl value = true) :
    matchesType fl value p.type = true ∧ (isNumeric p.type && outOfRange fl p value) = false ∧
      notInChoices fl p value = false := by
  have hschema : schemaType p = p.type := if_pos hok.type
  simp only [Property.accepts, schemaProperty, hschema, Bool.and_eq_true] at h
  obtain ⟨⟨⟨htype, hminimum⟩, hmaximum⟩, henum⟩ := h
  refine ⟨acceptsType_matches hok.type htype, ?_, ?_⟩
  · cases hnumeric : isNumeric p.type with
    | false => rfl
    | true =>
      rw [Bool.true_and, outOfRange, Bool.or_eq_false_iff]
      refine ⟨?_, ?_⟩
      · cases hbound : fl.isNumber p.minimum with
        | false => exact (less_number hbound).1
        | true => simpa [schemaBound, hschema, hnumeric, hbound] using hminimum
      · cases hbound : fl.isNumber p.maximum with
        | false => exact (less_number hbound).2
        | true => simpa [schemaBound, hschema, hnumeric, hbound] using hmaximum
  · unfold notInChoices hasChoices
    cases hchoices : p.choices with
    | none => rfl
    | some choices =>
      have hsome := hok.choices choices hchoices
      rw [hasChoices, hchoices] at hsome
      rw [hchoices, if_pos (Bool.and_eq_true_iff.mp hsome), Option.all_some, List.any_eq_true] at henum
      obtain ⟨c, hc, heq⟩ := henum
      rw [Option.getD_some, Floats.isIn, List.any_eq_true.mpr ⟨c, hc, fl.pyEq_of_schemaEq heq⟩, Bool.not_true, Bool.and_false]

end XgenSdk.ComfyUi
