import XgenSdk.ComfyUi.Mapping

/-! The specifications of the inputs that a server says its nodes take: as they come,
and as they are read. -/
namespace XgenSdk.ComfyUi.ObjectInfo
open XgenSdk.Py

/-! One input. -/

/-- `_number`. -/
def number : Json → Json
  | .int n => .int n
  | .float x => .float x
  | _ => .null

def isScalar : Json → Bool
  | .str _ | .int _ | .float _ | .bool _ => true
  | _ => false

def specOptions : Json → Json
  | .arr (_ :: opts :: _) => if opts.isObj then opts else .obj []
  | _ => .obj []

/-- The key of an option, where it is a text. -/
def dynamicChoice (option : Json) : Option Json :=
  if option.isObj then (if isStr (option.get "key") then some (option.get "key") else none)
  else if isStr option then some option else none

def specChoices (spec : Json) : Json :=
  match spec with
  | .arr (.arr choices :: _) => .arr choices
  | .arr (.str head :: _) =>
    let options := ((specOptions spec).get "options").items
    if head = "COMBO" then .arr options
    else if head = "COMFY_DYNAMICCOMBO_V3" then .arr (options.filterMap dynamicChoice)
    else .null
  | _ => .null

/-- `normalize_input_spec`. -/
def normalizeInputSpec (spec : Json) : Json :=
  let kind := inputKind spec
  let opts := specOptions spec
  let option (key : String) : Json := if kind = "LINK" then .null else opts.get key
  .obj [("kind", .str kind),
    ("default", if isScalar (option "default") then option "default" else .null),
    ("min", number (option "min")),
    ("max", number (option "max")),
    ("step", number (option "step")),
    ("choices", specChoices spec),
    ("multiline", .bool (isTrue (option "multiline"))),
    ("tooltip", if textOf (opts.get "tooltip") = "" then .null else opts.get "tooltip")]

/-! Classes. -/

/-- One input more, unless its name is there. -/
def addInput (out : Fields) (entry : String × Json) : Fields :=
  if (Json.lookup entry.1 out).isSome then out else out ++ [(entry.1, normalizeInputSpec entry.2)]

/-- The required inputs of a class, then the optional ones. -/
def inputsOf (entry : Json) : Fields := (["required", "optional"].map fun group => fieldsOf ((entry.get "input").get group)).flatten

/-- `normalize_class_info`. -/
def normalizeClassInfo (entry : Json) : Fields := (inputsOf entry).foldl addInput []

def classesOf (objectInfo : Json) : Fields := (fieldsOf objectInfo).filter fun f => f.2.isObj

/-- `normalize_object_info`. -/
def normalizeObjectInfo (raw : Json) : Json := .obj ((classesOf raw).map fun f => (f.1, .obj (normalizeClassInfo f.2)))

/-- A class of `as_normalized`. -/
def normalizedClass (entry : Json) : Fields :=
  if looksRaw entry then normalizeClassInfo entry else (fieldsOf entry).filter fun f => f.2.isObj

/-- `as_normalized`. -/
def asNormalized (objectInfo : Json) : Json := .obj ((classesOf objectInfo).map fun f => (f.1, .obj (normalizedClass f.2)))

/-! What is in a normalised class. -/

section Classes
variable {entry raw : Json} {name : String} {out : Fields} {f : String × Json}

theorem mem_foldl_addInput {entries : Fields} (h : f ∈ entries.foldl addInput out) :
    f ∈ out ∨ ∃ spec, f.2 = normalizeInputSpec spec := by
  induction entries generalizing out with
  | nil => exact .inl h
  | cons e entries ih =>
    obtain hmem | hspec := ih h
    · unfold addInput at hmem
      split at hmem
      · exact .inl hmem
      · obtain hmem | hmem := List.mem_append.mp hmem
        · exact .inl hmem
        · exact .inr ⟨e.2, by rw [List.mem_singleton.mp hmem]⟩
    · exact .inr hspec

theorem mem_normalizeClassInfo (h : f ∈ normalizeClassInfo entry) : ∃ spec, f.2 = normalizeInputSpec spec :=
  (mem_foldl_addInput h).resolve_left List.not_mem_nil

theorem lookup_isSome_iff {fields : Fields} : (Json.lookup name fields).isSome = true ↔ name ∈ fields.map Prod.fst := by
  simp [Json.lookup]

theorem names_foldl_addInput {entries : Fields} :
    name ∈ (entries.foldl addInput out).map Prod.fst ↔ name ∈ out.map Prod.fst ∨ name ∈ entries.map Prod.fst := by
  induction entries generalizing out with
  | nil => simp
  | cons e entries ih =>
    rw [List.foldl_cons, ih, List.map_cons, List.mem_cons, ← or_assoc]
    refine or_congr_left ?_
    unfold addInput
    split
    · rename_i hthere
      rw [lookup_isSome_iff] at hthere
      exact (or_iff_left_of_imp fun heq => heq ▸ hthere).symm
    · simp

theorem names_normalizeClassInfo : name ∈ (normalizeClassInfo entry).map Prod.fst ↔ name ∈ (inputsOf entry).map Prod.fst := by
  rw [normalizeClassInfo, names_foldl_addInput]
  simp

theorem has_normalizeInputSpec (spec : Json) (key : String) : (normalizeInputSpec spec).has key =
    ["kind", "default", "min", "max", "step", "choices", "multiline", "tooltip"].contains key := by
  rw [Bool.eq_iff_iff, normalizeInputSpec, Json.has, lookup_isSome_iff, List.contains_iff_mem]
  rfl

theorem isObj_normalizeClassInfo (h : f ∈ normalizeClassInfo entry) : f.2.isObj = true := by
  obtain ⟨spec, hspec⟩ := mem_normalizeClassInfo h
  rw [hspec]
  rfl

theorem mem_of_lookup {fields : Fields} {value : Json} (h : Json.lookup name fields = some value) : (name, value) ∈ fields := by
  obtain ⟨g, hg, rfl⟩ := Option.map_eq_some_iff.mp h
  have hname := List.find?_some hg
  rw [decide_eq_true_eq] at hname
  exact hname ▸ List.mem_of_find?_eq_some hg

/-- What stands under `input` in a normalised class is a specification, or nothing. -/
theorem input_normalized (entry : Json) : (Json.obj (normalizeClassInfo entry)).get "input" = .null ∨
    ∃ spec, (Json.obj (normalizeClassInfo entry)).get "input" = normalizeInputSpec spec := by
  rw [Json.get]
  cases hlookup : Json.lookup "input" (normalizeClassInfo entry) with
  | none => exact .inl rfl
  | some value =>
    obtain ⟨spec, hspec⟩ := mem_normalizeClassInfo (mem_of_lookup hlookup)
    exact .inr ⟨spec, hspec⟩

theorem get_of_not_has {v : Json} (h : v.has name = false) : v.get name = .null := by
  cases v with
  | obj fields =>
    rw [Json.has, Option.isSome_eq_false_iff, Option.isNone_iff_eq_none] at h
    rw [Json.get, h]
    rfl
  | _ => rfl

theorem looksRaw_normalized (entry : Json) : looksRaw (.obj (normalizeClassInfo entry)) = true ↔
    ∃ name ∈ (inputsOf entry).map Prod.fst, name ∈ rawClassKeys := by
  have hinput : ((Json.obj (normalizeClassInfo entry)).get "input").isObj = true →
      ((Json.obj (normalizeClassInfo entry)).get "input").has "kind" = true := by
    obtain hnull | ⟨spec, hspec⟩ := input_normalized entry
    · rw [hnull]
      exact fun h => h
    · rw [hspec, has_normalizeInputSpec]
      exact fun _ => rfl
  rw [looksRaw, Bool.or_eq_true, Bool.and_eq_true, Bool.not_eq_true', List.any_eq_true]
  constructor
  · rintro (⟨key, hkey, hhas⟩ | ⟨hobj, hkind⟩)
    · rw [Json.has, lookup_isSome_iff, names_normalizeClassInfo] at hhas
      exact ⟨key, hhas, hkey⟩
    · rw [hinput hobj] at hkind
      cases hkind
  · rintro ⟨name, hname, hkey⟩
    refine .inl ⟨name, hkey, ?_⟩
    rw [Json.has, lookup_isSome_iff, names_normalizeClassInfo]
    exact hname

/-- Nothing is left of a normalised class that is taken for a raw one. -/
theorem normalizeClassInfo_normalized (entry : Json) : normalizeClassInfo (.obj (normalizeClassInfo entry)) = [] := by
  have hgroups : ∀ group ∈ ["required", "optional"], ((Json.obj (normalizeClassInfo entry)).get "input").get group = .null := by
    intro group hgroup
    obtain hnull | ⟨spec, hspec⟩ := input_normalized entry
    · rw [hnull]
      rfl
    · have hno : ((normalizeInputSpec spec).has group) = false := by
        rw [has_normalizeInputSpec]
        revert group
        decide
      rw [hspec, get_of_not_has hno]
  have hnone : inputsOf (.obj (normalizeClassInfo entry)) = [] := by
    rw [inputsOf, List.flatten_eq_nil_iff]
    intro fields hfields
    obtain ⟨group, hgroup, rfl⟩ := List.mem_map.mp hfields
    rw [hgroups group hgroup]
    rfl
  rw [normalizeClassInfo, hnone]
  rfl

/-- A normalised class is left as it is exactly where none of its inputs has a name by which raw classes are told. -/
theorem normalizedClass_normalized_iff (entry : Json) :
    normalizedClass (.obj (normalizeClassInfo entry)) = normalizeClassInfo entry ↔
      ∀ name ∈ (inputsOf entry).map Prod.fst, name ∉ rawClassKeys := by
  unfold normalizedClass
  split
  · rename_i hraw
    rw [normalizeClassInfo_normalized]
    obtain ⟨name, hname, hkey⟩ := (looksRaw_normalized entry).mp hraw
    refine iff_of_false (fun hnil => ?_) fun h => h name hname hkey
    rw [← names_normalizeClassInfo, ← hnil] at hname
    cases hname
  · rename_i hraw
    refine iff_of_true (List.filter_eq_self.mpr fun f hf => isObj_normalizeClassInfo hf) fun name hname hkey => ?_
    exact hraw ((looksRaw_normalized entry).mpr ⟨name, hname, hkey⟩)

/-- A class of `/object_info`: its inputs, with those required or those optional. -/
def IsRawClass (entry : Json) : Prop :=
  (entry.get "input").isObj = true ∧ ((entry.get "input").has "required" = true ∨ (entry.get "input").has "optional" = true)

/-- A raw class is normalised exactly where it looks raw. -/
theorem normalizedClass_eq_iff (h : IsRawClass entry) : normalizedClass entry = normalizeClassInfo entry ↔ looksRaw entry = true := by
  unfold normalizedClass
  split
  · rename_i hraw
    exact iff_of_true rfl hraw
  · rename_i hraw
    refine iff_of_false (fun heq => ?_) hraw
    obtain ⟨hobj, hgroup⟩ := h
    cases entry with
    | obj fields =>
      rw [Json.get] at hobj hgroup
      cases hlookup : Json.lookup "input" fields with
      | none =>
        rw [hlookup] at hobj
        cases hobj
      | some section' =>
        rw [hlookup, Option.getD_some] at hobj hgroup
        have hin : ("input", section') ∈ normalizeClassInfo (.obj fields) :=
          heq ▸ List.mem_filter.mpr ⟨mem_of_lookup hlookup, hobj⟩
        obtain ⟨spec, hspec⟩ := mem_normalizeClassInfo hin
        dsimp only at hspec
        rw [hspec, has_normalizeInputSpec, has_normalizeInputSpec] at hgroup
        exact absurd hgroup (by decide)
    | _ => cases hobj

end Classes

/-! Whole answers. -/

section Answers
variable {raw : Json}

theorem map_classes_eq_iff (f g : Json → Fields) : Json.obj ((classesOf raw).map fun e => (e.1, .obj (f e.2))) =
    .obj ((classesOf raw).map fun e => (e.1, .obj (g e.2))) ↔ ∀ e ∈ classesOf raw, f e.2 = g e.2 := by
  rw [Json.obj.injEq, List.map_inj_left]
  simp

theorem classesOf_normalized (raw : Json) :
    classesOf (normalizeObjectInfo raw) = (classesOf raw).map fun e => (e.1, .obj (normalizeClassInfo e.2)) := by
  rw [classesOf, normalizeObjectInfo, fieldsOf, List.filter_eq_self]
  intro f hf
  obtain ⟨e, -, rfl⟩ := List.mem_map.mp hf
  rfl

/-- The mapping reads the kinds of the normalised specifications. -/
theorem kinds_asNormalized (objectInfo : Json) : ComfyUi.asNormalized objectInfo =
    (fieldsOf (asNormalized objectInfo)).map fun e => (e.1, (fieldsOf e.2).map fun f => (f.1, f.2.get "kind")) := by
  have hadd (out : Fields) (e : String × Json) : (addInput out e).map (fun f => (f.1, f.2.get "kind")) =
      ComfyUi.addInput (out.map fun f => (f.1, f.2.get "kind")) e := by
    have hthere : (Json.lookup e.1 (out.map fun f => (f.1, f.2.get "kind"))).isSome = (Json.lookup e.1 out).isSome := by
      rw [Bool.eq_iff_iff, lookup_isSome_iff, lookup_isSome_iff, List.map_map]
      rfl
    rw [addInput, ComfyUi.addInput, hthere]
    split
    · rfl
    · rw [List.map_append]
      rfl
  have hclass (entry : Json) : (normalizeClassInfo entry).map (fun f => (f.1, f.2.get "kind")) = ComfyUi.normalizeClassInfo entry := by
    have hfold (entries out : Fields) : (entries.foldl addInput out).map (fun f => (f.1, f.2.get "kind")) =
        entries.foldl ComfyUi.addInput (out.map fun f => (f.1, f.2.get "kind")) := by
      induction entries generalizing out with
      | nil => rfl
      | cons e entries ih => rw [List.foldl_cons, List.foldl_cons, ih, hadd]
    exact hfold (inputsOf entry) []
  have hentry (entry : Json) : (normalizedClass entry).map (fun f => (f.1, f.2.get "kind")) = ComfyUi.normalizedClass entry := by
    unfold normalizedClass ComfyUi.normalizedClass
    split
    · exact hclass entry
    · rfl
  rw [ComfyUi.asNormalized, asNormalized, fieldsOf, List.map_map]
  refine List.map_congr_left fun e _ => ?_
  rw [← hentry]
  rfl

/-- Every class of a raw answer has its inputs. -/
def IsRaw (raw : Json) : Prop := ∀ e ∈ classesOf raw, IsRawClass e.2

/-- Raw and normalised specifications are interchangeable. -/
structure Interchangeable (raw : Json) : Prop where
  fromRaw : asNormalized raw = normalizeObjectInfo raw
  fromNormalized : asNormalized (normalizeObjectInfo raw) = normalizeObjectInfo raw
  issues : ∀ lib graph mapping, validateEntry lib graph mapping raw = validateEntry lib graph mapping (normalizeObjectInfo raw)

/-- A class that is told as raw, and would not be once it is normalised. -/
def Tellable (entry : Json) : Prop := looksRaw entry = true ∧ ∀ name ∈ (inputsOf entry).map Prod.fst, name ∉ rawClassKeys

theorem interchangeable_iff (hraw : IsRaw raw) : Interchangeable raw ↔ ∀ e ∈ classesOf raw, Tellable e.2 := by
  have hfrom : asNormalized raw = normalizeObjectInfo raw ↔ ∀ e ∈ classesOf raw, looksRaw e.2 = true := by
    rw [asNormalized, normalizeObjectInfo, map_classes_eq_iff]
    exact forall₂_congr fun e he => normalizedClass_eq_iff (hraw e he)
  have hagain : asNormalized (normalizeObjectInfo raw) = normalizeObjectInfo raw ↔
      ∀ e ∈ classesOf raw, ∀ name ∈ (inputsOf e.2).map Prod.fst, name ∉ rawClassKeys := by
    rw [asNormalized, classesOf_normalized, List.map_map, normalizeObjectInfo]
    have hcompose : ((fun e : String × Json => (e.1, Json.obj (normalizedClass e.2))) ∘ fun e => (e.1, Json.obj (normalizeClassInfo e.2))) =
        fun e : String × Json => (e.1, .obj (normalizedClass (.obj (normalizeClassInfo e.2)))) := rfl
    rw [hcompose, map_classes_eq_iff fun entry => normalizedClass (.obj (normalizeClassInfo entry))]
    exact forall₂_congr fun e _ => normalizedClass_normalized_iff e.2
  constructor
  · intro h e he
    exact ⟨hfrom.mp h.fromRaw e he, hagain.mp h.fromNormalized e he⟩
  · intro h
    have hfromRaw := hfrom.mpr fun e he => (h e he).1
    have hfromNormalized := hagain.mpr fun e he => (h e he).2
    refine ⟨hfromRaw, hfromNormalized, fun lib graph mapping => ?_⟩
    have hkinds : ComfyUi.asNormalized raw = ComfyUi.asNormalized (normalizeObjectInfo raw) := by
      rw [kinds_asNormalized, kinds_asNormalized, hfromRaw, hfromNormalized]
    rw [validateEntry, validateEntry, hkinds]

end Answers

/-- A class with one required input, which takes a number. -/
def oneInput (name : String) (others : Fields) : Json :=
  .obj [("KSampler", .obj [("input", .obj (("required", .obj [(name, .arr [.str "INT", .obj []])]) :: others))])]

theorem isRaw_oneInput (name : String) (others : Fields) : IsRaw (oneInput name others) := by
  intro e he
  rw [List.mem_singleton.mp he]
  exact ⟨rfl, .inl rfl⟩

set_option maxRecDepth 8000 in
/-- An input with the name of a key of raw classes is lost, and so is a class with a group `kind`. -/
theorem category_lost : IsRaw (oneInput "category" []) ∧ ¬ Interchangeable (oneInput "category" []) ∧
    IsRaw (oneInput "seed" [("kind", .obj [])]) ∧ ¬ Interchangeable (oneInput "seed" [("kind", .obj [])]) := by
  refine ⟨isRaw_oneInput _ _, fun h => ?_, isRaw_oneInput _ _, fun h => ?_⟩
  · have hhas := congrArg (fun v : Json => (v.get "KSampler").has "category") h.fromNormalized
    exact absurd hhas (by decide)
  · have hhas := congrArg (fun v : Json => (v.get "KSampler").has "seed") h.fromRaw
    exact absurd hhas (by decide)

set_option maxRecDepth 8000 in
theorem seed_interchangeable : Interchangeable (oneInput "seed" []) := by
  refine (interchangeable_iff (isRaw_oneInput _ _)).mpr fun e he => ?_
  rw [List.mem_singleton.mp he]
  exact ⟨by decide, by decide⟩

end XgenSdk.ComfyUi.ObjectInfo
