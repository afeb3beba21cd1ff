import XgenSdk.Approval.Blocks
import XgenSdk.Py.Numbers

/-! Which optional items an evaluation form has on. The answer comes from the
stored versions of the evaluation templates, never from the value sent. -/
namespace XgenSdk.Evaluation
open XgenSdk.Py XgenSdk.Models

def builtinTemplateId : String := "ai-risk"
def legacyTemplateId : String := "default"

def versionNotFound : String := "평가한 양식 버전을 찾을 수 없으니 평가지를 다시 열어 평가해 주세요."
def versionMismatch : String := "이 칸에 지정된 평가 양식이 아니니 평가지를 다시 열어 평가해 주세요."

def choice (code label : String) : Json := .obj [("code", .str code), ("label", .str label)]

def impactScopeChoices : Json :=
  .arr [choice "CUSTOMER" "대고객", choice "EMPLOYEES" "임직원", choice "DEPARTMENT" "부서",
    choice "PERSONAL" "개인"]

def traitChoices : Json :=
  .arr [choice "PERSONAL_DATA" "개인정보 처리", choice "HIGH_IMPACT_AI" "고영향 AI 해당"]

def choiceOption (enabled : Bool) (choices : Json) : Json :=
  .obj [("enabled", .bool enabled), ("choices", choices)]

/-- Everything on: what forms were before there were options. -/
def fullOptions : Json :=
  .obj [("mitigation", .bool true), ("impact_scope", choiceOption true impactScopeChoices),
    ("traits", choiceOption true traitChoices), ("attachments", .bool true),
    ("agent_risk_grade", .bool true)]

/-- The choices with a code, each code once. -/
def collectChoices : List String → List Json → List Json
  | _, [] => []
  | seen, item :: rest =>
    let code := strip (item.get "code").textOr
    if !item.isObj || code = "" || seen.contains code then collectChoices seen rest
    else
      let label := item.get "label"
      let text := strip (if label.truthy then label.toStr else code)
      choice code (if text = "" then code else text) :: collectChoices (code :: seen) rest

def choices (raw default : Json) : Json :=
  let out := collectChoices [] raw.items
  if out.isEmpty then default else .arr out

def enabledOf (value : Json) : Bool :=
  if value.isObj then (if value.has "enabled" then (value.get "enabled").truthy else true)
  else value.truthy

def flag (raw : Json) (key : String) : String × Json :=
  (key, if raw.has key then .bool (enabledOf (raw.get key)) else .bool true)

def choiceFlag (raw : Json) (key : String) (default : Json) : String × Json :=
  let value := raw.get key
  (key, if !raw.has key then choiceOption true default
    else choiceOption (enabledOf value)
      (if value.isObj then choices (value.get "choices") default else default))

def normalizeOptions (policyData : Json) : Json :=
  let raw := policyData.get "options"
  if !raw.isObj then fullOptions
  else .obj [flag raw "mitigation", flag raw "attachments", flag raw "agent_risk_grade",
    choiceFlag raw "impact_scope" impactScopeChoices, choiceFlag raw "traits" traitChoices]

/-! The tables of templates and versions. -/

/-- A row of `risk_assessment_templates`. -/
structure Template where
  templateId : Option String
  isDefault : Json

/-- A row of `risk_assessment_policies`. -/
structure PolicyRow where
  id : Int
  templateId : Option String
  version : Json
  policyData : Option Json
  isActive : Json

/-- The two tables as this call can read them; `none` where a read raises.
`lower` is `str.lower`. -/
structure Tables where
  templates : Option (List Template)
  policies : Option (List PolicyRow)
  lower : String → String

/-- Truth of a column, which drivers return in several shapes. -/
def truthyColumn (lower : String → String) : Json → Bool
  | .str s => ["1", "t", "true", "y", "yes"].contains (lower (strip s))
  | v => v.truthy

def parsePolicyData (raw : Option Json) : Json :=
  match raw with
  | some (.obj fields) => .obj fields
  | _ => .obj []

/-- The template a block is pinned to, empty where it follows the default. -/
def configTemplateId (block : Block) : String :=
  strip ((Blocks.parseData block.config).get "template_id").textOr

def templateIdOf (t : Template) : String := t.templateId.getD ""

def resolveTemplateId (tables : Tables) (requested : String) : Option String :=
  tables.templates.map fun templates =>
    if requested ≠ "" && templates.any fun t => templateIdOf t = requested then requested
    else match templates.find? fun t => truthyColumn tables.lower t.isDefault with
      | some t => if templateIdOf t = "" then builtinTemplateId else templateIdOf t
      | none => builtinTemplateId

/-- The version row a value names; the outer `none` is a failed read, where
`isdigit` lets through digits that `int()` refuses as well. -/
def policyRow (tables : Tables) (policyId : Json) : Option (Option PolicyRow) :=
  match policyId with
  | .bool _ => some none
  | v =>
    let pid := strip v.toStr
    if !isDigits pid then some none
    else match intOfString pid with
      | none => none
      | some n => tables.policies.map fun rows => rows.find? fun r => r.id = n

def versionNumber (row : PolicyRow) : Int :=
  if row.version.truthy then row.version.toInt.getD 0 else 0

/-- `max(rows, key=...)`: the first of the rows with the greatest version. -/
def latest : List PolicyRow → Option PolicyRow
  | [] => none
  | r :: rest =>
    match latest rest with
    | some s => if versionNumber r < versionNumber s then some s else some r
    | none => some r

def activePolicyRow (tables : Tables) (templateId : String) : Option (Option PolicyRow) :=
  tables.policies.map fun rows => latest (rows.filter fun r =>
    r.templateId = some templateId && truthyColumn tables.lower r.isActive)

def hasPolicyId : Json → Bool
  | .null => false
  | v => strip v.toStr ≠ ""

def optionsOf (row : Option PolicyRow) : Json :=
  match row with
  | none => fullOptions
  | some r => normalizeOptions (parsePolicyData r.policyData)

/-- The options a value must follow. A failed read means everything on. -/
def resolveOptions (tables : Tables) (block : Block) (value : Json) :
    Except ApprovalError Json :=
  let policyId := value.get "policy_id"
  let fixed := configTemplateId block
  if hasPolicyId policyId then
    match policyRow tables policyId with
    | none => .ok fullOptions
    | some none => raise versionNotFound
    | some (some row) =>
      if fixed = "" then .ok (optionsOf (some row))
      else match resolveTemplateId tables fixed with
        | none => .ok fullOptions
        | some templateId =>
          let own := strip (row.templateId.getD "")
          if (if own = "" then legacyTemplateId else own) ≠ templateId then raise versionMismatch
          else .ok (optionsOf (some row))
  else
    let wanted := if fixed = "" then strip (value.get "template_id").textOr else fixed
    match resolveTemplateId tables wanted with
    | none => .ok fullOptions
    | some templateId =>
      match activePolicyRow tables templateId with
      | none => .ok fullOptions
      | some row => .ok (optionsOf row)

/-! What the store does to a value before it writes it. -/

/-- The `options` of an evaluation are the server's own. -/
def withServerOptions (tables : Tables) (block : Block) (data : Json) :
    Except ApprovalError Json :=
  if Blocks.normalizeBlockType block.blockType ≠ Blocks.evaluation || !data.isObj || !data.truthy then
    .ok data
  else match resolveOptions tables block data with
    | .error e => .error e
    | .ok options => .ok (data.set "options" options)

def checkBlockValue (tables : Tables) (block : Block) (data : Json) : Except ApprovalError Unit :=
  match Blocks.validateData tables.lower block data with
  | .error text => raise text
  | .ok _ => .ok ()

/-- The value as it is stored, if it may be stored. -/
def accepted (tables : Tables) (block : Block) (data : Json) : Except ApprovalError Json :=
  match withServerOptions tables block data with
  | .error e => .error e
  | .ok value =>
    match checkBlockValue tables block value with
    | .error e => .error e
    | .ok _ => .ok value

/-! The options of an evaluation template, brought into their full shape, agree
with what the blocks read from the raw value. -/

open XgenSdk.Py XgenSdk.Py.Json XgenSdk.Blocks

/-- Optional items that are only on or off. -/
def flagOptions : List String := ["mitigation", "attachments", "agent_risk_grade"]

/-- Optional items that carry choices where they are on. -/
def choiceOptions : List String := ["impact_scope", "traits"]

/-- The choices an item falls back to. -/
def defaultChoices (key : String) : Json :=
  if key = "impact_scope" then impactScopeChoices else traitChoices

/-- The choices of an item as its raw value gives them. -/
def choicesOf (raw : Json) (key : String) : Json :=
  if (raw.get key).isObj then choices ((raw.get key).get "choices") (defaultChoices key)
  else defaultChoices key

/-- The same keys with the same values, whatever their order. -/
def SameDict (v w : Json) : Prop := ∀ key, v.has key = w.has key ∧ v.get key = w.get key

theorem get_of_not_has {v : Json} {key : String} (h : v.has key = false) : v.get key = .null := by
  cases v with
  | obj fields =>
    have hnone : lookup key fields = none := by simpa [has] using h
    simp [Json.get, hnone]
  | _ => rfl

theorem optionOn_eq (raw : Json) (key : String) :
    optionOn raw key = if raw.has key then enabledOf (raw.get key) else true := by
  unfold optionOn
  split
  · cases raw.get key with
    | obj fields => cases h : lookup "enabled" fields <;> simp [enabledOf, isObj, has, Json.get, h, truthy]
    | _ => rfl
  · rfl

theorem optionOn_of_not_obj {raw : Json} (h : raw.isObj = false) (key : String) : optionOn raw key = true := by
  cases raw with
  | obj fields => cases h
  | _ => rfl

theorem flag_eq (raw : Json) (key : String) : flag raw key = (key, .bool (optionOn raw key)) := by
  rw [flag, optionOn_eq]
  split <;> rfl

theorem choiceFlag_eq (raw : Json) (key : String) :
    choiceFlag raw key (defaultChoices key) = (key, choiceOption (optionOn raw key) (choicesOf raw key)) := by
  rw [choiceFlag, optionOn_eq, choicesOf]
  cases h : raw.has key with
  | true => rfl
  | false => rw [get_of_not_has h]; rfl

/-- An item in its full shape: on or off, with choices where it has them. -/
def fullItem (raw : Json) (key : String) : Json :=
  if key ∈ flagOptions then .bool (optionOn raw key)
  else choiceOption (optionOn raw key) (choicesOf raw key)

theorem normalizeOptions_of_obj {policyData : Json} (h : (policyData.get "options").isObj = true) :
    normalizeOptions policyData = .obj ((flagOptions ++ choiceOptions).map fun key =>
      (key, fullItem (policyData.get "options") key)) := by
  have himpact := choiceFlag_eq (policyData.get "options") "impact_scope"
  have htraits := choiceFlag_eq (policyData.get "options") "traits"
  change choiceFlag _ _ impactScopeChoices = _ at himpact
  change choiceFlag _ _ traitChoices = _ at htraits
  rw [normalizeOptions, h, flag_eq, flag_eq, flag_eq, himpact, htraits]
  rfl

theorem normalizeOptions_of_not_obj {policyData : Json} (h : (policyData.get "options").isObj = false) :
    normalizeOptions policyData = fullOptions := by
  rw [normalizeOptions, h]
  rfl

theorem lookup_map (keys : List String) (f : String → Json) (key : String) :
    lookup key (keys.map fun k => (k, f k)) = if key ∈ keys then some (f key) else none := by
  induction keys with
  | nil => rfl
  | cons k keys ih =>
    unfold lookup at ih ⊢
    rw [List.map_cons, List.find?_cons]
    by_cases hk : k = key
    · simp [hk]
    · have hne : ¬ key = k := fun h => hk h.symm
      simpa [hk, hne] using ih

theorem not_mem_items {key : String} (h : key ∉ flagOptions ++ choiceOptions) : lookup key
    [("mitigation", .bool true), ("impact_scope", choiceOption true impactScopeChoices),
      ("traits", choiceOption true traitChoices), ("attachments", .bool true), ("agent_risk_grade", .bool true)] = none := by
  simp only [flagOptions, choiceOptions, List.cons_append, List.nil_append, List.mem_cons, List.not_mem_nil,
    or_false, not_or] at h
  obtain ⟨h1, h2, h3, h4, h5⟩ := h
  simp [lookup, Ne.symm h1, Ne.symm h2, Ne.symm h3, Ne.symm h4, Ne.symm h5]

/-- Every item of the normalized options, and nothing else. -/
theorem lookup_normalizeOptions (policyData : Json) : ∃ fields, normalizeOptions policyData = .obj fields ∧
    ∀ key, lookup key fields =
      if key ∈ flagOptions ++ choiceOptions then some (fullItem (policyData.get "options") key) else none := by
  cases h : (policyData.get "options").isObj with
  | true => exact ⟨_, normalizeOptions_of_obj h, fun key => lookup_map _ _ key⟩
  | false =>
    refine ⟨_, normalizeOptions_of_not_obj h, fun key => ?_⟩
    have hget : ∀ key, (policyData.get "options").get key = .null := by
      intro key
      cases hv : policyData.get "options" with
      | obj fields => rw [hv] at h; cases h
      | _ => rfl
    by_cases hkey : key ∈ flagOptions ++ choiceOptions
    · rw [if_pos hkey, fullItem, optionOn_of_not_obj h, choicesOf, hget]
      simp only [flagOptions, choiceOptions, List.cons_append, List.nil_append, List.mem_cons,
        List.not_mem_nil, or_false] at hkey
      rcases hkey with rfl | rfl | rfl | rfl | rfl <;> rfl
    · rw [if_neg hkey]
      exact not_mem_items hkey

theorem has_normalizeOptions (policyData : Json) (key : String) :
    (normalizeOptions policyData).has key = decide (key ∈ flagOptions ++ choiceOptions) := by
  obtain ⟨fields, hfields, hlookup⟩ := lookup_normalizeOptions policyData
  rw [hfields, has, hlookup]
  by_cases hkey : key ∈ flagOptions ++ choiceOptions
  · rw [if_pos hkey, decide_eq_true hkey]; rfl
  · rw [if_neg hkey, decide_eq_false hkey]; rfl

theorem get_normalizeOptions (policyData : Json) {key : String} (hkey : key ∈ flagOptions ++ choiceOptions) :
    (normalizeOptions policyData).get key = fullItem (policyData.get "options") key := by
  obtain ⟨fields, hfields, hlookup⟩ := lookup_normalizeOptions policyData
  rw [hfields, Json.get, hlookup, if_pos hkey]
  rfl

theorem optionOn_normalizeOptions (policyData : Json) {key : String} (hkey : key ∈ flagOptions ++ choiceOptions) :
    optionOn (normalizeOptions policyData) key = optionOn (policyData.get "options") key := by
  rw [optionOn_eq, has_normalizeOptions, decide_eq_true hkey, if_pos rfl, get_normalizeOptions policyData hkey, fullItem]
  split <;> rfl

/-! What the lists of choices hold. -/

def codeOf (item : Json) : String := (item.get "code").textOr

/-- A choice with its code and label trimmed and not empty. -/
def Tidy (item : Json) : Prop :=
  ∃ code label, item = choice code label ∧ strip code = code ∧ code ≠ "" ∧ strip label = label ∧ label ≠ ""

theorem textOr_str (s : String) : (Json.str s).textOr = s := by
  unfold textOr truthy toStr
  by_cases hs : s = "" <;> simp [hs]

theorem codeOf_choice (code label : String) : codeOf (choice code label) = code := textOr_str code

theorem tidy_choice {code : String} (hcode : strip code ≠ "") (text : String) :
    Tidy (choice (strip code) (if strip text = "" then strip code else strip text)) := by
  refine ⟨_, _, rfl, strip_strip code, hcode, ?_⟩
  split
  · exact ⟨strip_strip code, hcode⟩
  · rename_i htext
    exact ⟨strip_strip text, htext⟩

theorem collectChoices_tidy (seen : List String) (items : List Json) :
    (∀ item ∈ collectChoices seen items, Tidy item ∧ codeOf item ∉ seen) ∧
      ((collectChoices seen items).map codeOf).Nodup := by
  induction items generalizing seen with
  | nil => simp [collectChoices]
  | cons item rest ih =>
    rw [collectChoices]
    split
    · exact ih seen
    · rename_i hskip
      simp only [Bool.or_eq_true, Bool.not_eq_true', decide_eq_true_eq, List.contains_iff_mem, not_or,
        Bool.not_eq_false] at hskip
      obtain ⟨⟨-, hcode⟩, hseen⟩ := hskip
      obtain ⟨htidy, hnodup⟩ := ih (strip (item.get "code").textOr :: seen)
      have hfirst : ∀ label, codeOf (choice (strip (item.get "code").textOr) label) = strip (item.get "code").textOr :=
        codeOf_choice _
      refine ⟨fun x hx => ?_, ?_⟩
      · rcases List.mem_cons.mp hx with rfl | hx
        · exact ⟨tidy_choice hcode _, by rw [hfirst]; exact hseen⟩
        · exact ⟨(htidy x hx).1, fun h => (htidy x hx).2 (List.mem_cons_of_mem _ h)⟩
      · rw [List.map_cons, List.nodup_cons, hfirst]
        refine ⟨fun h => ?_, hnodup⟩
        obtain ⟨x, hx, hxcode⟩ := List.mem_map.mp h
        exact (htidy x hx).2 (hxcode ▸ List.mem_cons_self)

/-- A list of tidy choices with distinct codes is collected as it stands. -/
theorem collectChoices_of_tidy (seen : List String) (items : List Json) (htidy : ∀ item ∈ items, Tidy item ∧ codeOf item ∉ seen)
    (hnodup : (items.map codeOf).Nodup) : collectChoices seen items = items := by
  induction items generalizing seen with
  | nil => rfl
  | cons item rest ih =>
    obtain ⟨⟨code, label, rfl, hcode, hcode', hlabel, hlabel'⟩, hseen⟩ := htidy item List.mem_cons_self
    rw [List.map_cons, List.nodup_cons] at hnodup
    rw [codeOf_choice] at hseen hnodup
    have hget : ((choice code label).get "code").textOr = code := textOr_str code
    have hlabelGet : (choice code label).get "label" = .str label := rfl
    have hrest := ih (code :: seen) (fun x hx => ⟨(htidy x (List.mem_cons_of_mem _ hx)).1, ?_⟩) hnodup.2
    · rw [collectChoices, hget, hcode, hlabelGet, hrest]
      simp [isObj, choice, hcode', hseen, truthy, hlabel', toStr, hlabel]
    · rw [List.mem_cons, not_or]
      exact ⟨fun h => hnodup.1 (h ▸ List.mem_map_of_mem hx), (htidy x (List.mem_cons_of_mem _ hx)).2⟩

/-- A non-empty list of tidy choices, each code once. -/
def GoodChoices (v : Json) : Prop :=
  v.items ≠ [] ∧ v = .arr v.items ∧ (∀ item ∈ v.items, Tidy item) ∧ (v.items.map codeOf).Nodup

theorem goodChoices_default (key : String) : GoodChoices (defaultChoices key) := by
  have htidy : ∀ code label : String, strip code = code ∧ code ≠ "" ∧ strip label = label ∧ label ≠ "" →
      Tidy (choice code label) := fun code label h => ⟨code, label, rfl, h⟩
  rw [defaultChoices]
  split
  · refine ⟨List.cons_ne_nil _ _, rfl, fun item hitem => ?_, ?_⟩
    · simp only [impactScopeChoices, items, List.mem_cons, List.not_mem_nil, or_false] at hitem
      rcases hitem with rfl | rfl | rfl | rfl <;> exact htidy _ _ (by decide)
    · simp only [impactScopeChoices, items, List.map_cons, codeOf_choice]
      decide
  · refine ⟨List.cons_ne_nil _ _, rfl, fun item hitem => ?_, ?_⟩
    · simp only [traitChoices, items, List.mem_cons, List.not_mem_nil, or_false] at hitem
      rcases hitem with rfl | rfl <;> exact htidy _ _ (by decide)
    · simp only [traitChoices, items, List.map_cons, codeOf_choice]
      decide

theorem goodChoices_choices (raw : Json) {default : Json} (hdefault : GoodChoices default) :
    GoodChoices (choices raw default) := by
  rw [choices]
  split
  · exact hdefault
  · rename_i hempty
    obtain ⟨htidy, hnodup⟩ := collectChoices_tidy [] raw.items
    exact ⟨fun h => hempty (by rw [List.isEmpty_iff]; exact h), rfl, fun x hx => (htidy x hx).1, hnodup⟩

theorem choices_of_good {v : Json} (hv : GoodChoices v) (default : Json) : choices v default = v := by
  obtain ⟨hne, harr, htidy, hnodup⟩ := hv
  have hself := collectChoices_of_tidy [] v.items (fun x hx => ⟨htidy x hx, List.not_mem_nil⟩) hnodup
  rw [choices, hself, if_neg (by rw [List.isEmpty_iff]; exact hne)]
  exact harr.symm

theorem goodChoices_choicesOf (raw : Json) (key : String) : GoodChoices (choicesOf raw key) := by
  rw [choicesOf]
  split
  · exact goodChoices_choices _ (goodChoices_default key)
  · exact goodChoices_default key

/-- Normalizing the normalized options leaves each item as it is. -/
theorem fullItem_normalizeOptions (policyData : Json) {key : String} (hkey : key ∈ flagOptions ++ choiceOptions) :
    fullItem (normalizeOptions policyData) key = fullItem (policyData.get "options") key := by
  have hon := optionOn_normalizeOptions policyData hkey
  have hget := get_normalizeOptions policyData hkey
  unfold fullItem at hget ⊢
  split at hget
  · rename_i hflag
    rw [if_pos hflag, if_pos hflag, hon]
  · rename_i hflag
    have hchoices : choicesOf (normalizeOptions policyData) key = choicesOf (policyData.get "options") key := by
      rw [choicesOf, hget]
      exact choices_of_good (goodChoices_choicesOf _ key) _
    rw [if_neg hflag, if_neg hflag, hon, hchoices]

theorem normalizeOptions_twice (policyData : Json) :
    SameDict (normalizeOptions (.obj [("options", normalizeOptions policyData)])) (normalizeOptions policyData) := by
  intro key
  have hraw : (Json.obj [("options", normalizeOptions policyData)]).get "options" = normalizeOptions policyData := rfl
  refine ⟨by rw [has_normalizeOptions, has_normalizeOptions], ?_⟩
  by_cases hkey : key ∈ flagOptions ++ choiceOptions
  · rw [get_normalizeOptions _ hkey, get_normalizeOptions _ hkey, hraw, fullItem_normalizeOptions policyData hkey]
  · rw [get_of_not_has (by rw [has_normalizeOptions, decide_eq_false hkey]),
      get_of_not_has (by rw [has_normalizeOptions, decide_eq_false hkey])]

/-- What an item of normalized options says about being on. -/
def reportedOn (options : Json) (key : String) : Json :=
  if key ∈ flagOptions then options.get key else (options.get key).get "enabled"

theorem reportedOn_normalizeOptions (policyData : Json) {key : String} (hkey : key ∈ flagOptions ++ choiceOptions) :
    reportedOn (normalizeOptions policyData) key = .bool (optionOn (policyData.get "options") key) := by
  rw [reportedOn, get_normalizeOptions policyData hkey, fullItem]
  split
  · rfl
  · rfl

theorem goodChoices_normalizeOptions (policyData : Json) {key : String} (hkey : key ∈ choiceOptions) :
    GoodChoices (((normalizeOptions policyData).get key).get "choices") := by
  have hflag : key ∉ flagOptions := by
    simp only [choiceOptions, List.mem_cons, List.not_mem_nil, or_false] at hkey
    rcases hkey with rfl | rfl <;> decide
  rw [get_normalizeOptions policyData (List.mem_append_right _ hkey), fullItem, if_neg hflag]
  exact goodChoices_choicesOf _ key

/-- The normalized options and the blocks read every raw value alike. -/
theorem normalized_options_agree (policyData : Json) :
    (∀ key ∈ flagOptions ++ choiceOptions,
      reportedOn (normalizeOptions policyData) key = .bool (optionOn (policyData.get "options") key) ∧
      optionOn (normalizeOptions policyData) key = optionOn (policyData.get "options") key) ∧
    (∀ key, (normalizeOptions policyData).has key = decide (key ∈ flagOptions ++ choiceOptions)) ∧
    SameDict (normalizeOptions (.obj [("options", normalizeOptions policyData)])) (normalizeOptions policyData) ∧
    ∀ key ∈ choiceOptions, GoodChoices (((normalizeOptions policyData).get key).get "choices") :=
  ⟨fun _ hkey => ⟨reportedOn_normalizeOptions policyData hkey, optionOn_normalizeOptions policyData hkey⟩,
    has_normalizeOptions policyData, normalizeOptions_twice policyData,
    fun _ hkey => goodChoices_normalizeOptions policyData hkey⟩

end XgenSdk.Evaluation
