import XgenSdk.Approval.Evaluation
import XgenSdk.Py.Json

/-! The options stored with an evaluation are the server's own: what was sent
as `options` has no part in them. -/
namespace XgenSdk.Evaluation
open XgenSdk.Py XgenSdk.Py.Json XgenSdk.Models

/-- A block the options of which the server sets. -/
def IsEvaluation (block : Block) : Prop := Blocks.normalizeBlockType block.blockType = Blocks.evaluation

/-- Two dicts that agree on every key but `options`. -/
def SameButOptions (sent other : List (String × Json)) : Prop :=
  ∀ key, key ≠ "options" → lookup key sent = lookup key other

/-- The same value, or the same error. -/
def SameResult : Except ApprovalError Json → Except ApprovalError Json → Prop
  | .ok v, .ok w => SameDict v w
  | .error e, .error e' => e = e'
  | _, _ => False

/-- The template a version row belongs to, as a version given with a value is checked. -/
def templateOf (row : PolicyRow) : String :=
  let own := strip (row.templateId.getD "")
  if own = "" then legacyTemplateId else own

/-- A version of a template: its column holds the template's id as it stands, or trimmed. -/
def IsVersionOf (row : PolicyRow) (templateId : String) : Prop :=
  row.templateId = some templateId ∨ templateOf row = templateId

/-- A read this call makes raises. A value with a version reads the versions,
and the templates only where the block pins one and the version exists. -/
def ReadFails (tables : Tables) (block : Block) (value : Json) : Prop :=
  if hasPolicyId (value.get "policy_id") then
    policyRow tables (value.get "policy_id") = none ∨
      configTemplateId block ≠ "" ∧ (∃ row, policyRow tables (value.get "policy_id") = some (some row)) ∧
        tables.templates = none
  else tables.templates = none ∨ tables.policies = none

theorem withServerOptions_eq (tables : Tables) {block : Block} (hblock : IsEvaluation block)
    {fields : List (String × Json)} (hfields : fields ≠ []) :
    withServerOptions tables block (.obj fields) =
      (resolveOptions tables block (.obj fields)).map fun options => (Json.obj fields).set "options" options := by
  have htruthy : (Json.obj fields).truthy = true := by
    cases fields with
    | nil => exact absurd rfl hfields
    | cons f fields => rfl
  rw [withServerOptions, htruthy, hblock]
  cases h : resolveOptions tables block (.obj fields) with
  | error e => simp [isObj, Except.map]
  | ok options => simp [isObj, Except.map]

theorem resolveOptions_congr (tables : Tables) (block : Block) {sent other : Json}
    (hpolicy : sent.get "policy_id" = other.get "policy_id") (htemplate : sent.get "template_id" = other.get "template_id") :
    resolveOptions tables block sent = resolveOptions tables block other := by
  rw [resolveOptions, resolveOptions, hpolicy, htemplate]

theorem get_congr {sent other : List (String × Json)} (hsame : SameButOptions sent other) {key : String}
    (hkey : key ≠ "options") : (Json.obj sent).get key = (Json.obj other).get key := by
  rw [Json.get, Json.get, hsame key hkey]

theorem sameDict_set {sent other : List (String × Json)} (hsame : SameButOptions sent other) (options : Json) :
    SameDict ((Json.obj sent).set "options" options) ((Json.obj other).set "options" options) := by
  intro key
  rw [has_set _ _ _ _ rfl, has_set _ _ _ _ rfl, get_set _ _ _ _ rfl, get_set _ _ _ _ rfl]
  by_cases hkey : key = "options"
  · simp [hkey]
  · simp only [hkey, if_false, get_congr hsame hkey, has, hsame key hkey, and_self]

theorem withServerOptions_congr (tables : Tables) {block : Block} (hblock : IsEvaluation block)
    {sent other : List (String × Json)} (hsent : sent ≠ []) (hother : other ≠ []) (hsame : SameButOptions sent other) :
    SameResult (withServerOptions tables block (.obj sent)) (withServerOptions tables block (.obj other)) := by
  rw [withServerOptions_eq tables hblock hsent, withServerOptions_eq tables hblock hother,
    resolveOptions_congr tables block (get_congr hsame (by decide)) (get_congr hsame (by decide))]
  cases resolveOptions tables block (.obj other) with
  | error e => rfl
  | ok options => exact sameDict_set hsame options

/-! Where the options come from. -/

theorem latest_mem {rows : List PolicyRow} {row : PolicyRow} (h : latest rows = some row) : row ∈ rows := by
  induction rows generalizing row with
  | nil => cases h
  | cons r rest ih =>
    rw [latest] at h
    cases hrest : latest rest with
    | none =>
      rw [hrest] at h
      cases h
      exact List.mem_cons_self
    | some s =>
      rw [hrest] at h
      dsimp only at h
      split at h
      · cases h
        exact List.mem_cons_of_mem _ (ih hrest)
      · cases h
        exact List.mem_cons_self

/-- The value alone decides whether the versions are read, and for which row. -/
theorem policyRow_cases (policyId : Json) :
    (∀ tables, policyRow tables policyId = some none) ∨ (∀ tables, policyRow tables policyId = none) ∨
      ∃ n : Int, ∀ tables, policyRow tables policyId = tables.policies.map fun rows => rows.find? fun r => r.id = n := by
  unfold policyRow
  split
  · exact Or.inl fun _ => rfl
  · dsimp only
    split
    · exact Or.inl fun _ => rfl
    · split
      · exact Or.inr (Or.inl fun _ => rfl)
      · exact Or.inr (Or.inr ⟨_, fun _ => rfl⟩)

theorem policyRow_mem {tables : Tables} {policyId : Json} {row : PolicyRow}
    (h : policyRow tables policyId = some (some row)) : ∃ rows, tables.policies = some rows ∧ row ∈ rows := by
  rcases policyRow_cases policyId with hnone | hfails | ⟨n, hread⟩
  · rw [hnone] at h
    cases h
  · rw [hfails] at h
    cases h
  · rw [hread] at h
    obtain ⟨rows, hrows, hfind⟩ := Option.map_eq_some_iff.mp h
    exact ⟨rows, hrows, List.mem_of_find?_eq_some hfind⟩

theorem activePolicyRow_mem {tables : Tables} {templateId : String} {row : PolicyRow}
    (h : activePolicyRow tables templateId = some (some row)) :
    ∃ rows, tables.policies = some rows ∧ row ∈ rows ∧ row.templateId = some templateId := by
  obtain ⟨rows, hrows, hlatest⟩ := Option.map_eq_some_iff.mp h
  have hmem := List.mem_filter.mp (latest_mem hlatest)
  rw [Bool.and_eq_true, decide_eq_true_iff] at hmem
  exact ⟨rows, hrows, hmem.1, hmem.2.1⟩

/-- Options from a version of the template, or the full set. -/
def FromTemplate (tables : Tables) (templateId : String) (options : Json) : Prop :=
  options = fullOptions ∨ ∃ rows row, tables.policies = some rows ∧ row ∈ rows ∧ IsVersionOf row templateId ∧
    options = optionsOf (some row)

theorem resolveOptions_pinned {tables : Tables} {block : Block} {value options : Json}
    (hpinned : configTemplateId block ≠ "") (hoptions : resolveOptions tables block value = .ok options) :
    options = fullOptions ∨ ∃ templateId, resolveTemplateId tables (configTemplateId block) = some templateId ∧
      FromTemplate tables templateId options := by
  unfold resolveOptions at hoptions
  dsimp only at hoptions
  split at hoptions
  · cases hrow : policyRow tables (value.get "policy_id") with
    | none =>
      rw [hrow] at hoptions
      cases hoptions
      exact Or.inl rfl
    | some found =>
      cases found with
      | none => rw [hrow] at hoptions; cases hoptions
      | some row =>
        rw [hrow] at hoptions
        dsimp only at hoptions
        cases htemplate : resolveTemplateId tables (configTemplateId block) with
        | none =>
          rw [htemplate] at hoptions
          cases hoptions
          exact Or.inl rfl
        | some templateId =>
          rw [htemplate] at hoptions
          change (if templateOf row ≠ templateId then raise versionMismatch else Except.ok (optionsOf (some row))) = _
            at hoptions
          by_cases hown : templateOf row = templateId
          · obtain ⟨rows, hrows, hmem⟩ := policyRow_mem hrow
            rw [if_neg (not_not.mpr hown)] at hoptions
            cases hoptions
            exact Or.inr ⟨templateId, rfl, Or.inr ⟨rows, row, hrows, hmem, Or.inr hown, rfl⟩⟩
          · rw [if_pos hown] at hoptions
            cases hoptions
  · cases htemplate : resolveTemplateId tables (configTemplateId block) with
    | none =>
      rw [htemplate] at hoptions
      cases hoptions
      exact Or.inl rfl
    | some templateId =>
      rw [htemplate] at hoptions
      dsimp only at hoptions
      cases hactive : activePolicyRow tables templateId with
      | none =>
        rw [hactive] at hoptions
        cases hoptions
        exact Or.inl rfl
      | some found =>
        rw [hactive] at hoptions
        cases hoptions
        cases found with
        | none => exact Or.inl rfl
        | some row =>
          obtain ⟨rows, hrows, hmem, hid⟩ := activePolicyRow_mem hactive
          exact Or.inr ⟨templateId, rfl, Or.inr ⟨rows, row, hrows, hmem, Or.inl hid, rfl⟩⟩

theorem resolveOptions_mismatch {tables : Tables} {block : Block} {value : Json} {row : PolicyRow} {templateId : String}
    (hpinned : configTemplateId block ≠ "") (hgiven : hasPolicyId (value.get "policy_id") = true)
    (hrow : policyRow tables (value.get "policy_id") = some (some row))
    (htemplate : resolveTemplateId tables (configTemplateId block) = some templateId) (hother : templateOf row ≠ templateId) :
    resolveOptions tables block value = raise versionMismatch := by
  rw [resolveOptions, hgiven, hrow, htemplate]
  simp only [if_true, if_neg hpinned]
  exact if_pos hother

/-! Reads that fail. -/

theorem resolveTemplateId_eq_none {tables : Tables} (h : tables.templates = none) (requested : String) :
    resolveTemplateId tables requested = none := by
  rw [resolveTemplateId, h]
  rfl

theorem activePolicyRow_eq_none {tables : Tables} (h : tables.policies = none) (templateId : String) :
    activePolicyRow tables templateId = none := by
  rw [activePolicyRow, h]
  rfl

theorem resolveOptions_unread {tables : Tables} {block : Block} {value : Json} (hfails : ReadFails tables block value) :
    resolveOptions tables block value = .ok fullOptions := by
  unfold ReadFails at hfails
  unfold resolveOptions
  dsimp only
  split at hfails
  · rename_i hgiven
    rw [if_pos hgiven]
    rcases hfails with hrow | ⟨hpinned, ⟨row, hrow⟩, htemplates⟩
    · rw [hrow]
    · rw [hrow]
      dsimp only
      rw [if_neg hpinned, resolveTemplateId_eq_none htemplates]
  · rename_i hgiven
    rw [if_neg hgiven]
    rcases hfails with htemplates | hpolicies
    · rw [resolveTemplateId_eq_none htemplates]
    · cases resolveTemplateId tables (if configTemplateId block = "" then strip (value.get "template_id").textOr
          else configTemplateId block) with
      | none => rfl
      | some templateId => simp only [activePolicyRow_eq_none hpolicies]

/-- The same tables where they can be read, and any rows where they cannot. -/
def Extends (more tables : Tables) : Prop :=
  (tables.templates = none ∨ more.templates = tables.templates) ∧
    (tables.policies = none ∨ more.policies = tables.policies) ∧ more.lower = tables.lower

theorem resolveTemplateId_extends {more tables : Tables} (hmore : Extends more tables) {requested : String}
    (hread : tables.templates ≠ none) : resolveTemplateId more requested = resolveTemplateId tables requested := by
  rw [resolveTemplateId, resolveTemplateId, hmore.1.resolve_left hread, hmore.2.2]

theorem policyRow_extends {more tables : Tables} (hmore : Extends more tables) {policyId : Json}
    (hread : policyRow tables policyId ≠ none) : policyRow more policyId = policyRow tables policyId := by
  rcases policyRow_cases policyId with hnone | hfails | ⟨n, hrow⟩
  · rw [hnone, hnone]
  · exact absurd (hfails tables) hread
  · have hpolicies : tables.policies ≠ none := fun h => hread (by rw [hrow, h]; rfl)
    rw [hrow, hrow, hmore.2.1.resolve_left hpolicies]

/-- A table that no read of the call fails on has no part in the options. -/
theorem resolveOptions_extends {more tables : Tables} (hmore : Extends more tables) {block : Block} {value : Json}
    (hread : ¬ReadFails tables block value) : resolveOptions more block value = resolveOptions tables block value := by
  unfold ReadFails at hread
  unfold resolveOptions
  dsimp only
  split at hread
  · rename_i hgiven
    rw [not_or] at hread
    rw [if_pos hgiven, if_pos hgiven, policyRow_extends hmore hread.1]
    cases hrow : policyRow tables (value.get "policy_id") with
    | none => rfl
    | some found =>
      cases found with
      | none => rfl
      | some row =>
        dsimp only
        split
        · rfl
        · rename_i hpinned
          rw [resolveTemplateId_extends hmore fun h => hread.2 ⟨hpinned, ⟨row, hrow⟩, h⟩]
  · rename_i hgiven
    rw [not_or] at hread
    rw [if_neg hgiven, if_neg hgiven, resolveTemplateId_extends hmore hread.1]
    cases resolveTemplateId tables (if configTemplateId block = "" then strip (value.get "template_id").textOr
        else configTemplateId block) with
    | none => rfl
    | some templateId => simp only [activePolicyRow, hmore.2.1.resolve_left hread.2, hmore.2.2]

/-- What may be stored with an evaluation whatever was sent as its options. -/
theorem server_options_own (tables : Tables) {block : Block} (hblock : IsEvaluation block)
    {sent : List (String × Json)} (hsent : sent ≠ []) :
    (∀ other, other ≠ [] → SameButOptions sent other →
      SameResult (withServerOptions tables block (.obj sent)) (withServerOptions tables block (.obj other))) ∧
    (configTemplateId block ≠ "" →
      (∀ stored, withServerOptions tables block (.obj sent) = .ok stored →
        stored.get "options" = fullOptions ∨
        ∃ templateId, resolveTemplateId tables (configTemplateId block) = some templateId ∧
          FromTemplate tables templateId (stored.get "options")) ∧
      ∀ row templateId, hasPolicyId ((Json.obj sent).get "policy_id") = true →
        policyRow tables ((Json.obj sent).get "policy_id") = some (some row) →
        resolveTemplateId tables (configTemplateId block) = some templateId → templateOf row ≠ templateId →
        withServerOptions tables block (.obj sent) = raise versionMismatch) ∧
    (ReadFails tables block (.obj sent) →
      withServerOptions tables block (.obj sent) = .ok ((Json.obj sent).set "options" fullOptions)) ∧
    (¬ReadFails tables block (.obj sent) → ∀ more, Extends more tables →
      withServerOptions more block (.obj sent) = withServerOptions tables block (.obj sent)) := by
  refine ⟨fun other hother hsame => withServerOptions_congr tables hblock hsent hother hsame,
    fun hpinned => ⟨fun stored hstored => ?_, fun row templateId hgiven hrow htemplate hother => ?_⟩,
    fun hfails => ?_, fun hread more hmore => ?_⟩
  · rw [withServerOptions_eq tables hblock hsent] at hstored
    cases hoptions : resolveOptions tables block (.obj sent) with
    | error e => rw [hoptions] at hstored; cases hstored
    | ok options =>
      rw [hoptions] at hstored
      cases hstored
      rw [get_set _ _ _ _ rfl, if_pos rfl]
      exact resolveOptions_pinned hpinned hoptions
  · rw [withServerOptions_eq tables hblock hsent, resolveOptions_mismatch hpinned hgiven hrow htemplate hother]
    rfl
  · rw [withServerOptions_eq tables hblock hsent, resolveOptions_unread hfails]
    rfl
  · rw [withServerOptions_eq more hblock hsent, withServerOptions_eq tables hblock hsent,
      resolveOptions_extends hmore hread]

def pinnedBlock : Block :=
  { id := 1, stepOrder := 1, blockType := "risk_assessment", label := "",
    config := some (.obj [("template_id", .str " A ")]) }

def otherVersion : PolicyRow := ⟨7, some "B", .int 1, none, .bool true⟩

def twoTemplates : Tables :=
  ⟨some [⟨some "A", .bool false⟩, ⟨some "B", .bool true⟩], some [otherVersion], id⟩

/-- A version of another template is refused, with or without options sent. -/
theorem server_options_own_mismatch :
    withServerOptions twoTemplates pinnedBlock (.obj [("policy_id", .int 7), ("options", .obj [("traits", .null)])]) =
        raise versionMismatch ∧
      SameResult (withServerOptions twoTemplates pinnedBlock (.obj [("policy_id", .int 7), ("options", .obj [("traits", .null)])]))
        (withServerOptions twoTemplates pinnedBlock (.obj [("policy_id", .int 7)])) := by
  have hown := server_options_own twoTemplates (show IsEvaluation pinnedBlock from rfl)
    (List.cons_ne_nil ("policy_id", Json.int 7) [("options", .obj [("traits", .null)])])
  refine ⟨(hown.2.1 (by decide)).2 otherVersion "A" (by decide) rfl rfl (by decide),
    hown.1 _ (List.cons_ne_nil _ _) fun key hkey => ?_⟩
  have hne : ¬"options" = key := fun h => hkey h.symm
  simp [lookup, List.find?_cons, hne]

end XgenSdk.Evaluation
