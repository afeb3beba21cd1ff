import XgenSdk.ComfyUi.Mapping
import Mathlib.Data.List.Nodup

/-! What is known of a mapping that has no issue. -/
namespace XgenSdk.ComfyUi
open XgenSdk.Py
variable {fl : Floats} {graph : Json} {specs : List (String × Fields)}

theorem issueIf_nil {wrong : Bool} {path code message : String} (h : issueIf wrong path code message = []) : wrong = false := by
  cases wrong with
  | false => rfl
  | true => cases h

/-- A parameter without an issue of its own. -/
structure ParamOk (fl : Floats) (p : Param) : Prop where
  type : isParamType p.type = true
  randomize : p.randomize = true → p.type = "integer"
  choices : ∀ choices, p.choices = some choices → hasChoices p = true
  matching : ∀ choices, p.choices = some choices → ∀ c ∈ choices, matchesType fl c p.type = true
  default : p.default ≠ .null → matchesType fl p.default p.type = true ∧
    (isNumeric p.type && outOfRange fl p p.default) = false ∧ notInChoices fl p p.default = false

theorem isNull_false {v : Json} (h : v ≠ .null) : isNull v = false := by
  cases v with
  | null => exact absurd rfl h
  | _ => rfl

theorem choiceIssues_nil {i : Nat} {p : Param} (htype : isParamType p.type = true) (h : choiceIssues fl i p = []) :
    ∀ choices, p.choices = some choices → hasChoices p = true ∧ ∀ c ∈ choices, matchesType fl c p.type = true := by
  intro choices hchoices
  unfold choiceIssues at h
  rw [hchoices] at h
  dsimp only at h
  split at h
  · cases h
  · rename_i hboolean
    split at h
    · cases h
    · rename_i hempty
      refine ⟨by simpa [hasChoices, hchoices, hboolean] using hempty, fun c hc => ?_⟩
      obtain ⟨k, hk, rfl⟩ := List.getElem_of_mem hc
      have hmem : (choices[k], k) ∈ choices.zipIdx := List.mem_zipIdx_iff_getElem?.mpr (List.getElem?_eq_getElem hk)
      have hone := List.flatMap_eq_nil_iff.mp h _ hmem
      simpa using issueIf_nil hone

theorem defaultIssues_nil {i : Nat} {p : Param} (htype : isParamType p.type = true) (h : defaultIssues fl i p = [])
    (hdefault : p.default ≠ .null) : matchesType fl p.default p.type = true ∧
      (isNumeric p.type && outOfRange fl p p.default) = false ∧ notInChoices fl p p.default = false := by
  rw [defaultIssues, isNull_false hdefault, htype] at h
  simp only [Bool.not_true, Bool.false_eq_true, if_false] at h
  split at h
  · cases h
  rename_i hmatches
  split at h
  · cases h
  rename_i hrange
  split at h
  · cases h
  rename_i hchoices
  exact ⟨by simpa using hmatches, by simpa using hrange, by simpa using hchoices⟩

theorem fieldIssues_nil {i : Nat} {p : Param} (h : fieldIssues fl i p = []) : ParamOk fl p := by
  simp only [fieldIssues, List.append_eq_nil_iff] at h
  obtain ⟨⟨⟨⟨⟨⟨⟨⟨htype, -⟩, hrandomize⟩, -⟩, -⟩, -⟩, hchoices⟩, hdefault⟩, -⟩ := h
  have htype : isParamType p.type = true := by simpa using issueIf_nil htype
  have hrandomize := issueIf_nil hrandomize
  refine ⟨htype, fun hrandom => ?_, fun choices heq => (choiceIssues_nil htype hchoices choices heq).1,
    fun choices heq => (choiceIssues_nil htype hchoices choices heq).2, defaultIssues_nil htype hdefault⟩
  simpa [hrandom] using hrandomize

/-! Names and targets, each seen once. -/

theorem isParamName_ne {name : String} (h : isParamName name = true) : name ≠ "" := by
  rintro rfl
  revert h
  decide

theorem checkName_nil {i : Nat} {p : Param} {seen : List String} (h : (checkName i p seen).1 = []) :
    p.name ≠ "" ∧ p.name ∉ seen ∧ (checkName i p seen).2 = seen ++ [p.name] := by
  unfold checkName at h ⊢
  split at h
  · cases h
  rename_i hname
  split at h
  · cases h
  rename_i hseen
  rw [if_neg hname, if_neg hseen]
  exact ⟨isParamName_ne (by simpa using hname), by simpa using hseen, rfl⟩

/-- The input is there, and no link. -/
def IsOpen (graph : Json) (t : Target) : Prop := ∃ value, inputAt graph t = some value ∧ isLink value = false

theorem checkTarget_nil {type path : String} {t : Target} {seen : List Target}
    (h : (checkTarget fl specs graph type path t seen).1 = []) :
    IsOpen graph t ∧ t ∉ seen ∧ (checkTarget fl specs graph type path t seen).2 = seen ++ [t] := by
  unfold checkTarget at h ⊢
  cases hnode : (nodeAt graph t.nodeId).filter fun _ => t.nodeId ≠ "" with
  | none =>
    rw [hnode] at h
    cases h
  | some node =>
    rw [hnode] at h
    dsimp only at h ⊢
    cases hinput : inputOf node t.input with
    | none =>
      rw [hinput] at h
      cases h
    | some value =>
      rw [hinput] at h
      dsimp only at h ⊢
      split at h
      · cases h
      rename_i hlink
      split at h
      · cases h
      rename_i hseen
      have hat : inputAt graph t = some value := by
        rw [inputAt, (Option.filter_eq_some_iff.mp hnode).1]
        exact hinput
      refine ⟨⟨value, hat, by simpa using hlink⟩, by simpa using hseen, ?_⟩
      rw [if_neg hlink, if_neg hseen]
      split <;> rfl

theorem checkTargets_nil {type base : String} {j : Nat} {targets seen : List Target} (hseen : seen.Nodup)
    (h : (checkTargets fl specs graph type base j targets seen).1 = []) :
    (checkTargets fl specs graph type base j targets seen).2 = seen ++ targets ∧ (seen ++ targets).Nodup ∧
      ∀ t ∈ targets, IsOpen graph t := by
  induction targets generalizing j seen with
  | nil => exact ⟨(List.append_nil seen).symm, by simpa using hseen, fun t ht => by cases ht⟩
  | cons t targets ih =>
    rw [checkTargets] at h ⊢
    dsimp only at h ⊢
    obtain ⟨hone, hrest⟩ := List.append_eq_nil_iff.mp h
    obtain ⟨hopen, hfresh, hseen'⟩ := checkTarget_nil hone
    rw [hseen'] at hrest ⊢
    have hnodup : (seen ++ [t]).Nodup := by
      rw [← List.concat_eq_append]
      exact hseen.concat hfresh
    obtain ⟨hall, hnodup', hrestOpen⟩ := ih hnodup hrest
    rw [List.append_assoc, List.singleton_append] at hall hnodup'
    refine ⟨hall, hnodup', fun u hu => ?_⟩
    obtain rfl | hu := List.mem_cons.mp hu
    · exact hopen
    · exact hrestOpen u hu

/-- Parameters without an issue; no name and no target twice. -/
structure ParamsOk (fl : Floats) (graph : Json) (params : List Param) : Prop where
  each : ∀ p ∈ params, ParamOk fl p
  named : ∀ p ∈ params, p.name ≠ ""
  names : (params.map Param.name).Nodup
  targets : (params.flatMap Param.targets).Nodup
  inputs : ∀ t ∈ params.flatMap Param.targets, IsOpen graph t

theorem checkParams_nil {i : Nat} {params : List Param} {names : List String} {targets : List Target} (hnames : names.Nodup)
    (htargets : targets.Nodup) (h : checkParams fl specs graph i params names targets = []) :
    (names ++ params.map Param.name).Nodup ∧ (targets ++ params.flatMap Param.targets).Nodup ∧
      ∀ p ∈ params, ParamOk fl p ∧ p.name ≠ "" ∧ ∀ t ∈ p.targets, IsOpen graph t := by
  induction params generalizing i names targets with
  | nil => exact ⟨by simpa using hnames, by simpa using htargets, fun p hp => by cases hp⟩
  | cons p params ih =>
    rw [checkParams] at h
    simp only [List.append_eq_nil_iff] at h
    obtain ⟨⟨⟨hname, hfields⟩, haimed⟩, hrest⟩ := h
    obtain ⟨hne, hfresh, hnames'⟩ := checkName_nil hname
    obtain ⟨htargets', hnodup, hopen⟩ := checkTargets_nil htargets haimed
    rw [hnames', htargets'] at hrest
    have hnodupNames : (names ++ [p.name]).Nodup := by
      rw [← List.concat_eq_append]
      exact hnames.concat hfresh
    obtain ⟨hallNames, hallTargets, hall⟩ := ih hnodupNames hnodup hrest
    rw [List.append_assoc, List.singleton_append] at hallNames
    rw [List.append_assoc] at hallTargets
    refine ⟨hallNames, hallTargets, fun q hq => ?_⟩
    obtain rfl | hq := List.mem_cons.mp hq
    · exact ⟨fieldIssues_nil hfields, hne, hopen⟩
    · exact hall q hq

/-- A mapping without an issue. -/
theorem validateEntry_nil {lib : Libraries} {mapping : RawMapping} {objectInfo : Json}
    (h : validateEntry lib graph mapping objectInfo = []) :
    ParamsOk lib.toFloats graph (normalizeMapping lib mapping).params := by
  unfold validateEntry at h
  simp only [List.append_eq_nil_iff] at h
  obtain ⟨hnames, htargets, hall⟩ := checkParams_nil List.nodup_nil List.nodup_nil h.1.2
  refine ⟨fun p hp => (hall p hp).1, fun p hp => (hall p hp).2.1, hnames, htargets, fun t ht => ?_⟩
  obtain ⟨p, hp, ht⟩ := List.mem_flatMap.mp ht
  exact (hall p hp).2.2 t ht

end XgenSdk.ComfyUi
