import XgenSdk.Approval.Forms
import XgenSdk.Approval.Lines

/-! Writing a form: what its steps and blocks become. -/
namespace XgenSdk.FormEdits
open XgenSdk.Models XgenSdk.Tables XgenSdk.Lines XgenSdk.Forms

theorem le_maxIndex {steps : List FormStep} {s : FormStep} (hs : s ∈ steps) :
    s.stepIndex ≤ maxIndex steps := by
  have hmem : s.stepIndex ∈ steps.map FormStep.stepIndex := List.mem_map_of_mem hs
  unfold maxIndex
  cases hm : (steps.map FormStep.stepIndex).max? with
  | none =>
    rw [List.max?_eq_none_iff.mp hm] at hmem
    cases hmem
  | some m => exact (List.max?_eq_some_iff.mp hm).2 _ hmem

/-! What the shape check accepts. -/

theorem checkBlocks_cons (idx : List Int) (b : GivenBlock) (rest : List GivenBlock) :
    checkBlocks idx (b :: rest) =
      match checkBlock idx b with
      | .error e => .error e
      | .ok checked =>
        match checkBlocks idx rest with
        | .error e => .error e
        | .ok others => .ok (checked :: others) := rfl

/-! Writing the steps and blocks of a form. -/

theorem formRow_onForm {formId : Nat} {g : Form → Form} (hg : ∀ f, (g f).id = f.id) (o : Office) :
    formRow (onForm formId g o).toConfig formId = (formRow o.toConfig formId).map g := by
  have hid (f : Form) : (if f.id = formId then g f else f).id = f.id := by
    split
    · exact hg f
    · rfl
  have hfind : formRow (onForm formId g o).toConfig formId =
      (formRow o.toConfig formId).map fun f => if f.id = formId then g f else f := by
    simp only [formRow, onForm, List.find?_map]
    congr 2
    funext f
    simp only [Function.comp, hid]
  rw [hfind]
  refine Option.map_congr fun f hf => if_pos ?_
  simpa using List.find?_some hf

theorem onForm_onForm {formId : Nat} {g g' : Form → Form} (hg : ∀ f, (g f).id = f.id) (o : Office) :
    onForm formId g' (onForm formId g o) = onForm formId (g' ∘ g) o := by
  simp only [onForm, List.map_map]
  congr 2
  refine congrArg (fun f => List.map f o.forms) (funext fun f => ?_)
  simp only [Function.comp]
  by_cases hf : f.id = formId
  · rw [if_pos hf, if_pos ((hg f).trans hf), if_pos hf]
  · rw [if_neg hf, if_neg hf, if_neg hf]

/-- Steps of distinct indices are all written. -/
theorem insertSteps_on {formId : Nat} {todo : List GivenStep} {o : Office}
    (hnew : (todo.map GivenStep.stepIndex).Nodup)
    (hold : ∀ f, formRow o.toConfig formId = some f →
      ∀ t ∈ f.steps, t.stepIndex ∉ todo.map GivenStep.stepIndex) :
    (insertSteps formId todo).on o =
      (.ok (), onForm formId (fun f => { f with steps := f.steps ++ todo.map formStep }) o) := by
  induction todo generalizing o with
  | nil =>
    have hid : onForm formId (fun f => { f with steps := f.steps ++ [] }) o = o := by
      simp [onForm]
    simp only [insertSteps, List.map_nil, hid, Raising.on_pure]
  | cons s rest ih =>
    rw [List.map_cons, List.nodup_cons] at hnew
    have hfree : ((formRow o.toConfig formId).any fun f =>
        f.steps.any fun t => t.stepIndex = s.stepIndex) = false := by
      cases hf : formRow o.toConfig formId with
      | none => rfl
      | some f =>
        rw [Option.any_some, List.any_eq_false]
        intro t ht he
        exact hold f hf t ht (by simp [of_decide_eq_true he])
    simp only [insertSteps, Raising.on_bind, Raising.on_read, hfree, if_false, Bool.false_eq_true,
      Raising.on_write]
    rw [ih hnew.2, onForm_onForm fun _ => by rfl]
    · congr 2
      funext f
      simp
    · intro f hf t ht
      rw [formRow_onForm fun _ => by rfl] at hf
      obtain ⟨f', hf', rfl⟩ := Option.map_eq_some_iff.mp hf
      obtain ht | ht := List.mem_append.mp ht
      · intro hmem
        exact hold f' hf' t ht (List.mem_cons_of_mem _ hmem)
      · rw [List.mem_singleton.mp ht]
        exact hnew.1

/-- A form with these steps and blocks, and its retired rows. -/
def withContent (steps : List GivenStep) (blocks : List GivenBlock) (f : Form) : Form :=
  { f with
    steps := (steps.insertionSort fun a b => a.stepIndex ≤ b.stepIndex).map formStep
    blocks := (f.blocks.filter fun b => Blocks.isRetired b.blockType) ++ blocks.map formBlock }

theorem writeSteps_on {formId : Nat} {steps : List GivenStep} {o : Office}
    (h : (steps.map GivenStep.stepIndex).Nodup) :
    (writeSteps formId steps).on o = (.ok (), onForm formId (fun f =>
      { f with steps := (steps.insertionSort fun a b => a.stepIndex ≤ b.stepIndex).map formStep }) o) := by
  have hsorted : ((steps.insertionSort fun a b => a.stepIndex ≤ b.stepIndex).map
      GivenStep.stepIndex).Nodup :=
    (((List.perm_insertionSort _ steps).map GivenStep.stepIndex).nodup_iff).mpr h
  simp only [writeSteps, Raising.on_bind, Raising.on_write]
  rw [insertSteps_on hsorted]
  · rw [onForm_onForm fun _ => by rfl]
    rfl
  · intro f hf t ht
    rw [formRow_onForm fun _ => by rfl] at hf
    obtain ⟨f', _, rfl⟩ := Option.map_eq_some_iff.mp hf
    cases ht

theorem writeContent_on {formId : Nat} {steps : List GivenStep} {blocks : List GivenBlock} {o : Office}
    (h : (steps.map GivenStep.stepIndex).Nodup) :
    (writeContent formId steps blocks).on o = (.ok (), onForm formId (withContent steps blocks) o) := by
  simp only [writeContent, writeBlocks, Raising.on_bind, Raising.on_write, writeSteps_on h]
  rw [onForm_onForm fun _ => by rfl]
  rfl

end XgenSdk.FormEdits
