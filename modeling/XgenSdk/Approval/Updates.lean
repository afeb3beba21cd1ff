import XgenSdk.Approval.FormEdits

/-! Edits outside a transaction: what an edit that is refused leaves behind. -/
namespace XgenSdk.Updates
open XgenSdk.Py XgenSdk.Models XgenSdk.Tables XgenSdk.Lines XgenSdk.Forms XgenSdk.FormEdits

/-- An approval error leaves every row as it was. A second step of one index is
the database's error, not an approval error. -/
def RefusalKeeps {α : Type} (edit : Sql α) (o : Office) : Prop :=
  ∀ e o', edit.on o = (.error e, o') → e.message ≠ duplicateStep → o' = o

section Keeps
variable {α : Type} {edit : Sql α} {o o' : Office}

theorem keeps_of_ok {a : α} (h : edit.on o = (.ok a, o')) : RefusalKeeps edit o := by
  intro e u hu
  rw [h] at hu
  cases hu

theorem keeps_of_same {e : ApprovalError} (h : edit.on o = (.error e, o)) : RefusalKeeps edit o := by
  intro e' u hu _
  rw [h] at hu
  cases hu
  rfl

theorem keeps_error_iff {e : ApprovalError} (h : edit.on o = (.error e, o'))
    (he : e.message ≠ duplicateStep) : RefusalKeeps edit o ↔ o' = o := by
  constructor
  · intro hkeeps
    exact hkeeps e o' h he
  · intro hsame
    exact keeps_of_same (hsame ▸ h)

end Keeps

/-! Lines. -/

/-- The row already says what the edit gives. -/
structure SaysLine (args : LineEdit) (l : Line) : Prop where
  name : ∀ name, args.name = some name → l.name = clip 100 (strip name)
  description : ∀ text, args.description = some text → l.description = orNone (clip 500 (strip text))
  shared : ∀ shared, args.isShared = some shared → l.isShared = shared

/-- New steps that the rules or the form of the line refuse. -/
def StepsRefused (config : Config) (line : Line) (specs : List Engine.Spec) : Prop :=
  ∀ planned, Engine.planLineSlots specs = .ok planned →
    guardFormStillFits config line planned.length ≠ .ok ()

/-- The name is fine and changes a row, or the description or the sharing does,
and then the steps are refused. -/
def LineSlip (o : Office) (lineId : Nat) (args : LineEdit) : Prop :=
  ∃ line specs, getLine o.toConfig lineId = some line ∧ (∀ name, args.name = some name → strip name ≠ "") ∧
    args.steps = some specs ∧ StepsRefused o.toConfig line specs ∧
    ∃ l ∈ o.lines, l.id = lineId ∧ ¬ SaysLine args l

theorem getD_map_eq_iff {α β : Type} {x : Option α} {f : α → β} {b : β} :
    (x.map f).getD b = b ↔ ∀ a, x = some a → b = f a := by
  cases x with
  | none => simp
  | some a => simp [eq_comm]

theorem editRow_eq_iff {args : LineEdit} {l : Line} : editRow args l = l ↔ SaysLine args l := by
  have hfields : editRow args l = l ↔
      (args.name.map fun name => clip 100 (strip name)).getD l.name = l.name ∧
      (args.description.map fun text => orNone (clip 500 (strip text))).getD l.description =
        l.description ∧ (args.isShared.map id).getD l.isShared = l.isShared := by
    simp only [editRow, Option.map_id, id]
    constructor
    · intro h
      exact ⟨congrArg Line.name h, congrArg Line.description h, congrArg Line.isShared h⟩
    · rintro ⟨hname, htext, hshared⟩
      rw [hname, htext, hshared]
  rw [hfields, getD_map_eq_iff, getD_map_eq_iff, getD_map_eq_iff]
  exact ⟨fun ⟨hname, htext, hshared⟩ => ⟨hname, htext, hshared⟩, fun h => ⟨h.name, h.description, h.shared⟩⟩

theorem map_where_eq_iff {α : Type} {xs : List α} {p : α → Prop} [DecidablePred p] {f : α → α} :
    (xs.map fun x => if p x then f x else x) = xs ↔ ∀ x ∈ xs, p x → f x = x := by
  have hid : (xs.map fun x => if p x then f x else x) = xs ↔
      (xs.map fun x => if p x then f x else x) = xs.map id := by
    rw [List.map_id]
  rw [hid, List.map_inj_left]
  refine forall₂_congr fun x _ => ?_
  by_cases hx : p x <;> simp [hx]

theorem onLine_eq_iff {lineId : Nat} {f : Line → Line} {o : Office} :
    onLine lineId f o = o ↔ ∀ l ∈ o.lines, l.id = lineId → f l = l := by
  rw [← map_where_eq_iff]
  constructor
  · intro h
    exact congrArg (fun o : Office => o.lines) h
  · intro h
    rw [onLine, h]

theorem onForm_eq_iff {formId : Nat} {g : Form → Form} {o : Office} :
    onForm formId g o = o ↔ ∀ f ∈ o.forms, f.id = formId → g f = f := by
  rw [← map_where_eq_iff]
  constructor
  · intro h
    exact congrArg (fun o : Office => o.forms) h
  · intro h
    rw [onForm, h]

theorem collect_error {β : Type} {read : Engine.ApproverField → Option β} {person : β → Option Int}
    {idx : Nat} {seen : List Int} {specs : List Engine.Spec} {e : ApprovalError}
    (h : Engine.collect read person idx seen specs = .error e) : e.message ≠ duplicateStep := by
  induction specs generalizing idx seen with
  | nil => cases h
  | cons raw rest ih =>
    unfold Engine.collect at h
    split at h
    · cases h
      decide
    split at h
    · cases h
      decide
    split at h
    · cases h
      exact ih ‹_›
    · cases h

theorem planLineSlots_error {specs : List Engine.Spec} {e : ApprovalError}
    (h : Engine.planLineSlots specs = .error e) : e.message ≠ duplicateStep := by
  unfold Engine.planLineSlots at h
  split at h
  · cases h
    decide
  split at h
  · cases h
    exact collect_error ‹_›
  · cases h

theorem guardFormStillFits_error {config : Config} {line : Line} {n : Nat} {e : ApprovalError}
    (h : guardFormStillFits config line n = .error e) : e.message ≠ duplicateStep := by
  unfold guardFormStillFits at h
  dsimp only at h
  split at h
  · cases h
  split at h
  · cases h
  cases h
  intro heq
  have hhead := congrArg (fun text : String => text.toList.head?) heq
  simp [duplicateStep] at hhead

/-- Refused steps leave the line as its other columns were edited. -/
theorem replaceSteps_refused {o : Office} {line : Line} {specs : List Engine.Spec}
    (h : StepsRefused o.toConfig line specs) : ∃ e : ApprovalError,
      (replaceSteps line specs).on o = (.error e, o) ∧ e.message ≠ duplicateStep := by
  cases hplan : Engine.planLineSlots specs with
  | error e =>
    refine ⟨e, ?_, planLineSlots_error hplan⟩
    rw [replaceSteps, Raising.on_bind, Raising.on_lift, hplan]
  | ok planned =>
    cases hguard : guardFormStillFits o.toConfig line planned.length with
    | ok _ => exact absurd hguard (h planned hplan)
    | error e =>
      refine ⟨e, ?_, guardFormStillFits_error hguard⟩
      simp only [replaceSteps, Raising.on_bind, Raising.on_lift, Raising.on_read, hplan, hguard]

theorem replaceSteps_accepted {o : Office} {line : Line} {specs : List Engine.Spec}
    (h : ¬ StepsRefused o.toConfig line specs) :
    ∃ o', (replaceSteps line specs).on o = (.ok (), o') := by
  simp only [StepsRefused, not_forall, not_not] at h
  obtain ⟨planned, hplan, hguard⟩ := h
  simp only [replaceSteps, Raising.on_bind, Raising.on_lift, Raising.on_read, hplan, hguard,
    Raising.on_write]
  exact ⟨_, rfl⟩

/-- A found line and a fine name: the other columns are written, then the steps. -/
theorem updateLine_on {lineId : Nat} {args : LineEdit} {o : Office} {line : Line}
    (hline : getLine o.toConfig lineId = some line)
    (hname : ∀ name, args.name = some name → strip name ≠ "") :
    (updateLine lineId args).on o =
      match args.steps with
      | none => (.ok (getLine (onLine lineId (editRow args) o).toConfig lineId),
          onLine lineId (editRow args) o)
      | some specs =>
        match (replaceSteps line specs).on (onLine lineId (editRow args) o) with
        | (.ok _, t) => (.ok (getLine t.toConfig lineId), t)
        | (.error e, t) => (.error e, t) := by
  have hfine : (args.name.any fun name => strip name = "") = false := by
    cases hgiven : args.name with
    | none => rfl
    | some name => exact decide_eq_false (hname name hgiven)
  simp only [updateLine, Raising.on_bind, Raising.on_read, hline, hfine, Bool.false_eq_true, if_false,
    Raising.on_write]
  cases args.steps with
  | none => rfl
  | some specs =>
    dsimp only
    cases (replaceSteps line specs).on (onLine lineId (editRow args) o) with
    | mk r t => cases r <;> rfl

theorem updateLine_keeps_iff (lineId : Nat) (args : LineEdit) (o : Office) :
    RefusalKeeps (updateLine lineId args) o ↔ ¬ LineSlip o lineId args := by
  cases hline : getLine o.toConfig lineId with
  | none =>
    have hrun : (updateLine lineId args).on o = (.error ⟨"결재선을 찾을 수 없습니다"⟩, o) := by
      simp only [updateLine, Raising.on_bind, Raising.on_read, hline, fail, Raising.on_throw]
    refine iff_of_true (keeps_of_same hrun) ?_
    rintro ⟨line, _, hfound, _⟩
    rw [hline] at hfound
    cases hfound
  | some line =>
    by_cases hblank : (args.name.any fun name => strip name = "") = true
    · have hrun : (updateLine lineId args).on o = (.error ⟨"결재선 이름이 필요합니다"⟩, o) := by
        simp only [updateLine, Raising.on_bind, Raising.on_read, hline, hblank, if_true, fail,
          Raising.on_throw]
      refine iff_of_true (keeps_of_same hrun) ?_
      rintro ⟨_, _, _, hname, _⟩
      obtain ⟨name, hgiven, he⟩ := Option.any_eq_true .. |>.mp hblank
      exact hname name hgiven (of_decide_eq_true he)
    · have hname : ∀ name, args.name = some name → strip name ≠ "" := by
        intro name hgiven he
        simp [hgiven, he] at hblank
      have hrun := updateLine_on hline hname
      cases hsteps : args.steps with
      | none =>
        rw [hsteps] at hrun
        refine iff_of_true (keeps_of_ok hrun) ?_
        rintro ⟨_, _, _, _, hgiven, _⟩
        rw [hsteps] at hgiven
        cases hgiven
      | some specs =>
        simp only [hsteps] at hrun
        by_cases hrefused : StepsRefused o.toConfig line specs
        · obtain ⟨e, he, htext⟩ :=
            replaceSteps_refused (o := onLine lineId (editRow args) o) hrefused
          rw [he] at hrun
          rw [keeps_error_iff hrun htext, onLine_eq_iff]
          constructor
          · rintro hsame ⟨_, _, _, _, _, _, l, hl, hid, hdiffers⟩
            exact hdiffers (editRow_eq_iff.mp (hsame l hl hid))
          · intro hno l hl hid
            by_contra hdiffers
            exact hno ⟨line, specs, hline, hname, hsteps, hrefused, l, hl, hid,
              fun hsays => hdiffers (editRow_eq_iff.mpr hsays)⟩
        · obtain ⟨t, ht⟩ := replaceSteps_accepted (o := onLine lineId (editRow args) o) hrefused
          rw [ht] at hrun
          refine iff_of_true (keeps_of_ok hrun) ?_
          rintro ⟨found, given, hfound, _, hgiven, hslip, _⟩
          rw [hline] at hfound
          rw [hsteps] at hgiven
          cases hfound
          cases hgiven
          exact hrefused hslip

/-! Forms. -/

/-- The rows of the form already hold this content. -/
def HasContent (steps : List GivenStep) (blocks : List GivenBlock) (f : Form) : Prop :=
  f.steps = (steps.insertionSort fun a b => a.stepIndex ≤ b.stepIndex).map formStep ∧
    f.blocks = (f.blocks.filter fun b => Blocks.isRetired b.blockType) ++ blocks.map formBlock

def nextSteps (args : FormEdit) (form : Form) : List GivenStep :=
  args.steps.getD (form.steps.map stepAgain)

def nextBlocks (args : FormEdit) (form : Form) : List GivenBlock :=
  args.blocks.getD (form.blocks.map blockAgain)

/-- New steps or blocks are accepted and change a form, and then the name is blank. -/
def FormSlip (o : Office) (formId : Nat) (args : FormEdit) : Prop :=
  ∃ form checked, getForm o.toConfig formId = some form ∧ form.isBuiltin = false ∧
    guardUnused o.toConfig formId args.isActive = .ok () ∧
    (args.steps.isSome || args.blocks.isSome) = true ∧
    validateFormShape (nextSteps args form) (nextBlocks args form) = .ok checked ∧
    guardLinesStillFit o.toConfig formId (nextSteps args form) = .ok () ∧
    ((nextSteps args form).map GivenStep.stepIndex).Nodup ∧
    (∃ name, args.name = some name ∧ strip name = "") ∧
    ∃ f ∈ o.forms, f.id = formId ∧ ¬ HasContent (nextSteps args form) checked f

theorem withContent_eq_iff {steps : List GivenStep} {blocks : List GivenBlock} {f : Form} :
    withContent steps blocks f = f ↔ HasContent steps blocks f := by
  constructor
  · intro h
    exact ⟨(congrArg Form.steps h).symm, (congrArg Form.blocks h).symm⟩
  · rintro ⟨hsteps, hblocks⟩
    rw [withContent, ← hsteps, ← hblocks]

/-- A second step of one index does not go in. -/
theorem insertSteps_duplicate {formId : Nat} {todo : List GivenStep} {o : Office} {f : Form}
    (hf : formRow o.toConfig formId = some f) (hold : (f.steps.map FormStep.stepIndex).Nodup)
    (h : ¬ (f.steps.map FormStep.stepIndex ++ todo.map GivenStep.stepIndex).Nodup) :
    ∃ t, (insertSteps formId todo).on o = (.error ⟨duplicateStep⟩, t) := by
  induction todo generalizing o f with
  | nil =>
    rw [List.map_nil, List.append_nil] at h
    exact absurd hold h
  | cons s rest ih =>
    cases hany : f.steps.any fun t => decide (t.stepIndex = s.stepIndex) with
    | true =>
      simp only [insertSteps, Raising.on_bind, Raising.on_read, hf, Option.any_some, hany, if_true, fail,
        Raising.on_throw]
      exact ⟨_, rfl⟩
    | false =>
      have hnew : s.stepIndex ∉ f.steps.map FormStep.stepIndex := by
        intro hmem
        obtain ⟨t, ht, he⟩ := List.mem_map.mp hmem
        simpa [he] using List.any_eq_false.mp hany t ht
      simp only [insertSteps, Raising.on_bind, Raising.on_read, hf, Option.any_some, hany,
        Bool.false_eq_true, if_false, Raising.on_write]
      refine ih (f := { f with steps := f.steps ++ [formStep s] }) ?_ ?_ ?_
      · rw [formRow_onForm fun _ => by rfl, hf]
        rfl
      · rw [List.map_append]
        exact hold.append (List.nodup_singleton _) (by simpa [formStep] using hnew)
      · simpa [formStep] using h

theorem replaceContent_on (formId : Nat) (steps : List GivenStep) (blocks : List GivenBlock)
    (o : Office) :
    (replaceContent formId steps blocks).on o =
      match validateFormShape steps blocks with
      | .error e => (.error e, o)
      | .ok checked =>
        match guardLinesStillFit o.toConfig formId steps with
        | .error e => (.error e, o)
        | .ok _ => (writeContent formId steps checked).on o := by
  rw [replaceContent, Raising.on_bind, Raising.on_lift]
  cases validateFormShape steps blocks with
  | error e => rfl
  | ok checked =>
    simp only [Raising.on_bind, Raising.on_read, Raising.on_lift]
    cases guardLinesStillFit o.toConfig formId steps <;> rfl

theorem writeContent_duplicate {formId : Nat} {steps : List GivenStep} (blocks : List GivenBlock)
    {o : Office} {f : Form} (hf : formRow o.toConfig formId = some f)
    (h : ¬ (steps.map GivenStep.stepIndex).Nodup) :
    ∃ t, (writeContent formId steps blocks).on o = (.error ⟨duplicateStep⟩, t) := by
  have hsorted := ((List.perm_insertionSort (fun a b : GivenStep => a.stepIndex ≤ b.stepIndex)
    steps).map GivenStep.stepIndex).nodup_iff
  have hempty : formRow (onForm formId (fun f => { f with steps := [] }) o).toConfig formId =
      some { f with steps := [] } := by
    rw [formRow_onForm fun _ => by rfl, hf]
    rfl
  have hrepeats : ¬ ([] ++ (steps.insertionSort fun a b : GivenStep => a.stepIndex ≤ b.stepIndex).map
      GivenStep.stepIndex).Nodup := fun hnodup => h (hsorted.mp hnodup)
  obtain ⟨t, ht⟩ := insertSteps_duplicate hempty List.nodup_nil hrepeats
  refine ⟨t, ?_⟩
  simp only [writeContent, writeSteps, Raising.on_bind, Raising.on_write, ht]

def blankName (args : FormEdit) : Bool := args.name.any fun name => strip name = ""

def rename (formId : Nat) (args : FormEdit) : Sql Unit :=
  if blankName args then fail "양식 이름이 필요합니다" else Raising.write (onForm formId (editForm args))

theorem rename_on (formId : Nat) (args : FormEdit) (o : Office) :
    (rename formId args).on o =
      if blankName args then (.error ⟨"양식 이름이 필요합니다"⟩, o)
      else (.ok (), onForm formId (editForm args) o) := by
  rw [rename]
  split <;> rfl

/-- An edit of a form, after the checks on the form itself. -/
theorem updateForm_on {formId : Nat} {args : FormEdit} {o : Office} {form : Form}
    (hform : getForm o.toConfig formId = some form) (hbuiltin : form.isBuiltin = false)
    (hunused : guardUnused o.toConfig formId args.isActive = .ok ()) :
    (updateForm formId args).on o =
      if args.steps.isSome || args.blocks.isSome then
        match (replaceContent formId (nextSteps args form) (nextBlocks args form)).on o with
        | (.ok _, t) => (rename formId args).on t
        | (.error e, t) => (.error e, t)
      else (rename formId args).on o := by
  simp only [updateForm, Raising.on_bind, Raising.on_read, hform, hbuiltin, Bool.false_eq_true, if_false,
    Raising.on_lift, hunused]
  split
  · rw [Raising.on_bind]
    change _ = match (replaceContent formId (args.steps.getD (form.steps.map stepAgain))
      (args.blocks.getD (form.blocks.map blockAgain))).on o with
      | (.ok _, t) => (rename formId args).on t
      | (.error e, t) => (.error e, t)
    cases (replaceContent formId (args.steps.getD (form.steps.map stepAgain))
      (args.blocks.getD (form.blocks.map blockAgain))).on o with
    | mk r t => cases r <;> rfl
  · rfl

/-- No content: the name is checked before anything is written. -/
theorem rename_keeps {formId : Nat} {args : FormEdit} {o : Office} {edit : Sql Unit}
    (h : edit.on o = (rename formId args).on o) : RefusalKeeps edit o := by
  rw [rename_on] at h
  split at h
  · exact keeps_of_same h
  · exact keeps_of_ok h

/-- The content was written: only the name can still be refused. -/
theorem written_keeps_iff {formId : Nat} {args : FormEdit} {o : Office} {steps : List GivenStep}
    {blocks : List GivenBlock} {edit : Sql Unit}
    (h : edit.on o = (rename formId args).on (onForm formId (withContent steps blocks) o)) :
    RefusalKeeps edit o ↔
      ¬ (blankName args = true ∧ ∃ f ∈ o.forms, f.id = formId ∧ ¬ HasContent steps blocks f) := by
  rw [rename_on] at h
  by_cases hblank : blankName args = true
  · rw [if_pos hblank] at h
    rw [keeps_error_iff h (by decide), onForm_eq_iff]
    simp only [hblank, true_and, withContent_eq_iff]
    push Not
    rfl
  · rw [if_neg hblank] at h
    exact iff_of_true (keeps_of_ok h) fun hslip => hblank hslip.1

theorem keeps_of_duplicate {α : Type} {edit : Sql α} {o t : Office}
    (h : edit.on o = (.error ⟨duplicateStep⟩, t)) : RefusalKeeps edit o := by
  intro e u hu htext
  rw [h] at hu
  cases hu
  exact absurd rfl htext

/-- The content is checked, then written, then the name is checked. -/
theorem replaced_keeps_iff {formId : Nat} {args : FormEdit} {o : Office} {f : Form}
    {steps : List GivenStep} {blocks : List GivenBlock} {edit : Sql Unit}
    (hf : formRow o.toConfig formId = some f)
    (h : edit.on o =
      match (replaceContent formId steps blocks).on o with
      | (.ok _, t) => (rename formId args).on t
      | (.error e, t) => (.error e, t)) :
    RefusalKeeps edit o ↔
      ¬ ∃ checked, validateFormShape steps blocks = .ok checked ∧
        guardLinesStillFit o.toConfig formId steps = .ok () ∧ (steps.map GivenStep.stepIndex).Nodup ∧
        blankName args = true ∧ ∃ f ∈ o.forms, f.id = formId ∧ ¬ HasContent steps checked f := by
  rw [replaceContent_on] at h
  cases hshape : validateFormShape steps blocks with
  | error e =>
    rw [hshape] at h
    simpa using keeps_of_same h
  | ok checked =>
    cases hfit : guardLinesStillFit o.toConfig formId steps with
    | error e =>
      rw [hshape, hfit] at h
      simpa using keeps_of_same h
    | ok _ =>
      simp only [hshape, hfit] at h
      by_cases hnodup : (steps.map GivenStep.stepIndex).Nodup
      · rw [writeContent_on hnodup] at h
        rw [written_keeps_iff h]
        simp [hnodup]
      · obtain ⟨t, ht⟩ := writeContent_duplicate checked hf hnodup
        rw [ht] at h
        refine iff_of_true (keeps_of_duplicate h) ?_
        rintro ⟨_, _, _, hdistinct, _⟩
        exact hnodup hdistinct

theorem formSlip_iff {o : Office} {formId : Nat} {args : FormEdit} {form : Form}
    (hform : getForm o.toConfig formId = some form) :
    FormSlip o formId args ↔ form.isBuiltin = false ∧
      guardUnused o.toConfig formId args.isActive = .ok () ∧
      (args.steps.isSome || args.blocks.isSome) = true ∧
      ∃ checked, validateFormShape (nextSteps args form) (nextBlocks args form) = .ok checked ∧
        guardLinesStillFit o.toConfig formId (nextSteps args form) = .ok () ∧
        ((nextSteps args form).map GivenStep.stepIndex).Nodup ∧ blankName args = true ∧
        ∃ f ∈ o.forms, f.id = formId ∧ ¬ HasContent (nextSteps args form) checked f := by
  have hblank : blankName args = true ↔ ∃ name, args.name = some name ∧ strip name = "" := by
    simp [blankName, Option.any_eq_true]
  rw [FormSlip, hblank, hform]
  constructor
  · rintro ⟨_, checked, hfound, hbuiltin, hunused, hgiven, hshape, hrest⟩
    cases hfound
    exact ⟨hbuiltin, hunused, hgiven, checked, hshape, hrest⟩
  · rintro ⟨hbuiltin, hunused, hgiven, checked, hshape, hrest⟩
    exact ⟨form, checked, rfl, hbuiltin, hunused, hgiven, hshape, hrest⟩

theorem updateForm_keeps_iff (formId : Nat) (args : FormEdit) (o : Office) :
    RefusalKeeps (updateForm formId args) o ↔ ¬ FormSlip o formId args := by
  cases hform : getForm o.toConfig formId with
  | none =>
    have hrun : (updateForm formId args).on o = (.error ⟨"양식을 찾을 수 없습니다"⟩, o) := by
      simp only [updateForm, Raising.on_bind, Raising.on_read, hform, fail, Raising.on_throw]
    refine iff_of_true (keeps_of_same hrun) ?_
    rintro ⟨_, _, hfound, _⟩
    rw [hform] at hfound
    cases hfound
  | some form =>
    rw [formSlip_iff hform]
    cases hbuiltin : form.isBuiltin with
    | true =>
      have hrun : (updateForm formId args).on o =
          (.error ⟨"기본 양식은 수정할 수 없습니다. 복사해서 사용하세요."⟩, o) := by
        simp only [updateForm, Raising.on_bind, Raising.on_read, hform, hbuiltin, if_true, fail,
          Raising.on_throw]
      simpa using keeps_of_same hrun
    | false =>
      cases hunused : guardUnused o.toConfig formId args.isActive with
      | error e =>
        have hrun : (updateForm formId args).on o = (.error e, o) := by
          simp only [updateForm, Raising.on_bind, Raising.on_read, hform, hbuiltin, Bool.false_eq_true,
            if_false, Raising.on_lift, hunused]
        simpa using keeps_of_same hrun
      | ok _ =>
        have hrun := updateForm_on hform hbuiltin hunused
        by_cases hgiven : (args.steps.isSome || args.blocks.isSome) = true
        · rw [if_pos hgiven] at hrun
          obtain ⟨f, hf, _⟩ := Option.map_eq_some_iff.mp hform
          rw [replaced_keeps_iff hf hrun]
          simp [hgiven]
        · rw [if_neg hgiven] at hrun
          exact iff_of_true (rename_keeps hrun) fun hslips => hgiven hslips.2.2.1

theorem refused_edits_keep_iff (lineId formId : Nat) (line : LineEdit) (form : FormEdit) (o : Office) :
    (RefusalKeeps (updateLine lineId line) o ↔ ¬ LineSlip o lineId line) ∧
      (RefusalKeeps (updateForm formId form) o ↔ ¬ FormSlip o formId form) :=
  ⟨updateLine_keeps_iff lineId line o, updateForm_keeps_iff formId form o⟩

/-! A form that gets a third step and no name. -/

def oneForm : Office :=
  { empty with forms := [{ id := 1, name := "f", isBuiltin := false, isActive := true,
                           steps := [⟨0, "a", none⟩, ⟨1, "b", none⟩], blocks := [] }] }

def noName : FormEdit where
  name := some " "
  isActive := none
  steps := some [⟨0, "a", ""⟩, ⟨1, "b", ""⟩, ⟨2, "c", ""⟩]
  blocks := none

theorem refused_edit_kept_false :
    ¬ ∀ (formId : Nat) (args : FormEdit) (o : Office), RefusalKeeps (updateForm formId args) o := by
  intro h
  have hkeeps := h 1 noName oneForm ⟨"양식 이름이 필요합니다"⟩ ((updateForm 1 noName).on oneForm).2
    (Prod.ext rfl rfl) (by decide)
  have hforms := congrArg (fun o : Office => o.forms.map fun f => f.steps.length) hkeeps
  revert hforms
  decide

end XgenSdk.Updates
