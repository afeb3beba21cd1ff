import XgenSdk.Approval.FormEdits
import XgenSdk.Lib.Runs

/-! Forms and the lines that carry them: however both are edited, a line has an approver
for each step of its form. -/
namespace XgenSdk.FormFits
open XgenSdk.Models XgenSdk.Tables XgenSdk.Lines XgenSdk.Forms XgenSdk.FormEdits XgenSdk.Runs

/-! The remaining edits. -/

def copyForm (formId : Nat) (name : String) : Sql Nat := do
  let o ← Raising.read
  match getForm o.toConfig formId with
  | none => fail "양식을 찾을 수 없습니다"
  | some src =>
    createForm ⟨name, src.description.getD "", src.notice.getD "", false, src.steps.map stepAgain, src.blocks.map blockAgain⟩

def deleteForm (formId : Nat) : Sql Unit := do
  let o ← Raising.read
  match getForm o.toConfig formId with
  | none => return ()
  | some form =>
    let used := linesUsing o.toConfig formId
    if form.isBuiltin then fail "기본 양식은 삭제할 수 없습니다."
    else if !used.isEmpty then
      fail ("이 양식을 쓰는 결재선이 있습니다: " ++ String.intercalate ", " ((used.take 5).map Line.name))
    else Raising.write fun o => { o with forms := o.forms.filter fun f => f.id ≠ formId }

/-- A line carries no form, or one that exists and asks for no more approvers than it has. -/
def Carries (config : Config) (l : Line) : Prop :=
  ∀ id, l.formId = some id → ∃ f, formRow config id = some f ∧ f.approverSteps ≤ l.steps.length

/-- Ids are fresh, and every line has an approver for each step of its form. -/
structure Fits (o : Office) : Prop where
  forms : ∀ f ∈ o.forms, f.id < o.nextForm
  lines : ∀ l ∈ o.lines, l.id < o.nextLine
  distinct : (o.lines.map Line.id).Nodup
  carries : ∀ l ∈ o.lines, Carries o.toConfig l

theorem maxIndex_le_iff {steps : List FormStep} {n : Nat} : maxIndex steps ≤ n ↔ ∀ s ∈ steps, s.stepIndex ≤ n := by
  constructor
  · intro h s hs
    exact (le_maxIndex hs).trans h
  · intro h
    unfold maxIndex
    cases hm : (steps.map FormStep.stepIndex).max? with
    | none => simp
    | some m =>
      obtain ⟨s, hs, rfl⟩ := List.mem_map.mp (List.max?_eq_some_iff.mp hm).1
      exact h s hs

theorem formRow_mem {config : Config} {id : Nat} {f : Form} (h : formRow config id = some f) : f ∈ config.forms ∧ f.id = id :=
  ⟨List.mem_of_find?_eq_some h, by simpa using List.find?_some h⟩

theorem formRow_onForm_ne {formId id : Nat} {g : Form → Form} (hg : ∀ f, (g f).id = f.id) (hne : id ≠ formId) (o : Office) :
    formRow (onForm formId g o).toConfig id = formRow o.toConfig id := by
  simp only [formRow, onForm, List.find?_map]
  have hid (f : Form) : (if f.id = formId then g f else f).id = f.id := by split <;> simp [hg]
  simp only [Function.comp_def, hid]
  cases h : o.forms.find? fun f => f.id = id with
  | none => rfl
  | some f =>
    have hf : f.id = id := by simpa using List.find?_some h
    simp [hf, hne]

section Edits
variable {o : Office}

theorem Fits.eq_of_getLine (h : Fits o) {l l' : Line} {lineId : Nat} (hget : getLine o.toConfig lineId = some l')
    (hl : l ∈ o.lines) (hid : l.id = lineId) : l = l' := by
  have hid' : l'.id = lineId := by simpa using List.find?_some hget
  exact List.inj_on_of_nodup_map h.distinct hl (List.mem_of_find?_eq_some hget) (hid.trans hid'.symm)

/-- A form may be rewritten to what the lines that carry it have approvers for. -/
theorem Fits.onForm (h : Fits o) {formId : Nat} {g : Form → Form} (hg : ∀ f, (g f).id = f.id)
    (hroom : ∀ f ∈ o.forms, ∀ l ∈ o.lines, l.formId = some formId → f.approverSteps ≤ l.steps.length →
      (g f).approverSteps ≤ l.steps.length) : Fits (Forms.onForm formId g o) := by
  refine ⟨fun f hf => ?_, h.lines, h.distinct, fun l hl id hid => ?_⟩
  · obtain ⟨f', hf', rfl⟩ := List.mem_map.mp hf
    split
    · exact hg f' ▸ h.forms f' hf'
    · exact h.forms f' hf'
  · obtain ⟨f, hf, hle⟩ := h.carries l hl id hid
    by_cases hform : id = formId
    · subst hform
      rw [formRow_onForm hg, hf]
      exact ⟨g f, rfl, hroom f (formRow_mem hf).1 l hl hid hle⟩
    · rw [formRow_onForm_ne hg hform]
      exact ⟨f, hf, hle⟩

theorem Fits.onLine (h : Fits o) {lineId : Nat} {g : Line → Line} (hg : ∀ l, (g l).id = l.id)
    (hcarries : ∀ l ∈ o.lines, l.id = lineId → Carries o.toConfig (g l)) : Fits (Lines.onLine lineId g o) := by
  have hid (l : Line) : (if l.id = lineId then g l else l).id = l.id := by split <;> simp [hg]
  refine ⟨h.forms, fun l hl => ?_, ?_, fun l hl => ?_⟩
  · obtain ⟨l', hl', rfl⟩ := List.mem_map.mp hl
    rw [hid]
    exact h.lines l' hl'
  · simpa [Lines.onLine, Function.comp_def, hid] using h.distinct
  · obtain ⟨l', hl', rfl⟩ := List.mem_map.mp hl
    split
    · exact hcarries l' hl' ‹_›
    · exact h.carries l' hl'

/-- An edit of a line that leaves its form and its steps. -/
theorem Fits.onLine_same (h : Fits o) {lineId : Nat} {g : Line → Line} (hg : ∀ l, (g l).id = l.id)
    (hform : ∀ l, (g l).formId = l.formId) (hsteps : ∀ l, (g l).steps = l.steps) : Fits (Lines.onLine lineId g o) :=
  h.onLine hg fun l hl _ id hid => by
    rw [hsteps]
    exact h.carries l hl id (hform l ▸ hid)

/-! Contents of a form. -/

/-- Every line that carries the form has an approver for each of these steps. -/
def Room (formId : Nat) (steps : List GivenStep) (o : Office) : Prop :=
  ∀ l ∈ o.lines, l.formId = some formId → ∀ s ∈ steps, s.stepIndex ≤ l.steps.length

/-- Whatever step the database refuses, the ones before it fit. -/
theorem insertSteps_fits (formId : Nat) (todo : List GivenStep) :
    Raising.Spec (fun o => Fits o ∧ Room formId todo o) (insertSteps formId todo) (fun _ => Fits) (Fits) := by
  induction todo with
  | nil => exact .pure fun _ h => h.1
  | cons s rest ih =>
    refine .of_eq fun o ho => .bind_read ?_
    split
    · exact .throw fun u hu => hu ▸ ho.1
    · refine .bind (R := fun _ o => Fits o ∧ Room formId rest o) (.write fun u hu => ?_) fun _ => ih
      subst hu
      refine ⟨ho.1.onForm (fun _ => rfl) fun f _ l hl hform hle => ?_, fun l hl hform t ht => ?_⟩
      · rw [Form.approverSteps, maxIndex_le_iff] at hle ⊢
        simpa [or_imp, forall_and] using ⟨hle, ho.2 l hl hform s List.mem_cons_self⟩
      · exact ho.2 l hl hform t (List.mem_cons_of_mem s ht)

theorem writeContent_fits (formId : Nat) (steps : List GivenStep) (blocks : List GivenBlock) :
    Raising.Spec (fun o => Fits o ∧ Room formId steps o) (writeContent formId steps blocks) (fun _ => Fits)
      (Fits) := by
  refine .bind (R := fun _ => Fits) ?_ fun _ => .write fun o ho => ho.onForm (fun _ => rfl) fun _ _ _ _ _ hle => hle
  refine .bind (R := fun _ o => Fits o ∧ Room formId (steps.insertionSort fun a b => a.stepIndex ≤ b.stepIndex) o)
    (.write fun o ho => ⟨ho.1.onForm (fun _ => rfl) fun _ _ _ _ _ _ => by simp [Form.approverSteps, maxIndex], ?_⟩)
    fun _ => insertSteps_fits formId _
  intro l hl hform s hs
  exact ho.2 l hl hform s ((List.mem_insertionSort _).mp hs)

theorem room_of_guard {formId : Nat} {steps : List GivenStep} (h : guardLinesStillFit o.toConfig formId steps = .ok ()) :
    Room formId steps o := by
  intro l hl hform s hs
  unfold guardLinesStillFit at h
  dsimp only at h
  split at h
  · rename_i hshort
    rw [List.isEmpty_iff, List.filter_eq_nil_iff] at hshort
    have hlong := hshort l (List.mem_filter.mpr ⟨hl, by simpa using hform⟩)
    have hmem : s.stepIndex ∈ steps.map GivenStep.stepIndex := List.mem_map_of_mem hs
    cases hm : (steps.map GivenStep.stepIndex).max? with
    | none =>
      rw [List.max?_eq_none_iff.mp hm] at hmem
      cases hmem
    | some m =>
      have hle := (List.max?_eq_some_iff.mp hm).2 _ hmem
      simp only [hm, Option.getD_some, decide_eq_true_eq, not_lt] at hlong
      exact hle.trans hlong
  · cases h

/-! Operations. -/

theorem createForm_fits (args : NewForm) :
    Raising.Spec (Fits) (createForm args) (fun _ => Fits) (Fits) := by
  unfold createForm
  split
  · exact .throw fun _ h => h
  refine .bind_lift (fun checked _ => ?_) fun _ h => h
  refine .of_eq fun o ho => .bind_read ?_
  refine .bind (R := fun _ o' => Fits o' ∧ Room o.nextForm args.steps o') (.write fun u hu => ?_)
    fun _ => .bind (writeContent_fits o.nextForm args.steps checked) fun _ => .pure fun _ h => h
  subst hu
  -- an id that no form had is carried by no line
  have hnew (l : Line) (hl : l ∈ u.lines) : l.formId ≠ some u.nextForm := by
    intro hform
    obtain ⟨f, hf, -⟩ := ho.carries l hl _ hform
    exact (ho.forms f (formRow_mem hf).1).ne (formRow_mem hf).2
  refine ⟨⟨fun f hf => ?_, ho.lines, ho.distinct, fun l hl id hid => ?_⟩,
    fun l hl hform => absurd hform (hnew l hl)⟩
  · obtain hf | hf := List.mem_append.mp hf
    · exact (ho.forms f hf).trans (Nat.lt_succ_self _)
    · rw [List.mem_singleton.mp hf]
      exact Nat.lt_succ_self _
  · obtain ⟨f, hf, hle⟩ := ho.carries l hl id hid
    refine ⟨f, ?_, hle⟩
    rw [formRow] at hf ⊢
    rw [List.find?_append, hf, Option.some_or]

theorem copyForm_fits (formId : Nat) (name : String) :
    Raising.Spec (Fits) (copyForm formId name) (fun _ => Fits) (Fits) := by
  refine .bind (.read (Q := fun _ => Fits) fun _ h => h) fun o => ?_
  cases getForm o.toConfig formId with
  | none => exact .throw fun _ h => h
  | some src => exact createForm_fits _

theorem deleteForm_fits (formId : Nat) :
    Raising.Spec (Fits) (deleteForm formId) (fun _ => Fits) (Fits) := by
  refine .of_eq fun o ho => .bind_read ?_
  cases getForm o.toConfig formId with
  | none => exact .pure fun u hu => hu ▸ ho
  | some form =>
    dsimp only
    split_ifs with hbuiltin hused
    · exact .throw fun u hu => hu ▸ ho
    · exact .throw fun u hu => hu ▸ ho
    · refine .write fun u hu => ?_
      subst hu
      refine ⟨fun f hf => ho.forms f (List.mem_of_mem_filter hf), ho.lines, ho.distinct, fun l hl id hid => ?_⟩
      have hne : id ≠ formId := by
        rintro rfl
        simp only [linesUsing, Bool.not_eq_true', Bool.not_eq_false, List.isEmpty_iff, List.filter_eq_nil_iff, decide_eq_true_eq]
          at hused
        exact hused l hl hid
      obtain ⟨f, hf, hle⟩ := ho.carries l hl id hid
      refine ⟨f, ?_, hle⟩
      rw [formRow, List.find?_filter, ← hf, formRow]
      congr 1
      funext f
      by_cases hid : f.id = id <;> simp [hid, hne]

theorem updateForm_fits (formId : Nat) (args : FormEdit) :
    Raising.Spec (Fits) (updateForm formId args) (fun _ => Fits) (Fits) := by
  refine .bind (.read (Q := fun _ => Fits) fun _ h => h) fun o => ?_
  cases getForm o.toConfig formId with
  | none => exact .throw fun _ h => h
  | some form =>
    dsimp only
    split
    · exact .throw fun _ h => h
    refine .bind_lift (fun _ _ => ?_) fun _ h => h
    have hrename : Raising.Spec (Fits)
        (if args.name.any fun name => Py.strip name = "" then fail "양식 이름이 필요합니다"
          else Raising.write (Forms.onForm formId (editForm args)) : Sql Unit)
        (fun _ => Fits) (Fits) := by
      split
      · exact .throw fun _ h => h
      · exact .write fun u hu => hu.onForm (fun _ => rfl) fun _ _ _ _ _ hle => hle
    split
    · refine .bind ?_ fun _ => hrename
      refine .bind_lift (fun checked _ => .of_eq fun o ho => .bind_read (.bind_lift (fun _ hguard => ?_) fun u hu => hu ▸ ho))
        fun _ h => h
      refine (writeContent_fits formId _ checked).weaken fun u hu => ?_
      subst hu
      exact ⟨ho, room_of_guard hguard⟩
    · exact hrename

theorem setLineForm_fits (lineId : Nat) (formId : Option Nat) :
    Raising.Spec (Fits) (setLineForm lineId formId) (fun _ => Fits) (Fits) := by
  refine .of_eq fun o ho => .bind_read (.bind_lift (fun _ hguard => .write fun u hu => ?_) fun u hu => hu ▸ ho)
  subst hu
  refine ho.onLine (g := fun l => { l with formId := formId }) (fun _ => rfl) fun l hl hline id hid => ?_
  subst hid
  unfold guardLineCovers at hguard
  dsimp only at hguard
  cases hform : getForm u.toConfig id with
  | none =>
    rw [hform] at hguard
    cases hguard
  | some form =>
    obtain ⟨f, hf, rfl⟩ := Option.map_eq_some_iff.mp hform
    simp only [hform] at hguard
    split at hguard
    · rename_i hcount
      refine ⟨f, hf, hcount.trans ?_⟩
      cases hget : getLine u.toConfig lineId with
      | none => simp
      | some l' => simp [ho.eq_of_getLine hget hl hline]
    · cases hguard

theorem createLine_fits (args : NewLine) :
    Raising.Spec (Fits) (createLine args) (fun _ => Fits) (Fits) := by
  refine .bind_lift (fun planned _ => .of_eq fun o ho => .bind_read ?_) fun _ h => h
  refine .bind (R := fun _ => Fits) (.write fun u hu => ?_) fun _ => .pure fun _ h => h
  subst hu
  refine ⟨ho.forms, fun l hl => ?_, ?_, fun l hl => ?_⟩
  · obtain hl | hl := List.mem_append.mp hl
    · exact (ho.lines l hl).trans (Nat.lt_succ_self _)
    · rw [List.mem_singleton.mp hl]
      exact Nat.lt_succ_self _
  · rw [List.map_append, List.nodup_append]
    refine ⟨ho.distinct, List.nodup_singleton _, fun a ha b hb => ?_⟩
    obtain ⟨l, hl, rfl⟩ := List.mem_map.mp ha
    rw [List.mem_singleton.mp hb]
    exact (ho.lines l hl).ne
  · obtain hl | hl := List.mem_append.mp hl
    · exact ho.carries l hl
    · rw [List.mem_singleton.mp hl]
      intro id hid
      cases hid

theorem updateLine_fits (lineId : Nat) (args : LineEdit) :
    Raising.Spec (Fits) (updateLine lineId args) (fun _ => Fits) (Fits) := by
  refine .of_eq fun o ho => .bind_read ?_
  cases hget : getLine o.toConfig lineId with
  | none => exact .throw fun u hu => hu ▸ ho
  | some line =>
    dsimp only
    split
    · exact .throw fun u hu => hu ▸ ho
    have hid : line.id = lineId := by simpa using List.find?_some hget
    -- the row that is read first still says which form the line carries
    refine .bind (R := fun _ o => Fits o ∧ ∀ l ∈ o.lines, l.id = line.id → l.formId = line.formId)
      (.write fun u hu => ?_) fun _ => .bind (R := fun _ => Fits) ?_ fun _ =>
        .bind (.read (Q := fun _ => Fits) fun _ h => h) fun _ => .pure fun _ h => h
    · subst hu
      refine ⟨ho.onLine_same (fun _ => rfl) (fun _ => rfl) fun _ => rfl, fun l hl hline => ?_⟩
      obtain ⟨l', hl', rfl⟩ := List.mem_map.mp hl
      split at hline
      · rename_i hat
        rw [if_pos hat, ← ho.eq_of_getLine hget hl' hat]
        rfl
      · exact absurd (hline.trans hid) ‹_›
    · cases args.steps with
      | none => exact .pure fun _ h => h.1
      | some specs =>
        refine .bind_lift (fun planned _ => .of_eq fun o ho => .bind_read (.bind_lift (fun _ hguard => ?_) fun u hu => hu ▸ ho.1))
          fun _ h => h.1
        refine .write fun u hu => ?_
        subst hu
        refine ho.1.onLine (g := fun l => { l with steps := planned }) (fun _ => rfl) fun l hl hline id hform => ?_
        obtain ⟨f, hf, -⟩ := ho.1.carries l hl id hform
        refine ⟨f, hf, ?_⟩
        have hcarried : line.formId = some id := (ho.2 l hl hline).symm.trans hform
        simp only [guardFormStillFits, hcarried, hf] at hguard
        split at hguard
        · assumption
        · cases hguard

theorem deleteLine_fits (label : String → String) (lineId : Nat) (actorId : Int) (isSuperuser force : Bool) :
    Raising.Spec (Fits) (deleteLine label lineId actorId isSuperuser force) (fun _ => Fits) (Fits) := by
  refine .bind (.read (Q := fun _ => Fits) fun _ h => h) fun o => ?_
  cases getLine o.toConfig lineId with
  | none => exact .throw fun _ h => h
  | some line =>
    dsimp only
    split
    · exact .throw fun _ h => h
    split
    · exact .throw fun _ h => h
    refine .bind (.write (Q := fun _ => Fits) fun _ h => ⟨h.1, h.2, h.3, h.4⟩) fun _ => .write fun u hu => ?_
    exact hu.onLine_same (fun _ => rfl) (fun _ => rfl) fun _ => rfl

theorem saveLine_fits (target : Target) (followupRequired : Option Bool) (followupLineIds : Option (List Nat)) :
    Raising.Spec (Fits) (saveLine target followupRequired followupLineIds) (fun _ => Fits) (Fits) := by
  refine .transaction (F := Fits) ?_
  refine .bind (.read (Q := fun _ => Fits) fun _ h => h) fun o => ?_
  refine .bind_lift (fun ids _ => ?_) fun _ h => h
  refine .bind (R := fun _ => Fits) ?_ fun lineId => ?_
  · cases target with
    | new args => exact createLine_fits args
    | edit lineId args => exact .bind (updateLine_fits lineId args) fun _ => .pure fun _ h => h
  · refine .bind (.write (Q := fun _ => Fits) fun _ h => h.onLine_same (fun _ => rfl) (fun _ => rfl) fun _ => rfl)
      fun _ => ?_
    exact .bind (.read (Q := fun _ => Fits) fun _ h => h) fun o => .pure fun _ h => h

/-! Runs. -/

inductive Edit where
  | createForm (args : NewForm)
  | copyForm (formId : Nat) (name : String)
  | updateForm (formId : Nat) (args : FormEdit)
  | deleteForm (formId : Nat)
  | setLineForm (lineId : Nat) (formId : Option Nat)
  | createLine (args : NewLine)
  | updateLine (lineId : Nat) (args : LineEdit)
  | saveLine (target : Target) (followupRequired : Option Bool) (followupLineIds : Option (List Nat))
  | deleteLine (lineId : Nat) (actorId : Int) (isSuperuser force : Bool)

/-- The tables after an edit, accepted or refused; `label` is the name of a kind of request. -/
def edited (label : String → String) (o : Office) : Edit → Office
  | .createForm args => ((Forms.createForm args).on o).2
  | .copyForm formId name => ((FormFits.copyForm formId name).on o).2
  | .updateForm formId args => ((Forms.updateForm formId args).on o).2
  | .deleteForm formId => ((FormFits.deleteForm formId).on o).2
  | .setLineForm lineId formId => ((Forms.setLineForm lineId formId).on o).2
  | .createLine args => ((Lines.createLine args).on o).2
  | .updateLine lineId args => ((Lines.updateLine lineId args).on o).2
  | .saveLine target followupRequired followupLineIds => ((Lines.saveLine target followupRequired followupLineIds).on o).2
  | .deleteLine lineId actorId isSuperuser force => ((Lines.deleteLine label lineId actorId isSuperuser force).on o).2

variable {label : String → String}

theorem Fits.edited (h : Fits o) (e : Edit) : Fits (edited label o e) := by
  have final {α : Type} {m : Sql α} (hm : Raising.Spec (Fits) m (fun _ => Fits) (Fits)) :
      Fits (m.on o).2 := hm.final (fun _ _ h => h) (fun _ h => h) h
  cases e with
  | createForm args => exact final (createForm_fits args)
  | copyForm formId name => exact final (copyForm_fits formId name)
  | updateForm formId args => exact final (updateForm_fits formId args)
  | deleteForm formId => exact final (deleteForm_fits formId)
  | setLineForm lineId formId => exact final (setLineForm_fits lineId formId)
  | createLine args => exact final (createLine_fits args)
  | updateLine lineId args => exact final (updateLine_fits lineId args)
  | saveLine target required ids => exact final (saveLine_fits target required ids)
  | deleteLine lineId actorId isSuperuser force => exact final (deleteLine_fits label lineId actorId isSuperuser force)

theorem Fits.after (h : Fits o) (edits : List Edit) : Fits (after (FormFits.edited label) edits o) := by
  induction edits generalizing o with
  | nil => exact h
  | cons e edits ih => exact ih (h.edited e)

/-- A form with one approver, and a line of one step that carries it. -/
def furnished : Office := after (edited id)
  [.createForm ⟨"form", "", "", false, [⟨0, "", ""⟩, ⟨1, "", ""⟩], []⟩,
    .createLine ⟨"line", "", none, true, [⟨.person 7, none⟩]⟩, .setLineForm 1 (some 1)] empty

end Edits
end XgenSdk.FormFits
