import XgenSdk.Approval.Submit
import XgenSdk.Approval.Shape

/-! What a submission that raises leaves behind. The rows of the request are
written before the values of its draft blocks are looked at. -/
namespace XgenSdk.SubmitAtomic
open XgenSdk.Py XgenSdk.Models XgenSdk.Tables XgenSdk.Store XgenSdk.Submit

/-- The ids of the requests come from the counter. -/
def FreshIds (o : Office) : Prop := ∀ l ∈ o.requests, l.request.id < o.nextRequest

/-- The checks before the first row accept the call. -/
def Checked (registry : Registry) (args : Submission) (o : Office) : Prop :=
  strip args.title ≠ "" ∧ registry.registered args.actionType = true ∧
  (args.viaUserApi = true → registry.userSubmittable args.actionType = true) ∧
  (refOf args).bind (findPendingForTarget o args.actionType) = none ∧
  ∃ specs planned, specsOf o.toConfig args = .ok specs ∧ Engine.planSteps specs = .ok planned ∧
    (∀ s ∈ planned, s.approverId ≠ args.requesterId) ∧
    guardStepsCoverForm (lineForm o.toConfig args.lineId) planned.length = .ok ()

/-- The blocks the request will have, as they will be read. -/
def blocksOf (args : Submission) (o : Office) : List Block :=
  (snapshotBlocks o.nextBlock (lineForm o.toConfig args.lineId)).map normalized

/-- Every value that comes along names a draft block of the form that takes it. -/
def DraftsFit (tables : Evaluation.Tables) (args : Submission) (o : Office) : Prop :=
  ∀ v ∈ args.blockValues, ∃ r, draftValue tables (blocksOf args o) v = .ok r

/-! The checks. -/

theorem openSteps_planned {specs : List Engine.Spec} {planned : List Engine.Planned}
    (hp : Engine.planSteps specs = .ok planned) : ∃ steps, Engine.openSteps planned = .ok steps := by
  obtain ⟨hord, _, hne, _⟩ := Shape.planSteps_ok hp
  unfold Engine.openSteps
  rw [hord, Shape.min?_range' _ (List.length_pos_iff.mpr hne)]
  exact ⟨_, rfl⟩

theorem prepare_ok {registry : Registry} {args : Submission} {o : Office} (h : Checked registry args o) :
    ∃ p, prepare registry args o = .ok p ∧ p.form = lineForm o.toConfig args.lineId := by
  obtain ⟨htitle, hreg, huser, hdup, specs, planned, hspecs, hplan, hself, hform⟩ := h
  obtain ⟨steps, hsteps⟩ := openSteps_planned hplan
  obtain ⟨_, _, hlen, happ, _⟩ := Shape.openSteps_ok hplan hsteps
  have hany : steps.any (fun s => s.approverId = args.requesterId) = false := by
    rw [List.any_eq_false]
    intro s hs
    have hmem : s.approverId ∈ planned.map Engine.Planned.approverId := happ ▸ List.mem_map_of_mem hs
    obtain ⟨q, hq, hqs⟩ := List.mem_map.mp hmem
    simpa [← hqs] using hself q hq
  have huser' : (args.viaUserApi && !registry.userSubmittable args.actionType) = false := by
    cases hv : args.viaUserApi with
    | false => rfl
    | true => simp [huser hv]
  rw [← hlen] at hform
  simp [prepare, htitle, hreg, huser', hdup, hspecs, hplan, hsteps, hany, hform, bind, Except.bind,
    pure, Except.pure]

theorem checked_of_prepare {registry : Registry} {args : Submission} {o : Office} {p : Prepared}
    (h : prepare registry args o = .ok p) : Checked registry args o := by
  unfold prepare at h
  split at h
  · cases h
  split at h
  · cases h
  split at h
  · cases h
  split at h
  · cases h
  rename_i htitle hreg huser _ hdup
  cases hspecs : specsOf o.toConfig args with
  | error e => simp [hspecs, bind, Except.bind] at h
  | ok specs =>
    cases hplan : Engine.planSteps specs with
    | error e => simp [hspecs, hplan, bind, Except.bind] at h
    | ok planned =>
      obtain ⟨steps, hsteps⟩ := openSteps_planned hplan
      obtain ⟨_, _, hlen, happ, _⟩ := Shape.openSteps_ok hplan hsteps
      simp only [hspecs, hplan, hsteps, bind, Except.bind] at h
      split at h
      · cases h
      rename_i hself
      cases hform : guardStepsCoverForm (lineForm o.toConfig args.lineId) steps.length with
      | error e => simp [hform] at h
      | ok u =>
        refine ⟨htitle, by simpa using hreg, ?_, hdup, specs, planned, hspecs, hplan, ?_, ?_⟩
        · intro hv
          simpa [hv] using huser
        · intro q hq hqe
          have hmem : q.approverId ∈ steps.map Step.approverId := happ ▸ List.mem_map_of_mem hq
          obtain ⟨s, hs, hse⟩ := List.mem_map.mp hmem
          exact hself (List.any_eq_true.mpr ⟨s, hs, by simpa using hse.trans hqe⟩)
        · rw [← hlen]
          exact hform

/-! The draft values. -/

section Rows
variable {κ : Type} {key : Ledger → κ}

/-- An edit of one request keeps what it does not touch. -/
theorem onRequest_rows (requestId : Nat) {f : Ledger → Ledger} (hf : ∀ l, key (f l) = key l) (o : Office) :
    (onRequest requestId f o).requests.map key = o.requests.map key := by
  simp only [onRequest, List.map_map]
  refine List.map_congr_left fun l _ => ?_
  simp only [Function.comp]
  split
  · exact hf l
  · rfl

/-- Draft values only reach the blocks. -/
theorem drafts_rows (key : Ledger → κ) (hkey : ∀ (l : Ledger) blocks, key { l with blocks := blocks } = key l)
    (tables : Evaluation.Tables) (requestId : Nat) (requesterId : Int) (now : Time)
    (blocks : List Block) (values : List DraftValue) (o : Office) :
    ((applyDraftValues tables requestId requesterId now blocks values).on o).2.requests.map key =
      o.requests.map key := by
  induction values generalizing o with
  | nil => rfl
  | cons v rest ih =>
    rw [applyDraftValues, Raising.on_bind, Raising.on_lift]
    cases draftValue tables blocks v with
    | error e => rfl
    | ok r =>
      simp only [Raising.on_bind, Raising.on_write]
      rw [ih, writeDraft, onRequest_rows _ fun l => hkey l _]

end Rows

/-- The values are written one after the other until one does not fit. -/
theorem drafts_ok_iff (tables : Evaluation.Tables) (requestId : Nat) (requesterId : Int) (now : Time)
    (blocks : List Block) (values : List DraftValue) (o : Office) :
    ((applyDraftValues tables requestId requesterId now blocks values).on o).1 = .ok () ↔
      ∀ v ∈ values, ∃ r, draftValue tables blocks v = .ok r := by
  induction values generalizing o with
  | nil => simp [applyDraftValues]
  | cons v rest ih =>
    rw [applyDraftValues, Raising.on_bind, Raising.on_lift, List.forall_mem_cons]
    cases hv : draftValue tables blocks v with
    | error e => simp
    | ok r =>
      simp only [Raising.on_bind, Raising.on_write, ih, Except.ok.injEq, exists_eq', true_and]

/-! The submission. -/

/-- The office with the rows of the new request. -/
def inserted (args : Submission) (p : Prepared) (o : Office) : Office :=
  insertBlocks o.nextRequest (snapshotBlocks o.nextBlock p.form)
    (insertSteps o.nextRequest p.steps (insertRequest (requestRow args p o.nextRequest) o))

theorem inserted_rows (args : Submission) (p : Prepared) (o : Office) :
    (inserted args p o).requests.map Ledger.request =
      o.requests.map Ledger.request ++ [requestRow args p o.nextRequest] := by
  rw [inserted]
  change (onRequest _ _ _).requests.map Ledger.request = _
  rw [onRequest_rows _ fun _ => by rfl, insertSteps, onRequest_rows _ fun _ => by rfl, insertRequest,
    List.map_append]
  rfl

/-- The new request as it is read back. -/
theorem getRequest_inserted {o : Office} (h : FreshIds o) (args : Submission) (p : Prepared) :
    getRequest (inserted args p o) o.nextRequest =
      .ok ⟨requestRow args p o.nextRequest, p.steps, snapshotBlocks o.nextBlock p.form⟩ := by
  have hold {l : Ledger} (hl : l ∈ o.requests) : ¬ l.request.id = o.nextRequest := (h l hl).ne
  have hsame (f : Ledger → Ledger) (rest : List Ledger) :
      (o.requests ++ rest).map (fun l => if l.request.id = o.nextRequest then f l else l) =
        o.requests ++ rest.map fun l => if l.request.id = o.nextRequest then f l else l := by
    rw [List.map_append]
    congr 1
    exact (List.map_congr_left fun l hl => if_neg (hold hl)).trans (List.map_id _)
  have hrows : (inserted args p o).requests = o.requests ++
      [⟨requestRow args p o.nextRequest, p.steps, snapshotBlocks o.nextBlock p.form⟩] := by
    simp only [inserted, insertBlocks, insertSteps, insertRequest, onRequest]
    rw [hsame, hsame]
    simp [requestRow]
  have hnone : o.requests.find? (fun l => l.request.id = o.nextRequest) = none := by
    rw [List.find?_eq_none]
    exact fun l hl => by simpa using hold hl
  rw [getRequest, hrows, List.find?_append, hnone]
  simp [requestRow]

theorem getRequest_ok_of_rows {o o' : Office} {requestId : Nat} {l : Ledger}
    (hrows : o'.requests.map Ledger.request = o.requests.map Ledger.request)
    (h : getRequest o requestId = .ok l) : ∃ l', getRequest o' requestId = .ok l' := by
  have hsome : (o'.requests.find? fun l => l.request.id = requestId).isSome := by
    have hs : (o.requests.find? fun l => l.request.id = requestId).isSome := by
      unfold getRequest at h
      split at h
      · cases h
      · rename_i hf
        rw [hf]
        rfl
    have hmap (x : List Ledger) : (x.find? fun l => l.request.id = requestId).isSome =
        ((x.map Ledger.request).find? fun r => r.id = requestId).isSome := by
      rw [List.find?_map, Option.isSome_map]
      rfl
    rwa [hmap, hrows, ← hmap]
  obtain ⟨l', hl'⟩ := Option.isSome_iff_exists.mp hsome
  exact ⟨l', by rw [getRequest, hl']⟩

/-- A refused call writes nothing. -/
theorem submit_refused {registry : Registry} {tables : Evaluation.Tables} {args : Submission}
    {o : Office} (h : ¬ Checked registry args o) :
    ((submit registry tables args).on o).2 = o := by
  cases hp : prepare registry args o with
  | ok p => exact absurd (checked_of_prepare hp) h
  | error e => simp [submit, Raising.on_bind, hp]

/-- What follows the insertion of the rows. -/
def finishSubmit (tables : Evaluation.Tables) (args : Submission) (requestId : Nat) : Sql Ledger := do
  if !args.blockValues.isEmpty then
    let o ← Raising.read
    let l ← Raising.lift (getRequest o requestId)
    applyDraftValues tables requestId args.requesterId o.clock (l.blocks.map normalized) args.blockValues
  let o ← Raising.read
  Raising.lift (getRequest o requestId)

/-- What comes back is read from rows that differ from those before in their blocks only. -/
theorem finishSubmit_rows {κ : Type} (key : Ledger → κ)
    (hkey : ∀ (l : Ledger) blocks, key { l with blocks := blocks } = key l) (tables : Evaluation.Tables) (args : Submission) (requestId : Nat) (o : Office) :
    ((finishSubmit tables args requestId).on o).2.requests.map key = o.requests.map key := by
  have hread (o : Office) : ((do
      let o ← Raising.read
      Raising.lift (getRequest o requestId) : Sql Ledger).on o).2 = o := rfl
  rw [finishSubmit]
  split
  · simp only [Raising.on_bind, Raising.on_read, Raising.on_lift]
    cases getRequest o requestId with
    | error e => rfl
    | ok l =>
      have hrows := drafts_rows key hkey tables requestId args.requesterId o.clock (l.blocks.map normalized)
        args.blockValues o
      dsimp only
      cases hr : (applyDraftValues tables requestId args.requesterId o.clock (l.blocks.map normalized)
          args.blockValues).on o with
      | mk r t =>
        rw [hr] at hrows
        cases r <;> exact hrows
  · exact congrArg (fun o : Office => o.requests.map key) (hread o)

theorem submit_checked {registry : Registry} {tables : Evaluation.Tables} {args : Submission}
    {o : Office} {p : Prepared} (hp : prepare registry args o = .ok p) :
    (submit registry tables args).on o =
      (finishSubmit tables args o.nextRequest).on (inserted args p o) := by
  simp only [submit, Raising.on_bind, Raising.on_read, Raising.on_lift, hp, Raising.on_write]
  rfl

/-- Once the rows are there, the call raises exactly where a value does not fit. -/
theorem finishSubmit_ok_iff {tables : Evaluation.Tables} {args : Submission} {o : Office}
    (h : FreshIds o) {p : Prepared} (hform : p.form = lineForm o.toConfig args.lineId) :
    (∃ l, ((finishSubmit tables args o.nextRequest).on (inserted args p o)).1 = .ok l) ↔
      DraftsFit tables args o := by
  have hget := getRequest_inserted h args p
  rw [finishSubmit]
  cases hvalues : args.blockValues with
  | nil =>
    simp [DraftsFit, hvalues, Raising.on_bind, hget]
  | cons v rest =>
    have hfit : DraftsFit tables args o ↔ ∀ v' ∈ v :: rest,
        ∃ r, draftValue tables ((snapshotBlocks o.nextBlock p.form).map normalized) v' = .ok r := by
      rw [DraftsFit, hvalues, blocksOf, hform]
    rw [hfit, ← drafts_ok_iff tables o.nextRequest args.requesterId (inserted args p o).clock _ _
      (inserted args p o)]
    have hrows := drafts_rows Ledger.request (fun _ _ => rfl) tables o.nextRequest args.requesterId
      (inserted args p o).clock
      ((snapshotBlocks o.nextBlock p.form).map normalized) (v :: rest) (inserted args p o)
    obtain ⟨l', hl'⟩ := getRequest_ok_of_rows hrows hget
    simp only [List.isEmpty_cons, Bool.not_false, if_true, Raising.on_bind, Raising.on_read,
      Raising.on_lift, hget]
    cases hr : (applyDraftValues tables o.nextRequest args.requesterId (inserted args p o).clock
        ((snapshotBlocks o.nextBlock p.form).map normalized) (v :: rest)).on (inserted args p o) with
    | mk r t =>
      rw [hr] at hl'
      cases r with
      | error e => simp
      | ok u => simp [hl']

theorem submit_unchanged_iff (registry : Registry) (tables : Evaluation.Tables) (args : Submission)
    (o : Office) (h : FreshIds o) :
    (∀ e, ((submit registry tables args).on o).1 = .error e →
        ((submit registry tables args).on o).2.requests = o.requests) ↔
      ¬ Checked registry args o ∨ DraftsFit tables args o := by
  by_cases hchecked : Checked registry args o
  · obtain ⟨p, hp, hform⟩ := prepare_ok hchecked
    rw [submit_checked hp, ← finishSubmit_ok_iff h hform]
    constructor
    · intro hsame
      refine Or.inr ?_
      cases hr : ((finishSubmit tables args o.nextRequest).on (inserted args p o)).1 with
      | ok l => exact ⟨l, rfl⟩
      | error e =>
        -- the row of the request is still there
        have hrows := finishSubmit_rows Ledger.request (fun _ _ => rfl) tables args o.nextRequest (inserted args p o)
        rw [hsame e hr, inserted_rows] at hrows
        have hlen := congrArg List.length hrows
        simp at hlen
    · intro hfit e he
      obtain hno | ⟨l, hl⟩ := hfit
      · exact absurd hchecked hno
      · rw [hl] at he
        cases he
  · rw [submit_refused hchecked]
    simp [hchecked]

/-! A submission with a value for a draft block that its form does not have. -/

def anyKind : Registry := ⟨fun _ => true, fun _ => true⟩

def noTables : Evaluation.Tables := ⟨some [], some [], id⟩

/-- One approver, no line; one value if `values` has one. -/
def oneApprover (values : List DraftValue) : Submission where
  requesterId := 1
  title := "t"
  actionType := "generic"
  lineId := none
  steps := [⟨.person 3, some 1⟩]
  targetRef := some "x"
  blockValues := values
  viaUserApi := false

theorem freshIds_empty : FreshIds empty := by
  simp [FreshIds, empty]

theorem submit_unchanged_iff_empty :
    (∀ e, ((submit anyKind noTables (oneApprover [⟨0, 1, .null⟩])).on empty).1 = .error e →
        ((submit anyKind noTables (oneApprover [⟨0, 1, .null⟩])).on empty).2.requests =
          empty.requests) ↔
      ¬ Checked anyKind (oneApprover [⟨0, 1, .null⟩]) empty ∨
        DraftsFit noTables (oneApprover [⟨0, 1, .null⟩]) empty :=
  submit_unchanged_iff anyKind noTables (oneApprover [⟨0, 1, .null⟩]) empty freshIds_empty

/-- The call raises, its request stays, and stands in the way of the next one. -/
theorem submit_leaves_pending :
    (∃ e, ((submit anyKind noTables (oneApprover [⟨0, 1, .null⟩])).on empty).1 = .error e) ∧
    ((submit anyKind noTables (oneApprover [⟨0, 1, .null⟩])).on empty).2.requests ≠ empty.requests ∧
    ∃ e, ((submit anyKind noTables (oneApprover [])).on
      ((submit anyKind noTables (oneApprover [⟨0, 1, .null⟩])).on empty).2).1 = .error e := by
  refine ⟨⟨_, rfl⟩, ?_, ⟨_, rfl⟩⟩
  intro h
  exact absurd (congrArg List.length h) (by decide)

end XgenSdk.SubmitAtomic
