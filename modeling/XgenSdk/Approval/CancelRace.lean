import XgenSdk.Approval.Race

/-! The requester's cancellation against concurrent decisions. `cancel` judges
the steps it read and then skips the open ones, without looking again. -/
namespace XgenSdk.CancelRace
open XgenSdk.Models XgenSdk.Interleave XgenSdk.Store XgenSdk.Race

/-- The request is canceled by its requester although a step is approved. -/
def Erased (w : World) : Prop :=
  w.request.status = .canceled ∧ w.request.canceledBy = some .requester ∧
    ∃ s ∈ w.steps, s.status = .approved

instance (w : World) : Decidable (Erased w) := inferInstanceAs (Decidable (_ ∧ _ ∧ _))

def isCancel : Call → Bool
  | .cancel .. => true
  | _ => false

/-- The steps are read and still to be skipped. -/
def Judged (t : Thread Reply ApprovalError Unit) : Prop :=
  .selectSteps ∈ t.issued ∧ t.rest.MayIssue .skipSteps

/-- No step is approved while a cancellation is between its read of the steps
and its update of them. -/
def NoApprovalWhileJudged (calls : Nat → Call) (c : Configs) (m : Move Nat Time) : Prop :=
  ∀ j, m ≠ .issue j → isCancel (calls j) → Judged (c.threads j) →
    ¬ Approves (fun _ => True) c.shared (c.move exec elapse m).shared

def NoneLeft (w : World) : Prop :=
  ∀ s ∈ w.steps, s.status ≠ .approved ∧ s.status ≠ .pending ∧ s.status ≠ .waiting

def discipline (calls : Nat → Call) : Discipline Nat World Reply ApprovalError Unit where
  inv w := w.request.canceledBy = some .requester → NoneLeft w
  guar _ := Evolves
  ok _ _ := True
  extra i t x y := isCancel (calls i) → Judged t → ¬ Approves (fun _ => True) x y

theorem NoneLeft.evolves {x y : World} (h : NoneLeft x) (he : Evolves x y) : NoneLeft y := by
  obtain ⟨f, hf, hfs⟩ := he.steps
  intro t ht
  rw [hf] at ht
  obtain ⟨s, hs, rfl⟩ := List.mem_map.mp ht
  obtain ⟨h1, h2, h3⟩ := h s hs
  rw [(hfs s).2.2.eq_of_done h2 h3]
  exact ⟨h1, h2, h3⟩

/-- What the others do is an evolution, and no approval at a judged cancellation. -/
theorem others_evolve {calls : Nat → Call} {i : Nat} {t : Thread Reply ApprovalError Unit}
    {x y : World} (h : (discipline calls).Others elapse i t x y) : Evolves x y := by
  obtain ⟨_, _, _, _, ⟨d, rfl⟩ | ⟨_, _, hg⟩⟩ := h
  · exact Evolves.elapse x d
  · exact hg

theorem stable_noneLeft (calls : Nat → Call) (i : Nat) (t : Thread Reply ApprovalError Unit) :
    (discipline calls).Stable elapse i t NoneLeft :=
  fun _ _ h hx => hx.evolves (others_evolve h)

theorem stable_noneApproved {calls : Nat → Call} {i : Nat} {t : Thread Reply ApprovalError Unit}
    (hc : isCancel (calls i) = true) (ht : Judged t) :
    (discipline calls).Stable elapse i t (NoneApproved fun _ => True) :=
  fun _ _ h hx => hx.evolves (others_evolve h) (h.2.2.2.1 hc ht)

/-- Only the requester's own update puts its name on the request. -/
theorem exec_keeps {calls : Nat → Call} (i : Nat) {s : Stmt} (hs : Proper s)
    (hno : ∀ now note, s ≠ .closeRequest now .requester note) {x : World}
    (hx : (discipline calls).inv x) :
    (discipline calls).inv (exec i s x).2 ∧ (discipline calls).guar i x (exec i s x).2 := by
  have he := exec_evolves i hs x
  refine ⟨?_, he⟩
  intro hby
  refine NoneLeft.evolves (hx ?_) he
  cases s with
  | closeRequest now canceledBy note =>
    simp only [exec] at hby
    split at hby
    · simp only [Option.some.injEq] at hby
      exact absurd (hby ▸ rfl) (hno now note)
    · exact hby
  | moveRequest status order decidedAt seen =>
    simp only [exec] at hby
    split at hby <;> exact hby
  | claimApply now stale =>
    simp only [exec] at hby
    split at hby <;> exact hby
  | stampApplied now err =>
    simp only [exec] at hby
    split at hby <;> exact hby
  | _ => exact hby

theorem outline_of_only {calls : Nat → Call} {i : Nat} {issued : List Stmt} {P : World → Prop}
    {p : Db Unit} {ok : Stmt → Prop} (hp : p.Only ok)
    (hok : ∀ s, ok s → Proper s ∧ ∀ now note, s ≠ .closeRequest now .requester note) :
    (discipline calls).Outline exec elapse i issued P p :=
  .of_only hp fun s hs _ hx _ => exec_keeps i (hok s hs).1 (hok s hs).2 hx

theorem settling_safe {s : Stmt} (h : Settling s) :
    Proper s ∧ ∀ now note, s ≠ .closeRequest now .requester note := by
  cases s <;> simp_all [Settling, Proper]

/-- After the judgement: skip what is open, then close the request. -/
theorem closeAsCanceled_outline {calls : Nat → Call} (lease : Time) (site : Site) (now : Time)
    (i : Nat) (issued : List Stmt) :
    (discipline calls).Outline exec elapse i issued (NoneApproved fun _ => True)
      (closeAsCanceled lease site now .requester "").void := by
  have hget : Store.get.Only Settling := get_only
  refine .act (fun _ => NoneLeft) ?_ (fun _ => stable_noneLeft calls i _) fun _ =>
    .act (fun _ _ => True) ?_ (fun _ => Discipline.stable_true i _) fun _ => ?_
  · intro x hx hnone _
    obtain ⟨hinv, hguar⟩ := exec_keeps i (s := .skipSteps) trivial (by simp) hx
    refine ⟨hinv, hguar, ?_⟩
    intro t ht
    obtain ⟨s, hs, rfl⟩ := List.mem_map.mp ht
    have hs' := hnone s hs trivial
    split
    · simp
    · rename_i hopen
      rw [not_or] at hopen
      exact ⟨hs', hopen.2, hopen.1⟩
  · intro x hx hleft _
    have he := exec_evolves i (s := .closeRequest now .requester (Py.orNone "")) trivial x
    exact ⟨fun _ => hleft.evolves he, he, trivial⟩
  · have hrest : (do let out ← Store.get; let _ ← settleHooks lease site out; Store.get : Db Ledger).Only
        Settling := hget.bind fun out => (settleHooks_only lease site out).bind fun _ => hget
    exact outline_of_only hrest.void fun s => settling_safe

/-- The judgement does not look at the time. -/
theorem cancel_ok_any {request : Request} {steps : List Step} {actorId : Int} {now : Option Time}
    {p : Request × List Step} (h : Engine.cancel request steps actorId now = .ok p)
    (now' : Option Time) : ∃ p', Engine.cancel request steps actorId now' = .ok p' := by
  unfold Engine.cancel at h ⊢
  split at h
  · cases h
  split at h
  · cases h
  split at h
  · cases h
  rename_i h1 h2 h3
  exact ⟨_, by rw [if_neg h1, if_neg h2, if_neg h3]⟩

def Passes (request : Request) (steps : List Step) (actorId : Int) : Prop :=
  ∃ p, Engine.cancel request steps actorId none = .ok p

/-- What is left after the reads. -/
def rest (lease : Time) (site : Site) (actorId : Int) (request : Request) (steps : List Step)
    (now : Time) : Db Unit :=
  Prog.void (do
    let _ ← Prog.lift (Engine.cancel request steps actorId (some now))
    closeAsCanceled lease site now .requester "")

theorem mayIssue_rest {lease : Time} {site : Site} {actorId : Int} {request : Request}
    {steps : List Step} (h : Passes request steps actorId) (now : Time) :
    (rest lease site actorId request steps now).MayIssue .skipSteps := by
  obtain ⟨p, hp⟩ := h
  obtain ⟨p', hp'⟩ := cancel_ok_any hp (some now)
  rw [rest, hp']
  exact Or.inl rfl

theorem cancel_outline {calls : Nat → Call} {i : Nat} (lease : Time) (site : Site) (actorId : Int)
    (hc : isCancel (calls i) = true) :
    (discipline calls).Outline exec elapse i [] (fun _ => True)
      (Store.cancel lease site actorId).void := by
  have hkeep (s : Stmt) (hs : Settling s) {x : World} (hx : (discipline calls).inv x) :
      (discipline calls).inv (exec i s x).2 ∧ (discipline calls).guar i x (exec i s x).2 :=
    exec_keeps i (settling_safe hs).1 (settling_safe hs).2 hx
  refine .act (fun _ _ => True) ?_ (fun _ => Discipline.stable_true i _) fun request => ?_
  · intro x hx _ _
    obtain ⟨hinv, hguar⟩ := hkeep .selectRequest trivial hx
    exact ⟨hinv, hguar, trivial⟩
  -- from here on: if the judgement passes, no step is approved yet
  have hstable {steps : List Step} {t : Thread Reply ApprovalError Unit}
      (ht : Passes request steps actorId → Judged t) :
      (discipline calls).Stable elapse i t fun w =>
        Passes request steps actorId → NoneApproved (fun _ => True) w :=
    fun x y h hx hpass => stable_noneApproved hc (ht hpass) x y h (hx hpass)
  refine .act (fun steps w => Passes request steps actorId → NoneApproved (fun _ => True) w) ?_
    (fun steps => hstable fun hpass =>
      ⟨by simp, Or.inr ⟨[], Or.inr ⟨(0 : Nat), mayIssue_rest hpass 0⟩⟩⟩) fun steps =>
    .act (fun _ w => Passes request steps actorId → NoneApproved (fun _ => True) w) ?_
      (fun _ => hstable fun hpass => ⟨by simp, Or.inr ⟨(0 : Nat), mayIssue_rest hpass 0⟩⟩) fun _ =>
    .act (fun _ w => Passes request steps actorId → NoneApproved (fun _ => True) w) ?_
      (fun now => hstable fun hpass => ⟨by simp, mayIssue_rest hpass now⟩) fun now => ?_
  · intro x hx _ _
    obtain ⟨hinv, hguar⟩ := hkeep .selectSteps trivial hx
    refine ⟨hinv, hguar, ?_⟩
    intro ⟨p, hp⟩
    exact fun s hs _ => (Shape.cancel_ok hp).2.2.1 s hs
  · intro x hx hpass _
    obtain ⟨hinv, hguar⟩ := hkeep .selectBlocks trivial hx
    exact ⟨hinv, hguar, hpass⟩
  · intro x hx hpass _
    obtain ⟨hinv, hguar⟩ := hkeep .now trivial hx
    exact ⟨hinv, hguar, hpass⟩
  · cases hp : Engine.cancel request steps actorId (some now) with
    | error e =>
      change (discipline calls).Outline exec elapse i _ _ (rest lease site actorId request steps now)
      rw [rest, hp]
      trivial
    | ok p =>
      change (discipline calls).Outline exec elapse i _ _ (rest lease site actorId request steps now)
      rw [rest, hp]
      exact (closeAsCanceled_outline lease site now i _).weaken fun w hw => hw (cancel_ok_any hp none)

/-- Every call keeps the discipline. -/
theorem program_outline (calls : Nat → Call) (lease : Time) (i : Nat) :
    (discipline calls).Outline exec elapse i [] (fun _ => True) ((calls i).program lease) := by
  cases hc : calls i with
  | cancel site actorId => exact cancel_outline lease site actorId (by rw [hc]; rfl)
  | decide site actorId action note followupArgs =>
    refine outline_of_only (decide_only lease site actorId action note followupArgs).void fun s h => ?_
    cases s <;> simp_all [Deciding, Proper]
  | systemCancel site note =>
    refine outline_of_only (systemCancel_only lease site note).void fun s h => ?_
    cases s <;> simp_all [Closing, Settling, Proper]
  | settle site => exact outline_of_only (settle_only lease site).void fun s => settling_safe
  | finish site decidedOnly =>
    exact outline_of_only (finishSnapshot_only lease site decidedOnly) fun s => settling_safe
  | fillBlock tables blockId actorId data =>
    refine outline_of_only (fillBlock_only tables blockId actorId data).void fun s h => ?_
    cases s <;> simp_all [Filling, Reading, Proper]

theorem not_erased (lease : Time) (calls : Nat → Call) (w : World) (hw : Fresh w) (ms : Schedule)
    (hms : Legal exec elapse (NoApprovalWhileJudged calls) (start lease calls w) ms) :
    ¬ Erased (after lease calls w ms) := by
  have hstart : (discipline calls).Holds exec elapse (start lease calls w) := by
    refine ⟨fun hby => ?_, fun i => ⟨fun _ => True, trivial, Discipline.stable_true i _,
      program_outline calls lease i⟩⟩
    rw [start, hw.canceledBy] at hby
    cases hby
  have hlegal : Legal exec elapse ((discipline calls).Fair exec elapse) (start lease calls w) ms :=
    Legal.mono exec elapse hms fun c m h => ⟨trivial, h⟩
  have hend := hstart.play (fun x e hx _ hby => (hx hby).evolves (Evolves.elapse x e)) hlegal
  intro ⟨_, hby, s, hs, hst⟩
  exact (hend.1 hby s hs).1 hst

/-! A cancellation and approvals by the first of two approvers. -/

def plainSite : Site := ⟨false, false, "workflow", fun _ => ""⟩

def cancelAndApprovals (i : Nat) : Call :=
  if i = 0 then .cancel plainSite 1 else .decide plainSite 3 .approved "" false

def twoSteps : World where
  request := { id := 1, title := "t", actionType := "generic", requesterId := some 1 }
  steps := [{ stepOrder := 1, approverId := 3, status := .pending },
    { stepOrder := 2, approverId := 4 }]
  blocks := []
  clock := 9
  claimant := none
  hooks := []

theorem fresh_twoSteps : Fresh twoSteps where
  line := ⟨[⟨.person 3, some 1⟩, ⟨.person 4, some 2⟩], [⟨3, 1⟩, ⟨4, 2⟩], rfl, rfl, rfl⟩
  status := rfl
  decidedAt := rfl
  canceledBy := rfl
  appliedAt := rfl
  applyClaimedAt := rfl
  followupConfig := rfl
  blockIds := List.nodup_nil
  claimant := rfl
  hooks := rfl

/-- While the cancellation moves alone, nobody approves. -/
theorem legal_alone (c : Configs) (n : Nat) :
    Legal exec elapse (NoApprovalWhileJudged cancelAndApprovals) c (List.replicate n (.issue 0)) := by
  induction n generalizing c with
  | zero => trivial
  | succ n ih =>
    refine ⟨?_, ih _⟩
    intro j hj hc
    have hne : j ≠ 0 := fun he => hj (by rw [he])
    simp [cancelAndApprovals, hne, isCancel] at hc

theorem not_erased_alone :
    ¬ Erased (after 600 cancelAndApprovals twoSteps (List.replicate 6 (.issue 0))) :=
  not_erased 600 cancelAndApprovals twoSteps fresh_twoSteps _ (legal_alone _ 6)

/-- The cancellation reads and judges, the first approver approves, the
cancellation skips the rest: a canceled request with an approved step. -/
theorem erased_by_approval :
    Fresh twoSteps ∧ Erased (after 600 cancelAndApprovals twoSteps
      (List.replicate 4 (.issue 0) ++ List.replicate 6 (.issue 1) ++ List.replicate 2 (.issue 0))) :=
  ⟨fresh_twoSteps, by decide⟩

end XgenSdk.CancelRace
