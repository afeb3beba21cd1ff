import XgenSdk.Approval.CancelRace

/-! The hooks that follow a decision. Whoever wants to run them claims the
request first, for the length of a lease, and stamps `applied_at` at the end. -/
namespace XgenSdk.HookRace
open XgenSdk.Models XgenSdk.Interleave XgenSdk.Store XgenSdk.Race

/-- How often a hook ran. -/
def ran (kind : HookKind) (w : World) : Nat := (w.hooks.filter fun r => r.kind = kind).length

/-- What the record of the hooks may say. -/
structure HooksRight (w : World) : Prop where
  apply_once : ran .apply w ≤ 1
  reject_once : ran .reject w ≤ 1
  apply_approved : 0 < ran .apply w → w.request.status = .approved
  reject_refused : 0 < ran .reject w → w.request.status = .rejected ∨ w.request.status = .canceled
  not_both : ran .apply w = 0 ∨ ran .reject w = 0

/-- Every run of the hooks is stamped before its lease expires. -/
def Timely (lease : Time) (w : World) : Prop :=
  ∀ r ∈ w.hooks, r.phase ≠ .stamped → w.clock ≤ r.lease + lease

/-- Every hook ends before its lease expires; the stamp may come later. -/
def EndsInTime (lease : Time) (w : World) : Prop :=
  ∀ r ∈ w.hooks, r.phase = .running → w.clock ≤ r.lease + lease

instance (lease : Time) (w : World) : Decidable (Timely lease w) :=
  inferInstanceAs (Decidable (∀ r ∈ w.hooks, _))

instance (lease : Time) (w : World) : Decidable (EndsInTime lease w) :=
  inferInstanceAs (Decidable (∀ r ∈ w.hooks, _))

/-- The moves of a run that keeps to `inTime`. -/
def OnTime (inTime : World → Prop) (c : Configs) (m : Move Nat Time) : Prop :=
  inTime (c.move exec elapse m).shared

instance (inTime : World → Prop) [DecidablePred inTime] (c : Configs) (m : Move Nat Time) :
    Decidable (OnTime inTime c m) := inferInstanceAs (Decidable (inTime _))

/-- `finish` is called for a decided request only. -/
def Prudent : Call → Prop
  | .finish _ decidedOnly => decidedOnly = true
  | _ => True

/-! The discipline of the claims. -/

/-- The settlement can be claimed now. -/
def Free (lease : Time) (w : World) : Prop :=
  w.request.appliedAt = none ∧ ∀ t, w.request.applyClaimedAt = some t → t + lease < w.clock

/-- Nothing about the settlement changes. -/
structure Same (x y : World) : Prop where
  appliedAt : y.request.appliedAt = x.request.appliedAt
  applyClaimedAt : y.request.applyClaimedAt = x.request.applyClaimedAt
  claimant : y.claimant = x.claimant
  hooks : y.hooks = x.hooks

/-- No hook ran, or one did, of the kind the final status asks for. -/
def One (w : World) : Prop :=
  w.hooks = [] ∨ ∃ r, w.hooks = [r] ∧ w.request.status ≠ .pending ∧
    r.kind = hookOf w.request.status ∧
    (w.request.appliedAt = none → w.request.applyClaimedAt = some r.lease ∧ r.phase ≠ .stamped)

/-- A call changes nothing, claims what is free, or works under its claim. -/
def Touches (lease : Time) (i : Nat) (x y : World) : Prop :=
  Same x y ∨
  (Free lease x ∧ y.request.appliedAt = x.request.appliedAt ∧ y.hooks = x.hooks) ∨
  (x.claimant = some i ∧ y.claimant = some i)

def discipline (lease : Time) : Discipline Nat World Reply ApprovalError Unit where
  inv := One
  guar i x y := Evolves x y ∧ Touches lease i x y
  ok _ y := Timely lease y
  extra _ _ _ _ := True

theorem Same.refl (x : World) : Same x x := ⟨rfl, rfl, rfl, rfl⟩

theorem One.same {x y : World} (h : One x) (he : Evolves x y) (hs : Same x y) : One y := by
  obtain h | ⟨r, hr, hst, hk, hfree⟩ := h
  · exact Or.inl (hs.hooks.trans h)
  · refine Or.inr ⟨r, hs.hooks.trans hr, ?_, ?_, ?_⟩
    · rwa [he.closed hst]
    · rwa [he.closed hst]
    · rw [hs.appliedAt, hs.applyClaimedAt]
      exact hfree

section Outlines
variable {lease : Time} {i : Nat} {issued : List Stmt}

/-- The request is decided as `status`. -/
def Decided (status : Status) (w : World) : Prop := w.request.status = status ∧ status ≠ .pending

/-- While the lease lasts, the claim of call `i` at `t` stands and no hook ran. -/
def Claimed (lease : Time) (i : Nat) (t : Time) (w : World) : Prop :=
  w.clock ≤ t + lease → w.claimant = some i ∧ w.request.applyClaimedAt = some t ∧
    w.request.appliedAt = none ∧ w.hooks = []

/-- The hook of call `i` is the only one, under its claim. -/
def Working (r : HookRun) (w : World) : Prop :=
  w.hooks = [r] ∧ r.phase ≠ .stamped ∧ w.claimant = some r.caller ∧
    w.request.applyClaimedAt = some r.lease ∧ w.request.appliedAt = none

theorem others_evolve {t : Thread Reply ApprovalError Unit} {x y : World}
    (h : (discipline lease).Others elapse i t x y) :
    Evolves x y ∧ Timely lease y ∧ (Same x y ∨ ∃ j, j ≠ i ∧ Touches lease j x y) := by
  obtain ⟨_, _, hok, _, ⟨d, rfl⟩ | ⟨j, hj, hg⟩⟩ := h
  · exact ⟨Evolves.elapse x d, hok, Or.inl ⟨rfl, rfl, rfl, rfl⟩⟩
  · exact ⟨hg.1, hok, Or.inr ⟨j, hj, hg.2⟩⟩

theorem stable_decided (status : Status) (t : Thread Reply ApprovalError Unit) :
    (discipline lease).Stable elapse i t (Decided status) := by
  intro x y h ⟨hx, hp⟩
  obtain ⟨he, _, _⟩ := others_evolve h
  exact ⟨(he.closed (by rwa [hx])).trans hx, hp⟩

/-- Nobody takes a claim that is not expired, and nobody else works under it. -/
theorem stable_claimed (t₀ : Time) (t : Thread Reply ApprovalError Unit) :
    (discipline lease).Stable elapse i t (Claimed lease i t₀) := by
  intro x y h hx hclock
  obtain ⟨he, _, hmoved⟩ := others_evolve h
  have hleased : x.clock ≤ t₀ + lease := he.clock.trans hclock
  obtain ⟨hown, hat, hnone, hhooks⟩ := hx hleased
  obtain hs | ⟨j, hj, hs | ⟨hfree, _, _⟩ | ⟨hother, _⟩⟩ := hmoved
  · exact ⟨hs.claimant.trans hown, hs.applyClaimedAt.trans hat, hs.appliedAt.trans hnone,
      hs.hooks.trans hhooks⟩
  · exact ⟨hs.claimant.trans hown, hs.applyClaimedAt.trans hat, hs.appliedAt.trans hnone,
      hs.hooks.trans hhooks⟩
  · exact absurd (hfree.2 t₀ hat) (Nat.not_lt.mpr hleased)
  · exact absurd (Option.some.inj (hother.symm.trans hown)) hj

theorem stable_working {r : HookRun} (hr : r.caller = i) (t : Thread Reply ApprovalError Unit) :
    (discipline lease).Stable elapse i t (Working r) := by
  intro x y h ⟨hhooks, hphase, hown, hat, hnone⟩
  obtain ⟨he, htime, hmoved⟩ := others_evolve h
  obtain hs | ⟨j, hj, hs | ⟨hfree, _, hsame⟩ | ⟨hother, _⟩⟩ := hmoved
  · exact ⟨hs.hooks.trans hhooks, hphase, hs.claimant.trans hown, hs.applyClaimedAt.trans hat,
      hs.appliedAt.trans hnone⟩
  · exact ⟨hs.hooks.trans hhooks, hphase, hs.claimant.trans hown, hs.applyClaimedAt.trans hat,
      hs.appliedAt.trans hnone⟩
  · have hleased := htime r (by simp [hsame, hhooks]) hphase
    exact absurd (hfree.2 r.lease hat) (Nat.not_lt.mpr (he.clock.trans hleased))
  · exact absurd ((Option.some.inj (hother.symm.trans hown)).trans hr) hj

/-- Statements that leave the settlement alone. -/
def Plain : Stmt → Prop
  | .claimApply .. => False
  | .startHook .. => False
  | .endHook => False
  | .stampApplied .. => False
  | s => Proper s

theorem exec_plain {s : Stmt} (hs : Plain s) {x : World} (hx : One x) :
    Evolves x (exec i s x).2 ∧ Same x (exec i s x).2 ∧ One (exec i s x).2 := by
  have he : Evolves x (exec i s x).2 := exec_evolves i (by cases s <;> first | exact hs | trivial) x
  have hsame : Same x (exec i s x).2 := by
    cases s with
    | claimApply now stale => exact hs.elim
    | startHook kind lease => exact hs.elim
    | endHook => exact hs.elim
    | stampApplied now err => exact hs.elim
    | moveRequest status order decidedAt seen =>
      simp only [exec]
      split <;> exact ⟨rfl, rfl, rfl, rfl⟩
    | closeRequest now canceledBy note =>
      simp only [exec]
      split <;> exact ⟨rfl, rfl, rfl, rfl⟩
    | _ => exact ⟨rfl, rfl, rfl, rfl⟩
  exact ⟨he, hsame, hx.same he hsame⟩

/-- A plain statement, whose reply `Q` holds of. -/
theorem plain_act {P : World → Prop} {s : Stmt} {next : Reply s → Db Unit} (hs : Plain s)
    (Q : Reply s → World → Prop) (hQ : ∀ x, P x → Q (exec i s x).1 (exec i s x).2)
    (hS : ∀ r t, (discipline lease).Stable elapse i t (Q r))
    (hO : ∀ r, (discipline lease).Outline exec elapse i (issued ++ [s]) (Q r) (next r)) :
    (discipline lease).Outline exec elapse i issued P (.act s next) := by
  refine .act Q ?_ (fun r => hS r _) hO
  intro x hx hP _
  obtain ⟨he, hsame, hone⟩ := exec_plain (i := i) hs hx
  exact ⟨hone, ⟨he, Or.inl hsame⟩, hQ x hP⟩

theorem any_act {P : World → Prop} {s : Stmt} {next : Reply s → Db Unit} (hs : Plain s)
    (hO : ∀ r, (discipline lease).Outline exec elapse i (issued ++ [s]) (fun _ => True) (next r)) :
    (discipline lease).Outline exec elapse i issued P (.act s next) :=
  plain_act hs (fun _ _ => True) (fun _ _ => trivial) (fun _ t => Discipline.stable_true i t) hO

theorem plain_only {P : World → Prop} {p : Db Unit} (hp : p.Only Plain) :
    (discipline lease).Outline exec elapse i issued P p := by
  refine .of_only hp fun s hs x hx _ => ?_
  obtain ⟨he, hsame, hone⟩ := exec_plain (i := i) hs hx
  exact ⟨hone, he, Or.inl hsame⟩

/-- A claim is won only where no hook ran, and stands while its lease lasts. -/
theorem claim_spec {now : Time} {x : World} (hx : One x) (hnow : now ≤ x.clock)
    (htime : Timely lease (exec i (.claimApply now (now - lease)) x).2) :
    One (exec i (.claimApply now (now - lease)) x).2 ∧
      Touches lease i x (exec i (.claimApply now (now - lease)) x).2 ∧
      ((exec i (.claimApply now (now - lease)) x).1 = true →
        Claimed lease i now (exec i (.claimApply now (now - lease)) x).2) := by
  simp only [exec] at htime ⊢
  split
  · rename_i hclaim
    rw [if_pos hclaim] at htime
    rw [claimable, Bool.and_eq_true, Option.isNone_iff_eq_none] at hclaim
    have hfree : Free lease x := by
      refine ⟨hclaim.1, fun t ht => ?_⟩
      have hlt := hclaim.2
      simp only [ht, decide_eq_true_eq] at hlt
      exact (Nat.lt_sub_iff_add_lt.mp hlt).trans_le hnow
    have hnone : x.hooks = [] := by
      obtain h | ⟨r, hr, _, _, hstood⟩ := hx
      · exact h
      · obtain ⟨hat, hphase⟩ := hstood hclaim.1
        have hleased : x.clock ≤ r.lease + lease := htime r (by simp [hr]) hphase
        exact absurd (hfree.2 r.lease hat) (Nat.not_lt.mpr hleased)
    exact ⟨Or.inl hnone, Or.inr (Or.inl ⟨hfree, rfl, rfl⟩),
      fun _ _ => ⟨rfl, rfl, hclaim.1, hnone⟩⟩
  · exact ⟨hx, Or.inl (Same.refl x), by simp⟩

theorem start_spec {status : Status} {t : Time} {x : World} (hst : Decided status x)
    (hclaim : Claimed lease i t x)
    (htime : Timely lease (exec i (.startHook (hookOf status) t) x).2) :
    One (exec i (.startHook (hookOf status) t) x).2 ∧
      Touches lease i x (exec i (.startHook (hookOf status) t) x).2 ∧
      Working ⟨hookOf status, i, t, .running⟩ (exec i (.startHook (hookOf status) t) x).2 := by
  have hleased : x.clock ≤ t + lease :=
    htime ⟨hookOf status, i, t, .running⟩ (by simp [exec]) (by simp)
  obtain ⟨hown, hat, hnone, hhooks⟩ := hclaim hleased
  have hrun : (exec i (.startHook (hookOf status) t) x).2.hooks = [⟨hookOf status, i, t, .running⟩] := by
    simp [exec, hhooks]
  refine ⟨Or.inr ⟨_, hrun, ?_, ?_, fun _ => ⟨hat, by simp⟩⟩, Or.inr (Or.inr ⟨hown, hown⟩),
    hrun, by simp, hown, hat, hnone⟩
  · exact fun h => hst.2 (hst.1 ▸ h)
  · exact congrArg hookOf hst.1.symm

variable (lease) in
theorem end_spec {status : Status} {r : HookRun} {x : World} (hr : r.caller = i)
    (hkind : r.kind = hookOf status) (hst : Decided status x) (hx : Working r x) :
    One (exec i .endHook x).2 ∧ Touches lease i x (exec i .endHook x).2 ∧
      Working { r with phase := .ended } (exec i .endHook x).2 := by
  obtain ⟨hhooks, hphase, hown, hat, hnone⟩ := hx
  have hrun : (exec i .endHook x).2.hooks = [{ r with phase := .ended }] := by
    simp [exec, hhooks, HookRun.advance, hr]
  refine ⟨Or.inr ⟨_, hrun, ?_, ?_, fun _ => ⟨hat, by simp⟩⟩,
    Or.inr (Or.inr ⟨hr ▸ hown, hr ▸ hown⟩), hrun, by simp, hown, hat, hnone⟩
  · exact fun h => hst.2 (hst.1 ▸ h)
  · exact hkind.trans (congrArg hookOf hst.1.symm)

variable (lease) in
theorem stamp_spec {status : Status} {r : HookRun} {x : World} (hr : r.caller = i)
    (hkind : r.kind = hookOf status) (hst : Decided status x) (hx : Working r x) (now : Time)
    (err : Option String) :
    One (exec i (.stampApplied now err) x).2 ∧
      Touches lease i x (exec i (.stampApplied now err) x).2 := by
  obtain ⟨hhooks, hphase, hown, hat, hnone⟩ := hx
  have hrun : (exec i (.stampApplied now err) x).2.hooks = [{ r with phase := .stamped }] := by
    simp [exec, hhooks, HookRun.advance, hr]
  have hreq : (exec i (.stampApplied now err) x).2.request.status = status := by
    simp [exec, hnone, hst.1]
  refine ⟨Or.inr ⟨_, hrun, ?_, ?_, ?_⟩, Or.inr (Or.inr ⟨hr ▸ hown, hr ▸ hown⟩)⟩
  · rw [hreq]
    exact hst.2
  · rw [hreq]
    exact hkind
  · intro h
    simp [exec, hnone] at h

/-- Claim, run the hook of the decided status, stamp. -/
theorem finish_outline (site : Site) (status : Status) {f : String → Db Unit}
    (hf : ∀ err issued P, (discipline lease).Outline exec elapse i issued P (f err)) :
    (discipline lease).Outline exec elapse i issued (Decided status)
      ((finish lease site status).bind f) := by
  refine plain_act trivial (fun now w => Decided status w ∧ now ≤ w.clock) ?_ ?_ fun now => ?_
  · exact fun x hx => ⟨hx, le_refl _⟩
  · intro now t x y h hx
    exact ⟨stable_decided status t x y h hx.1, hx.2.trans (others_evolve h).1.clock⟩
  refine .act (fun won w => Decided status w ∧ (won = true → Claimed lease i now w)) ?_ ?_ fun won => ?_
  · intro x hx ⟨hst, hnow⟩ htime
    have he : Evolves x _ := exec_evolves i (s := .claimApply now (now - lease)) trivial x
    obtain ⟨hone, htouch, hwon⟩ := claim_spec (i := i) hx hnow htime
    exact ⟨hone, ⟨he, htouch⟩, ⟨(he.closed (hst.1 ▸ hst.2)).trans hst.1, hst.2⟩, hwon⟩
  · intro won x y h hx
    exact ⟨stable_decided status _ x y h hx.1, fun hwon => stable_claimed now _ x y h (hx.2 hwon)⟩
  cases won with
  | false => exact hf "" _ _
  | true =>
    refine .act (fun _ w => Decided status w ∧ Working ⟨hookOf status, i, now, .running⟩ w) ?_ ?_
      fun _ => .act (fun _ w => Decided status w ∧ Working ⟨hookOf status, i, now, .ended⟩ w) ?_ ?_
      fun _ => plain_act trivial
        (fun _ w => Decided status w ∧ Working ⟨hookOf status, i, now, .ended⟩ w) ?_ ?_
      fun done => .act (fun _ _ => True) ?_ (fun _ => Discipline.stable_true i _)
      fun _ => hf _ _ _
    · intro x _ ⟨hst, hclaim⟩ htime
      have he := exec_evolves i (s := .startHook (hookOf status) now) trivial x
      obtain ⟨hone, htouch, hwork⟩ := start_spec hst (hclaim rfl) htime
      exact ⟨hone, ⟨he, htouch⟩, hst, hwork⟩
    · intro _ x y h hx
      exact ⟨stable_decided status _ x y h hx.1, stable_working rfl _ x y h hx.2⟩
    · intro x _ ⟨hst, hwork⟩ _
      have he := exec_evolves i (s := .endHook) trivial x
      obtain ⟨hone, htouch, hwork'⟩ := end_spec lease rfl rfl hst hwork
      exact ⟨hone, ⟨he, htouch⟩, hst, hwork'⟩
    · intro _ x y h hx
      exact ⟨stable_decided status _ x y h hx.1, stable_working rfl _ x y h hx.2⟩
    · exact fun x hx => hx
    · intro _ t x y h hx
      exact ⟨stable_decided status t x y h hx.1, stable_working rfl t x y h hx.2⟩
    · intro x _ ⟨hst, hwork⟩ _
      have he := exec_evolves i
        (s := .stampApplied done (Py.orNone (site.outcome (hookOf status)))) trivial x
      obtain ⟨hone, htouch⟩ := stamp_spec lease rfl rfl hst hwork done _
      exact ⟨hone, ⟨he, htouch⟩, trivial⟩

/-- Some decision stands. -/
def Closed (w : World) : Prop := w.request.status ≠ .pending

theorem stable_closed (t : Thread Reply ApprovalError Unit) :
    (discipline lease).Stable elapse i t Closed := by
  intro x y h hx
  rw [Closed, (others_evolve h).1.closed hx]
  exact hx

/-- A snapshot that is decided when it is read stays the decided one. -/
theorem read_outline {P : World → Prop} {f : Ledger → Db Unit}
    (hf : ∀ loaded issued, (discipline lease).Outline exec elapse i issued
      (fun w => loaded.request.status ≠ .pending → Decided loaded.request.status w) (f loaded)) :
    (discipline lease).Outline exec elapse i issued P (Store.get.bind f) := by
  have hS (status : Status) (t : Thread Reply ApprovalError Unit) : (discipline lease).Stable elapse i t
      fun w => status ≠ .pending → Decided status w :=
    fun x y h hx hp => stable_decided status t x y h (hx hp)
  refine plain_act trivial (fun request w => request.status ≠ .pending → Decided request.status w)
    (fun x _ hp => ⟨rfl, hp⟩) (fun request => hS request.status) fun request => ?_
  refine plain_act trivial (fun _ w => request.status ≠ .pending → Decided request.status w)
    (fun x hx => hx) (fun _ => hS request.status) fun steps => ?_
  exact plain_act trivial (fun _ w => request.status ≠ .pending → Decided request.status w)
    (fun x hx => hx) (fun _ => hS request.status) fun blocks => hf ⟨request, steps, blocks⟩ _

/-- `get` of a decided request, for whatever follows it. -/
theorem get_outline {f : Ledger → Db Unit}
    (hf : ∀ loaded issued, (discipline lease).Outline exec elapse i issued
      (Decided loaded.request.status) (f loaded)) :
    (discipline lease).Outline exec elapse i issued Closed (Store.get.bind f) := by
  refine plain_act trivial (fun request => Decided request.status) (fun x hx => ⟨rfl, hx⟩)
    (fun request t => stable_decided request.status t) fun request => ?_
  refine plain_act trivial (fun _ => Decided request.status) (fun x hx => hx)
    (fun _ t => stable_decided request.status t) fun steps => ?_
  exact plain_act trivial (fun _ => Decided request.status) (fun x hx => hx)
    (fun _ t => stable_decided request.status t) fun blocks => hf ⟨request, steps, blocks⟩ _

theorem get_plain {f : Ledger → Db Unit} (hf : ∀ loaded, (f loaded).Only Plain) :
    (Store.get.bind f).Only Plain :=
  ⟨trivial, fun request => ⟨trivial, fun steps => ⟨trivial, fun blocks => hf ⟨request, steps, blocks⟩⟩⟩⟩

theorem settleHooks_outline (site : Site) (loaded : Ledger) {f : Unit → Db Unit}
    (hf : (f ()).Only Plain) :
    (discipline lease).Outline exec elapse i issued (Decided loaded.request.status)
      ((settleHooks lease site loaded).bind f) := by
  unfold settleHooks
  split
  · exact plain_only hf
  · rw [Prog.bind_eq, Prog.bind_assoc]
    exact finish_outline site _ fun _ _ _ => plain_only hf

/-- Settling after a decision, with the snapshot read after it. -/
theorem settleAfter_outline (site : Site) {f : Unit → Db Unit} (hf : (f ()).Only Plain) :
    (discipline lease).Outline exec elapse i issued Closed
      ((Store.get >>= settleHooks lease site).bind f) := by
  rw [Prog.bind_eq, Prog.bind_assoc]
  exact get_outline fun loaded _ => settleHooks_outline site loaded hf

theorem afterMove_outline (site : Site) (status : Status) (next : Nat) {f : Unit → Db Unit}
    (hf : (f ()).Only Plain) :
    (discipline lease).Outline exec elapse i issued
      (fun w => status ≠ .pending → w.request.status = status)
      ((afterMove lease site status next).bind f) := by
  cases status with
  | canceled => exact plain_only hf
  | pending => exact plain_only ⟨trivial, fun _ => hf⟩
  | approved =>
    exact (settleAfter_outline site hf).weaken fun w hw => by simp [Closed, hw]
  | rejected =>
    exact plain_act trivial (fun _ => Closed) (fun x hx => by simp [Closed, exec, hx])
      (fun _ t => stable_closed t) fun _ => settleAfter_outline site hf

/-- Whoever wins the transition knows the status it wrote. -/
theorem moveOn_outline (site : Site) (order : Nat) (move : Status × Nat × Option Time)
    (P : World → Prop) {f : Unit → Db Unit} (hf : (f ()).Only Plain) :
    (discipline lease).Outline exec elapse i issued P ((moveOn lease site order move).bind f) := by
  unfold moveOn
  split
  · refine plain_act trivial
      (fun won w => won = true → move.1 ≠ .pending → w.request.status = move.1) ?_ ?_ fun won => ?_
    · intro x _
      simp only [exec]
      split
      · exact fun _ _ => rfl
      · simp
    · intro won t x y h hx hwon hp
      have hxs := hx hwon hp
      exact ((others_evolve h).1.closed (by rwa [hxs])).trans hxs
    · cases won with
      | false => exact plain_only hf
      | true =>
        change (discipline lease).Outline exec elapse i _ _ ((afterMove lease site move.1 move.2.1).bind f)
        exact (afterMove_outline site move.1 move.2.1 hf).weaken fun w hw => hw rfl
  · exact plain_only hf

theorem closeAsCanceled_outline (site : Site) (now : Time) (canceledBy : CanceledBy) (note : String)
    (P : World → Prop) {f : Ledger → Db Unit} (hf : ∀ loaded, (f loaded).Only Plain) :
    (discipline lease).Outline exec elapse i issued P
      ((closeAsCanceled lease site now canceledBy note).bind f) := by
  refine plain_act trivial (fun _ _ => True) (fun _ _ => trivial)
    (fun _ t => Discipline.stable_true i t) fun _ => ?_
  refine plain_act trivial (fun _ => Closed) ?_ (fun _ t => stable_closed t) fun _ => ?_
  · intro x _
    simp only [exec, Closed]
    split
    · simp
    · assumption
  · change (discipline lease).Outline exec elapse i _ Closed
      ((Store.get.bind fun out => (settleHooks lease site out).bind fun _ => Store.get).bind f)
    rw [Prog.bind_assoc]
    refine get_outline fun loaded _ => ?_
    rw [Prog.bind_assoc]
    exact settleHooks_outline site loaded (get_plain hf)

theorem decide_outline (site : Site) (actorId : Int) (action : Engine.Action) (note : String)
    (followupArgs : Bool) (P : World → Prop) :
    (discipline lease).Outline exec elapse i issued P
      (Store.decide lease site actorId action note followupArgs).void := by
  refine any_act trivial fun request => any_act trivial fun steps => any_act trivial fun blocks => ?_
  cases followupArgs with
  | true => trivial
  | false =>
    refine any_act trivial fun now => any_act trivial fun blocks => ?_
    change (discipline lease).Outline exec elapse i _ _ (Prog.void (do
      let _ ← Prog.lift (Engine.decide request steps actorId action note (some now) blocks)
      let won ← stmt (.actStep (stepStatusOf action) now (Engine.clipNote note) actorId)
      if !won then .raise ⟨"이미 처리한 결재입니다"⟩
      else
        let fresh ← Store.get
        let _ ← moveOn lease site (Engine.currentOf request)
          (Engine.advance fresh.steps (Engine.currentOf request) (some now))
        Store.get : Db Ledger))
    cases Engine.decide request steps actorId action note (some now) blocks with
    | error e => trivial
    | ok p =>
      refine any_act (by cases action <;> simp [Plain, Proper, stepStatusOf]) fun won => ?_
      cases won with
      | false => trivial
      | true =>
        refine any_act trivial fun request' => any_act trivial fun fresh => any_act trivial fun blocks' => ?_
        change (discipline lease).Outline exec elapse i _ _
          (((moveOn lease site (Engine.currentOf request)
            (Engine.advance fresh (Engine.currentOf request) (some now))).bind fun _ => Store.get).bind
              fun _ => .done ())
        rw [Prog.bind_assoc]
        exact moveOn_outline site _ _ _ (get_plain fun _ => trivial)

theorem cancel_outline (site : Site) (actorId : Int) (P : World → Prop) :
    (discipline lease).Outline exec elapse i issued P (Store.cancel lease site actorId).void := by
  refine any_act trivial fun request => any_act trivial fun steps => any_act trivial fun blocks =>
    any_act trivial fun now => ?_
  change (discipline lease).Outline exec elapse i _ _ (Prog.void (do
    let _ ← Prog.lift (Engine.cancel request steps actorId (some now))
    closeAsCanceled lease site now .requester ""))
  cases Engine.cancel request steps actorId (some now) with
  | error e => trivial
  | ok p => exact closeAsCanceled_outline site now .requester "" _ fun _ => trivial

theorem systemCancel_outline (site : Site) (note : String) (P : World → Prop) :
    (discipline lease).Outline exec elapse i issued P (Store.systemCancel lease site note).void := by
  refine any_act trivial fun request => any_act trivial fun steps => any_act trivial fun blocks => ?_
  change (discipline lease).Outline exec elapse i _ _ (Prog.void
    (if request.status ≠ .pending then .done ⟨request, steps, blocks⟩
    else stmt .now >>= fun now => closeAsCanceled lease site now .system (Py.clip 500 note)))
  split
  · trivial
  · exact any_act trivial fun now => closeAsCanceled_outline site now .system _ _ fun _ => trivial

theorem settle_outline (site : Site) (P : World → Prop) :
    (discipline lease).Outline exec elapse i issued P (Store.settle lease site).void := by
  change (discipline lease).Outline exec elapse i issued P ((Store.get.bind fun loaded =>
    if loaded.request.appliedAt.isSome ∨ loaded.request.status = .pending then .done loaded
    else (finish lease site loaded.request.status).bind fun _ => Store.get).bind fun _ => .done ())
  rw [Prog.bind_assoc]
  refine read_outline fun loaded _ => ?_
  split
  · trivial
  · rename_i hdecided
    rw [Prog.bind_assoc]
    refine (finish_outline site loaded.request.status fun _ _ _ => ?_).weaken fun w hw =>
      hw (not_or.mp hdecided).2
    exact plain_only (get_plain fun _ => trivial)

theorem finishSnapshot_outline (site : Site) (P : World → Prop) :
    (discipline lease).Outline exec elapse i issued P (finishSnapshot lease site true) := by
  refine read_outline fun loaded _ => ?_
  split
  · trivial
  · rename_i hdecided
    exact (finish_outline site loaded.request.status fun err _ _ => plain_only (p := .done ()) trivial).weaken fun w hw =>
      hw (by simpa using hdecided)

theorem fillBlock_outline (tables : Evaluation.Tables) (blockId : Nat) (actorId : Int) (data : Py.Json)
    (P : World → Prop) :
    (discipline lease).Outline exec elapse i issued P
      (Store.fillBlock tables blockId actorId data).void :=
  plain_only (Only.mono (fillBlock_only tables blockId actorId data) fun s h => by
    cases s <;> first | exact h | trivial).void

end Outlines

/-- Every call keeps the discipline. -/
theorem program_outline (lease : Time) (i : Nat) {call : Call} (hcall : Prudent call) :
    (discipline lease).Outline exec elapse i [] (fun _ => True) (call.program lease) := by
  cases call with
  | decide site actorId action note followupArgs => exact decide_outline site actorId action note _ _
  | cancel site actorId => exact cancel_outline site actorId _
  | systemCancel site note => exact systemCancel_outline site note _
  | settle site => exact settle_outline site _
  | finish site decidedOnly =>
    rw [Prudent] at hcall
    subst hcall
    exact finishSnapshot_outline site _
  | fillBlock tables blockId actorId data => exact fillBlock_outline tables blockId actorId data _

theorem One.hooksRight {w : World} (h : One w) : HooksRight w := by
  obtain h | ⟨r, hr, hst, hk, _⟩ := h
  · constructor <;> simp [ran, h]
  · have hkinds : r.kind = .apply ∧ w.request.status = .approved ∨
        r.kind = .reject ∧ (w.request.status = .rejected ∨ w.request.status = .canceled) := by
      cases hs : w.request.status <;> simp_all [hookOf]
    obtain ⟨hkind, hs⟩ | ⟨hkind, hs⟩ := hkinds
    · constructor <;> simp [ran, hr, hkind, hs]
    · constructor <;> simp [ran, hr, hkind, hs]

theorem settled_for_good (lease : Time) (calls : Nat → Call) (hcalls : ∀ i, Prudent (calls i))
    (w : World) (hw : Fresh w) (ms ns : Schedule)
    (hlegal : Legal exec elapse (OnTime (Timely lease)) (start lease calls w) (ms ++ ns)) :
    ((after lease calls w ms).request.status ≠ .pending →
      (after lease calls w (ms ++ ns)).request.status = (after lease calls w ms).request.status) ∧
    HooksRight (after lease calls w (ms ++ ns)) := by
  have hstart : (discipline lease).Holds exec elapse (start lease calls w) :=
    ⟨Or.inl hw.hooks, fun i => ⟨fun _ => True, trivial, Discipline.stable_true i _,
      program_outline lease i (hcalls i)⟩⟩
  have hfair : Legal exec elapse ((discipline lease).Fair exec elapse) (start lease calls w)
      (ms ++ ns) := Legal.mono exec elapse hlegal fun c m h => ⟨h, fun _ _ => trivial⟩
  obtain ⟨hms, hns⟩ := Legal.append exec elapse hfair
  have henv (x : World) (d : Time) (hx : One x) (_ : Timely lease (elapse d x)) : One (elapse d x) :=
    hx.same (Evolves.elapse x d) ⟨rfl, rfl, rfl, rfl⟩
  have hmid := hstart.play henv hms
  have hend := hmid.play henv hns
  rw [← play_append] at hend
  have hevolves : Evolves (after lease calls w ms) (after lease calls w (ms ++ ns)) := by
    rw [after, after, play_append]
    refine hmid.play_rel henv hns Evolves.refl (fun x y z h h' => h.trans h') fun x y _ hd => ?_
    obtain rfl | ⟨d, rfl⟩ | ⟨_, hg⟩ := hd
    · exact Evolves.refl x
    · exact Evolves.elapse x d
    · exact hg.1
  exact ⟨hevolves.closed, hend.1.hooksRight⟩

/-! A rejection with hooks, and workers that settle the request. -/

def hookSite : Site := ⟨true, true, "core", fun _ => ""⟩

def rejectAndSettle (i : Nat) : Call :=
  if i = 0 then .decide hookSite 3 .rejected "" false else .settle hookSite

theorem settled_for_good_rejected :
    (after 600 rejectAndSettle CancelRace.twoSteps
        (List.replicate 10 (.issue 0) ++ (List.replicate 20 (.issue 0) ++ List.replicate 9 (.issue 1)))).request.status =
      (after 600 rejectAndSettle CancelRace.twoSteps (List.replicate 10 (.issue 0))).request.status ∧
    HooksRight (after 600 rejectAndSettle CancelRace.twoSteps
      (List.replicate 10 (.issue 0) ++ (List.replicate 20 (.issue 0) ++ List.replicate 9 (.issue 1)))) := by
  have hcalls (i : Nat) : Prudent (rejectAndSettle i) := by
    unfold rejectAndSettle
    split <;> trivial
  have h := settled_for_good 600 rejectAndSettle hcalls CancelRace.twoSteps CancelRace.fresh_twoSteps
    (List.replicate 10 (.issue 0)) (List.replicate 20 (.issue 0) ++ List.replicate 9 (.issue 1))
    (by decide)
  exact ⟨h.1 (by decide), h.2⟩

def finishAndApprove (i : Nat) : Call :=
  if i = 0 then .finish hookSite false
  else .decide hookSite (if i = 1 then 3 else 4) .approved "" false

/-- A hook that ends in time but is stamped late runs again in another worker;
a `finish` of a request that is still pending runs the reject hook of a
request that is approved in the end. -/
theorem hooks_run_wrongly :
    Fresh CancelRace.twoSteps ∧
    (Legal exec elapse (OnTime (EndsInTime 600)) (start 600 rejectAndSettle CancelRace.twoSteps)
        (List.replicate 18 (.issue 0) ++ [.env 601] ++ List.replicate 6 (.issue 1)) ∧
      ran .reject (after 600 rejectAndSettle CancelRace.twoSteps
        (List.replicate 18 (.issue 0) ++ [.env 601] ++ List.replicate 6 (.issue 1))) = 2) ∧
    (Legal exec elapse (OnTime (Timely 600)) (start 600 finishAndApprove CancelRace.twoSteps)
        (List.replicate 8 (.issue 0) ++ List.replicate 20 (.issue 1) ++ List.replicate 20 (.issue 2)) ∧
      ran .reject (after 600 finishAndApprove CancelRace.twoSteps
        (List.replicate 8 (.issue 0) ++ List.replicate 20 (.issue 1) ++ List.replicate 20 (.issue 2))) = 1 ∧
      (after 600 finishAndApprove CancelRace.twoSteps
        (List.replicate 8 (.issue 0) ++ List.replicate 20 (.issue 1) ++
          List.replicate 20 (.issue 2))).request.status = .approved) :=
  ⟨CancelRace.fresh_twoSteps, by decide, by decide⟩

end XgenSdk.HookRace
