import XgenSdk.Approval.Store
import XgenSdk.Approval.Shape

/-! Any number of calls on one request, their statements interleaved in any
order, and what no statement can undo. -/
namespace XgenSdk.Race
open XgenSdk.Py XgenSdk.Models XgenSdk.Interleave XgenSdk.Store XgenSdk.Shape

inductive Call where
  | decide (site : Site) (actorId : Int) (action : Engine.Action) (note : String)
      (followupArgs : Bool)
  | cancel (site : Site) (actorId : Int)
  | systemCancel (site : Site) (note : String)
  | settle (site : Site)
  | finish (site : Site) (decidedOnly : Bool)
  | fillBlock (tables : Evaluation.Tables) (blockId : Nat) (actorId : Int) (data : Json)

/-- `finish` on a snapshot read before, as the workers call it; `decidedOnly`
is whether the caller looks at the snapshot first. -/
def finishSnapshot (lease : Time) (site : Site) (decidedOnly : Bool) : Db Unit := do
  let loaded ← Store.get
  if decidedOnly ∧ loaded.request.status = .pending then return ()
  else
    let _ ← finish lease site loaded.request.status
    return ()

def Call.program (lease : Time) : Call → Db Unit
  | .decide site actorId action note followupArgs =>
    (Store.decide lease site actorId action note followupArgs).void
  | .cancel site actorId => (Store.cancel lease site actorId).void
  | .systemCancel site note => (Store.systemCancel lease site note).void
  | .settle site => (Store.settle lease site).void
  | .finish site decidedOnly => finishSnapshot lease site decidedOnly
  | .fillBlock tables blockId actorId data => (Store.fillBlock tables blockId actorId data).void

abbrev Configs := Config Nat World Reply ApprovalError Unit
abbrev Schedule := List (Move Nat Time)

/-- All calls before their first statement. -/
def start (lease : Time) (calls : Nat → Call) (w : World) : Configs :=
  ⟨w, fun i => ⟨[], (calls i).program lease⟩⟩

/-- The state a schedule leads to. -/
def after (lease : Time) (calls : Nat → Call) (w : World) (ms : Schedule) : World :=
  (play exec elapse (start lease calls w) ms).shared

/-- A request just submitted, without a follow-up configuration. -/
structure Fresh (w : World) : Prop where
  line : ∃ specs planned, Engine.planSteps specs = .ok planned ∧
    Engine.openSteps planned = .ok w.steps ∧
    (planned.map Engine.Planned.stepOrder).min? = some w.request.currentStepOrder
  status : w.request.status = .pending
  decidedAt : w.request.decidedAt = none
  canceledBy : w.request.canceledBy = none
  appliedAt : w.request.appliedAt = none
  applyClaimedAt : w.request.applyClaimedAt = none
  followupConfig : w.request.followupConfig = none
  blockIds : (w.blocks.map Block.id).Nodup
  claimant : w.claimant = none
  hooks : w.hooks = []

theorem Fresh.turn {w : World} (h : Fresh w) :
    Numbered w.steps ∧ InTurn 1 w.steps ∧ w.request.currentStepOrder = 1 := by
  obtain ⟨specs, planned, hp, ho, hmin⟩ := h.line
  obtain ⟨hord, _, hne, _⟩ := planSteps_ok hp
  obtain ⟨hn, hturn, _⟩ := openSteps_ok hp ho
  rw [hord, min?_range' _ (List.length_pos_iff.mpr hne)] at hmin
  exact ⟨hn, hturn, (Option.some.inj hmin).symm⟩

/-! What no statement can undo. -/

/-- How the status of a step can change: waiting, then pending, then for good. -/
def Moves (st st' : StepStatus) : Prop :=
  st' = st ∨ (st = .pending ∧ st' ≠ .waiting) ∨ st = .waiting

structure Evolves (x y : World) : Prop where
  steps : ∃ f : Step → Step, y.steps = x.steps.map f ∧
    ∀ s, (f s).stepOrder = s.stepOrder ∧ (f s).approverId = s.approverId ∧ Moves s.status (f s).status
  blocks : ∃ g : Block → Block, y.blocks = x.blocks.map g ∧
    ∀ b, (g b).id = b.id ∧ (g b).stepOrder = b.stepOrder
  closed : x.request.status ≠ .pending → y.request.status = x.request.status
  clock : x.clock ≤ y.clock

theorem Moves.refl (st : StepStatus) : Moves st st := Or.inl rfl

/-- Approved, rejected and skipped steps stay as they are. -/
theorem Moves.eq_of_done {st st' : StepStatus} (h : Moves st st') (hp : st ≠ .pending)
    (hw : st ≠ .waiting) : st' = st := by
  obtain h | h | h := h
  · exact h
  · exact absurd h.1 hp
  · exact absurd h hw

/-- Nothing waits again. -/
theorem Moves.waiting {st st' : StepStatus} (h : Moves st st') (hw : st' = .waiting) :
    st = .waiting := by
  obtain h | h | h := h
  · exact h.symm.trans hw
  · exact absurd hw h.2
  · exact h

theorem Moves.trans {a b c : StepStatus} (h : Moves a b) (h' : Moves b c) : Moves a c := by
  obtain h | ⟨ha, hb⟩ | ha := h
  · exact h ▸ h'
  · exact Or.inr (Or.inl ⟨ha, fun hc => hb (h'.waiting hc)⟩)
  · exact Or.inr (Or.inr ha)

theorem Evolves.refl (x : World) : Evolves x x where
  steps := ⟨id, (List.map_id _).symm, fun s => ⟨rfl, rfl, Moves.refl s.status⟩⟩
  blocks := ⟨id, (List.map_id _).symm, fun _ => ⟨rfl, rfl⟩⟩
  closed _ := rfl
  clock := le_refl _

theorem Evolves.trans {x y z : World} (h : Evolves x y) (h' : Evolves y z) : Evolves x z := by
  obtain ⟨f, hf, hfs⟩ := h.steps
  obtain ⟨f', hf', hfs'⟩ := h'.steps
  obtain ⟨g, hg, hgs⟩ := h.blocks
  obtain ⟨g', hg', hgs'⟩ := h'.blocks
  constructor
  · refine ⟨f' ∘ f, by rw [hf', hf, List.map_map], ?_⟩
    intro s
    obtain ⟨h1, h2, h3⟩ := hfs s
    obtain ⟨h1', h2', h3'⟩ := hfs' (f s)
    exact ⟨h1'.trans h1, h2'.trans h2, h3.trans h3'⟩
  · refine ⟨g' ∘ g, by rw [hg', hg, List.map_map], ?_⟩
    intro b
    exact ⟨(hgs' (g b)).1.trans (hgs b).1, (hgs' (g b)).2.trans (hgs b).2⟩
  · intro hx
    have hy := h.closed hx
    rw [h'.closed (by rwa [hy]), hy]
  · exact h.clock.trans h'.clock

theorem Evolves.elapse (x : World) (d : Time) : Evolves x (elapse d x) :=
  { Evolves.refl x with clock := Nat.le_add_right _ _ }

/-- A step that is done keeps its status. -/
theorem Evolves.done {x y : World} (h : Evolves x y) {st : StepStatus} (hp : st ≠ .pending)
    (hw : st ≠ .waiting) {k : Nat} (hx : ∃ s ∈ x.steps, s.stepOrder = k ∧ s.status = st) :
    ∃ s ∈ y.steps, s.stepOrder = k ∧ s.status = st := by
  obtain ⟨f, hf, hfs⟩ := h.steps
  obtain ⟨s, hs, hk, hst⟩ := hx
  obtain ⟨h1, _, h3⟩ := hfs s
  refine ⟨f s, hf ▸ List.mem_map_of_mem hs, h1.trans hk, ?_⟩
  exact (h3.eq_of_done (hst ▸ hp) (hst ▸ hw)).trans hst

theorem Evolves.numbered {x y : World} (h : Evolves x y) (hn : Numbered x.steps) :
    Numbered y.steps := by
  obtain ⟨f, hf, hfs⟩ := h.steps
  rw [hf]
  exact hn.map f fun s => (hfs s).1

/-- A step of an order in `orders` becomes approved. -/
def Approves (orders : Nat → Prop) (x y : World) : Prop :=
  ∃ s ∈ x.steps, orders s.stepOrder ∧ s.status ≠ .approved ∧
    ∃ t ∈ y.steps, t.stepOrder = s.stepOrder ∧ t.status = .approved

def NoneApproved (orders : Nat → Prop) (w : World) : Prop :=
  ∀ s ∈ w.steps, orders s.stepOrder → s.status ≠ .approved

theorem NoneApproved.evolves {orders : Nat → Prop} {x y : World} (h : NoneApproved orders x)
    (he : Evolves x y) (hno : ¬ Approves orders x y) : NoneApproved orders y := by
  obtain ⟨f, hf, hfs⟩ := he.steps
  intro t ht hk hap
  have htm := ht
  rw [hf] at htm
  obtain ⟨s, hs, rfl⟩ := List.mem_map.mp htm
  have hks : orders s.stepOrder := (hfs s).1 ▸ hk
  exact hno ⟨s, hs, hks, h s hs hks, f s, ht, (hfs s).1, hap⟩

/-- A decision writes no other status into a step. -/
def Proper : Stmt → Prop
  | .actStep status .. => status = .approved ∨ status = .rejected
  | _ => True

theorem exec_evolves (i : Nat) {s : Stmt} (hs : Proper s) (x : World) :
    Evolves x (exec i s x).2 := by
  have hx := Evolves.refl x
  cases s with
  | actStep status now note actorId =>
    refine { hx with steps := ⟨_, rfl, ?_⟩ }
    intro s
    split
    · rename_i hp
      rw [Engine.pendingOf, Bool.and_eq_true, decide_eq_true_eq, decide_eq_true_eq] at hp
      refine ⟨rfl, rfl, Or.inr (Or.inl ⟨hp.2, ?_⟩)⟩
      obtain rfl | rfl := hs <;> simp
    · exact ⟨rfl, rfl, Moves.refl _⟩
  | moveRequest status order decidedAt seen =>
    simp only [exec]
    split
    · rename_i hp
      exact { hx with closed := fun hne => absurd hp.1 hne }
    · exact hx
  | skipSteps =>
    refine { hx with steps := ⟨_, rfl, ?_⟩ }
    intro s
    split
    · rename_i hp
      obtain hw | hp := hp
      · exact ⟨rfl, rfl, Or.inr (Or.inr hw)⟩
      · exact ⟨rfl, rfl, Or.inr (Or.inl ⟨hp, by simp⟩)⟩
    · exact ⟨rfl, rfl, Moves.refl _⟩
  | openStep order =>
    refine { hx with steps := ⟨_, rfl, ?_⟩ }
    intro s
    split
    · rename_i hp
      exact ⟨rfl, rfl, Or.inr (Or.inr hp.2)⟩
    · exact ⟨rfl, rfl, Moves.refl _⟩
  | closeRequest now canceledBy note =>
    simp only [exec]
    split
    · rename_i hp
      exact { hx with closed := fun hne => absurd hp hne }
    · exact hx
  | claimApply now stale =>
    simp only [exec]
    split
    · exact { hx with closed := fun _ => rfl }
    · exact hx
  | stampApplied now err =>
    refine { hx with closed := fun _ => ?_ }
    simp only [exec]
    split <;> rfl
  | updateBlock blockId data actorId now =>
    refine { hx with blocks := ⟨_, rfl, ?_⟩ }
    intro b
    split <;> exact ⟨rfl, rfl⟩
  | startHook kind lease => exact { hx with }
  | endHook => exact { hx with }
  | _ => exact hx

/-! Which statements a call can issue. -/

/-- Statements that change nothing. -/
def Reading : Stmt → Prop
  | .now => True
  | .selectRequest => True
  | .selectSteps => True
  | .selectBlocks => True
  | .selectBlock _ => True
  | .selectApproved => True
  | .selectOwnStep .. => True
  | _ => False

/-- Statements that leave the steps, the status and the blocks alone. -/
def Settling : Stmt → Prop
  | .actStep .. => False
  | .moveRequest .. => False
  | .skipSteps => False
  | .openStep _ => False
  | .closeRequest .. => False
  | .updateBlock .. => False
  | _ => True

/-- The statements of `decide`. -/
def Deciding : Stmt → Prop
  | .closeRequest .. => False
  | .updateBlock .. => False
  | s => Proper s

/-- The statements of a cancellation. -/
def Closing (by' : CanceledBy) : Stmt → Prop
  | .skipSteps => True
  | .closeRequest _ canceledBy _ => canceledBy = by'
  | s => Settling s

/-- The statements of `fill_block`. -/
def Filling : Stmt → Prop
  | .updateBlock .. => True
  | s => Reading s

theorem Only.mono {ok ok' : Stmt → Prop} {α : Type} {p : Db α} (h : p.Only ok)
    (hok : ∀ s, ok s → ok' s) : p.Only ok' := by
  induction p with
  | done a => trivial
  | raise e => trivial
  | act s next ih => exact ⟨hok s h.1, fun r => ih r (h.2 r)⟩

theorem Reading.settling {s : Stmt} (h : Reading s) : Settling s := by
  cases s <;> trivial

theorem get_reading : Store.get.Only Reading := by
  simp [Store.get, stmt, Prog.Only, Reading]

theorem get_only : Store.get.Only Settling := Only.mono get_reading fun _ => Reading.settling

theorem finish_only (lease : Time) (site : Site) (status : Status) :
    (finish lease site status).Only Settling := by
  simp only [finish, stmt, Prog.stmt_bind, Prog.Only, Settling, true_and]
  intro _ won
  cases won <;> simp [Prog.Only, Settling]

theorem settleHooks_only (lease : Time) (site : Site) (loaded : Ledger) :
    (settleHooks lease site loaded).Only Settling := by
  unfold settleHooks
  split
  · trivial
  · exact (finish_only lease site _).bind fun _ => trivial

theorem Settling.deciding {s : Stmt} (h : Settling s) : Deciding s := by
  cases s <;> trivial

theorem Settling.closing {s : Stmt} (canceledBy : CanceledBy) (h : Settling s) :
    Closing canceledBy s := by
  cases s <;> trivial

theorem Reading.filling {s : Stmt} (h : Reading s) : Filling s := by
  cases s <;> trivial

theorem lift_only {α : Type} (ok : Stmt → Prop) (x : Except ApprovalError α) :
    (Prog.lift x : Db α).Only ok := by
  cases x <;> trivial

theorem afterMove_only (lease : Time) (site : Site) (status : Status) (next : Nat) :
    (afterMove lease site status next).Only Deciding := by
  have hsettle : (do let loaded ← Store.get; settleHooks lease site loaded).Only Deciding :=
    Only.mono (get_only.bind fun loaded => settleHooks_only lease site loaded) fun _ => Settling.deciding
  cases status with
  | pending => exact ⟨trivial, fun _ => trivial⟩
  | approved => exact hsettle
  | rejected => exact ⟨trivial, fun _ => hsettle⟩
  | canceled => trivial

theorem decide_only (lease : Time) (site : Site) (actorId : Int) (action : Engine.Action)
    (note : String) (followupArgs : Bool) :
    (Store.decide lease site actorId action note followupArgs).Only Deciding := by
  have hget : Store.get.Only Deciding := Only.mono get_only fun _ => Settling.deciding
  refine hget.bind fun current => ?_
  split
  · trivial
  refine ⟨trivial, fun now => ⟨trivial, fun blocks => (lift_only _ _).bind fun _ => ⟨?_, fun won => ?_⟩⟩⟩
  · cases action <;> simp [Deciding, Proper, stepStatusOf]
  cases won with
  | false => trivial
  | true =>
    refine hget.bind fun fresh => Prog.Only.bind ?_ fun _ => hget
    unfold moveOn
    split
    · refine ⟨trivial, fun won => ?_⟩
      cases won with
      | false => trivial
      | true => exact afterMove_only lease site _ _
    · trivial

theorem closeAsCanceled_only (lease : Time) (site : Site) (now : Time) (canceledBy : CanceledBy)
    (note : String) :
    (closeAsCanceled lease site now canceledBy note).Only (Closing canceledBy) := by
  have hget : Store.get.Only (Closing canceledBy) := Only.mono get_only fun _ => Settling.closing canceledBy
  refine ⟨trivial, fun _ => ⟨rfl, fun _ => hget.bind fun out => Prog.Only.bind ?_ fun _ => hget⟩⟩
  exact Only.mono (settleHooks_only lease site out) fun _ => Settling.closing canceledBy

theorem cancel_only (lease : Time) (site : Site) (actorId : Int) :
    (Store.cancel lease site actorId).Only (Closing .requester) := by
  refine (Only.mono get_only fun _ => Settling.closing .requester).bind fun current =>
    ⟨trivial, fun now => (lift_only _ _).bind fun _ => ?_⟩
  exact closeAsCanceled_only lease site now .requester ""

theorem systemCancel_only (lease : Time) (site : Site) (note : String) :
    (Store.systemCancel lease site note).Only (Closing .system) := by
  refine (Only.mono get_only fun _ => Settling.closing .system).bind fun current => ?_
  split
  · trivial
  · exact ⟨trivial, fun now => closeAsCanceled_only lease site now .system _⟩

theorem settle_only (lease : Time) (site : Site) : (Store.settle lease site).Only Settling := by
  refine get_only.bind fun loaded => ?_
  split
  · trivial
  · exact (finish_only lease site _).bind fun _ => get_only

theorem finishSnapshot_only (lease : Time) (site : Site) (decidedOnly : Bool) :
    (finishSnapshot lease site decidedOnly).Only Settling := by
  refine get_only.bind fun loaded => ?_
  split
  · trivial
  · exact (finish_only lease site _).bind fun _ => trivial

theorem writeBlock_only (tables : Evaluation.Tables) (blockId : Nat) (actorId : Int) (data : Json) :
    (writeBlock tables blockId actorId data).Only Filling := by
  exact ⟨trivial, fun blocks => (lift_only _ _).bind fun value =>
    ⟨trivial, fun now => ⟨trivial, fun _ => trivial⟩⟩⟩

theorem fillRow_only (tables : Evaluation.Tables) (blockId : Nat) (actorId : Int) (data : Json)
    (row : BlockRow) : (fillRow tables blockId actorId data row).Only Filling := by
  have hwrite : (do
      let _ ← writeBlock tables blockId actorId data
      return (blockId, row.stepOrder, Blocks.normalizeBlockType row.blockType) :
        Db (Nat × Int × String)).Only Filling :=
    (writeBlock_only tables blockId actorId data).bind fun _ => trivial
  unfold fillRow
  split
  · trivial
  split
  · trivial
  split
  · split
    · trivial
    refine ⟨trivial, fun acted => ?_⟩
    cases acted with
    | true => trivial
    | false => exact hwrite
  · refine ⟨trivial, fun mine => ?_⟩
    cases mine with
    | none => trivial
    | some status =>
      simp only [Prog.bind]
      split
      · trivial
      · exact hwrite

theorem fillBlock_only (tables : Evaluation.Tables) (blockId : Nat) (actorId : Int) (data : Json) :
    (Store.fillBlock tables blockId actorId data).Only Filling := by
  refine (Only.mono get_reading fun _ => Reading.filling).bind fun _ => ⟨trivial, fun row => ?_⟩
  cases row with
  | none => trivial
  | some row => exact fillRow_only tables blockId actorId data row

end XgenSdk.Race
