import XgenSdk.Approval.Race
import XgenSdk.Approval.CancelRace
import XgenSdk.Approval.Turn

/-! A call that nobody interferes with: its statements run one after the
other. What settles a request writes only what the hooks left. -/
namespace XgenSdk.Alone
open XgenSdk.Models XgenSdk.Interleave XgenSdk.Store XgenSdk.Race

/-- Everything but the columns of the hooks is as it was. -/
structure Kept (x y : World) : Prop where
  steps : y.steps = x.steps
  blocks : y.blocks = x.blocks
  request : ∃ appliedAt applyError applyClaimedAt, y.request = { x.request with
    appliedAt := appliedAt, applyError := applyError, applyClaimedAt := applyClaimedAt }

theorem Kept.refl (x : World) : Kept x x := ⟨rfl, rfl, _, _, _, rfl⟩

theorem Kept.trans {x y z : World} (h : Kept x y) (h' : Kept y z) : Kept x z := by
  obtain ⟨_, _, _, hr⟩ := h.request
  obtain ⟨_, _, _, hr'⟩ := h'.request
  rw [hr] at hr'
  exact ⟨h'.steps.trans h.steps, h'.blocks.trans h.blocks, _, _, _, hr'⟩

theorem Kept.status {x y : World} (h : Kept x y) : y.request.status = x.request.status := by
  obtain ⟨_, _, _, hr⟩ := h.request
  rw [hr]

theorem Kept.currentStepOrder {x y : World} (h : Kept x y) :
    y.request.currentStepOrder = x.request.currentStepOrder := by
  obtain ⟨_, _, _, hr⟩ := h.request
  rw [hr]

theorem Kept.decidedAt {x y : World} (h : Kept x y) : y.request.decidedAt = x.request.decidedAt := by
  obtain ⟨_, _, _, hr⟩ := h.request
  rw [hr]

theorem exec_kept (i : Nat) {s : Stmt} (hs : Settling s) (x : World) : Kept x (exec i s x).2 := by
  cases s with
  | actStep status now note actorId => exact hs.elim
  | moveRequest status order decidedAt seen => exact hs.elim
  | skipSteps => exact hs.elim
  | openStep order => exact hs.elim
  | closeRequest now canceledBy note => exact hs.elim
  | updateBlock blockId data actorId now => exact hs.elim
  | claimApply now stale =>
    simp only [exec]
    split <;> exact ⟨rfl, rfl, _, _, _, rfl⟩
  | stampApplied now err =>
    simp only [exec]
    split <;> exact ⟨rfl, rfl, _, _, _, rfl⟩
  | _ => exact ⟨rfl, rfl, _, _, _, rfl⟩

theorem get_total : Store.get.Total := fun _ _ _ => trivial

theorem settleHooks_total (lease : Time) (site : Site) (loaded : Ledger) :
    (settleHooks lease site loaded).Total := by
  unfold settleHooks
  split
  · trivial
  · intro now won
    cases won with
    | false => trivial
    | true => exact fun _ _ _ _ => trivial

section
variable (i : Nat) (tick : Nat → Time)

/-- The calls of one caller alone, with `tick n` before its `n`-th statement. -/
def runAlone {α : Type} (n : Nat) (p : Db α) (x : World) : Except ApprovalError α × World :=
  Prog.alone (exec i) (fun n => elapse (tick n)) n p x

theorem runAlone_settling {α : Type} {p : Db α} (hp : p.Only Settling) (ht : p.Total) (n : Nat)
    (x : World) : (∃ a, (runAlone i tick n p x).1 = .ok a) ∧ Kept x (runAlone i tick n p x).2 :=
  ⟨Prog.alone_total _ _ n ht x, Prog.alone_only (exec i) (fun n => elapse (tick n)) Kept.refl
    (fun _ _ _ h h' => h.trans h') (fun _ _ => ⟨rfl, rfl, _, _, _, rfl⟩) (fun _ => exec_kept i) hp n x⟩

end

end XgenSdk.Alone

/-! The store's `decide`, run without interference, against the rule it
implements: conditional updates and `advance` on one side, `Engine.decide` on
the other. -/
namespace XgenSdk.DecideAlone
open XgenSdk.Models XgenSdk.Interleave XgenSdk.Store XgenSdk.Race XgenSdk.Shape XgenSdk.Turn
  XgenSdk.Alone

/-- What the store holds is the request and the steps of the rule. -/
def Holds (request : Request) (steps : List Step) (w : World) : Prop :=
  w.request.status = request.status ∧ w.request.currentStepOrder = request.currentStepOrder ∧
    w.request.decidedAt = request.decidedAt ∧ w.steps = steps

/-- The run agrees with the rule's answer at the state `x` it read. -/
def Agrees (x : World) (rule : Except ApprovalError (Request × List Step))
    (out : Except ApprovalError Ledger × World) : Prop :=
  match rule with
  | .error e => out.1 = .error e ∧ out.2.toLedger = x.toLedger
  | .ok (request, steps) => (∃ loaded, out.1 = .ok loaded) ∧ Holds request steps out.2

/-! `advance` against `decide`. -/

theorem advance_rejected {k : Nat} {steps : List Step} (h : InTurn k steps) (now : Option Time)
    (note : String) :
    Engine.advance (actAt k .rejected now note steps) k now = (.rejected, k, now) := by
  have hany : (actAt k .rejected now note steps).any (fun s => s.status = .rejected) = true := by
    obtain ⟨s, hs, hk⟩ := h.1
    rw [actAt, List.any_map, List.any_eq_true]
    exact ⟨s, hs, by simp [hk, Engine.act]⟩
  rw [Engine.advance, if_pos hany]

theorem advance_approved {k : Nat} {steps : List Step} (h : InTurn k steps) (hn : Numbered steps)
    (now : Option Time) (note : String) :
    Engine.advance (actAt k .approved now note steps) k now =
      if k < steps.length then (.pending, k+1, none) else (.approved, k, now) := by
  have hk := (hn.mem_order k).mp h.1
  have horders := (hn.actAt k .approved now note).leastAbove k hk.1
  have hnone : ¬ (actAt k .approved now note steps).any (fun s => s.status = .rejected) = true := by
    rw [actAt, List.any_map, List.any_eq_true]
    rintro ⟨s, hs, hrej⟩
    have hst := h.2 s hs
    simp only [around] at hst
    by_cases hsk : s.stepOrder = k
    · simp [hsk, Engine.act] at hrej
    · simp only [Function.comp, hsk, if_false, decide_eq_true_eq] at hrej hst
      rw [hrej] at hst
      split at hst <;> cases hst
  have hdone : ¬ (((actAt k .approved now note steps).filter (fun s => s.stepOrder = k)).isEmpty ||
      ((actAt k .approved now note steps).filter (fun s => s.stepOrder = k)).any
        fun s => s.status ≠ .approved) = true := by
    obtain ⟨s, hs, hsk⟩ := h.1
    simp only [Bool.or_eq_true, List.isEmpty_iff, List.any_eq_true, not_or]
    refine ⟨?_, ?_⟩
    · refine List.ne_nil_of_mem (a := Engine.act .approved now note s) (List.mem_filter.mpr ⟨?_, ?_⟩)
      · exact List.mem_map.mpr ⟨s, hs, by simp [hsk]⟩
      · exact decide_eq_true hsk
    · rintro ⟨t, ht, hna⟩
      obtain ⟨htm, htk⟩ := List.mem_filter.mp ht
      obtain ⟨u, _, rfl⟩ := List.mem_map.mp htm
      rw [actAt_order, decide_eq_true_eq] at htk
      simp [htk, Engine.act] at hna
  rw [Engine.advance, if_neg hnone]
  rw [if_neg hdone, horders, actAt, List.length_map]
  by_cases hlt : k < steps.length
  · rw [if_pos hlt, if_pos hlt]
  · rw [if_neg hlt, if_neg hlt]

/-- The step after the approved one waits, so opening it if it waits opens it. -/
theorem opened_next {k : Nat} {steps : List Step} (h : InTurn k steps) (now : Option Time)
    (note : String) :
    ((actAt k .approved now note steps).map fun s =>
      if s.stepOrder = k+1 ∧ s.status = .waiting then { s with status := .pending } else s) =
      Engine.openAt (k+1) (actAt k .approved now note steps) := by
  refine List.map_congr_left fun t ht => ?_
  obtain ⟨s, hs, rfl⟩ := List.mem_map.mp ht
  rw [actAt_order]
  by_cases hk : s.stepOrder = k+1
  · have hge : ¬ k+1 < k := by omega
    have hwait : s.status = .waiting := by simpa [around, hk, hge] using h.2 s hs
    simp [hk, hwait]
  · simp [hk]

section Alone
variable (lease : Time) (i : Nat) (site : Site) (tick : Nat → Time)

/-- What `decide` does once its step is written. -/
def moveRest (order : Nat) (now : Time) : Db Ledger := do
  let fresh ← Store.get
  let _ ← moveOn lease site order (Engine.advance fresh.steps order (some now))
  Store.get

/-- What the winner's next update does to the steps. -/
def settled (status : Status) (next : Nat) (steps : List Step) : List Step :=
  match status with
  | .rejected => Engine.skipOpen steps
  | .pending => steps.map fun s =>
      if s.stepOrder = next ∧ s.status = .waiting then { s with status := .pending } else s
  | _ => steps

theorem afterMove_alone (status : Status) (next n : Nat) (x : World) :
    (∃ a, (runAlone i tick n (do
      let _ ← afterMove lease site status next
      Store.get) x).1 = .ok a) ∧
    Kept { x with steps := settled status next x.steps } (runAlone i tick n (do
      let _ ← afterMove lease site status next
      Store.get) x).2 := by
  have htail : (do
      let loaded ← Store.get
      let _ ← settleHooks lease site loaded
      Store.get : Db Ledger).Only Settling :=
    get_only.bind fun loaded => (settleHooks_only lease site loaded).bind fun _ => get_only
  have htotal : (do
      let loaded ← Store.get
      let _ ← settleHooks lease site loaded
      Store.get : Db Ledger).Total :=
    get_total.bind fun loaded => (settleHooks_total lease site loaded).bind fun _ => get_total
  cases status with
  | canceled => exact runAlone_settling i tick get_only get_total n x
  | approved => exact runAlone_settling i tick htail htotal n x
  | rejected =>
    obtain ⟨hok, hkept⟩ := runAlone_settling i tick htail htotal (n+1)
      (exec i .skipSteps (elapse (tick n) x)).2
    exact ⟨hok, hkept.steps, hkept.blocks, hkept.request⟩
  | pending =>
    obtain ⟨hok, hkept⟩ := runAlone_settling i tick get_only get_total (n+1)
      (exec i (.openStep next) (elapse (tick n) x)).2
    exact ⟨hok, hkept.steps, hkept.blocks, hkept.request⟩

/-- The state in which a move was just made. -/
def moved (x : World) (move : Status × Nat × Option Time) : World :=
  { x with request := { x.request with
      status := move.1, currentStepOrder := move.2.1, decidedAt := move.2.2 } }

/-- Alone, the conditional update of the request succeeds. -/
theorem moveOn_alone {order n : Nat} {x : World} (hp : x.request.status = .pending)
    (hcur : x.request.currentStepOrder = order) {move : Status × Nat × Option Time}
    (hmoves : move.1 ≠ .pending ∨ move.2.1 ≠ order) :
    runAlone i tick n (do
      let _ ← moveOn lease site order move
      Store.get) x =
    runAlone i tick (n+1) (do
      let _ ← afterMove lease site move.1 move.2.1
      Store.get) (moved (elapse (tick n) x) move) := by
  have hwon : exec i (.moveRequest move.1 move.2.1 move.2.2 order) (elapse (tick n) x) =
      (true, moved (elapse (tick n) x) move) := if_pos ⟨hp, hcur⟩
  rw [moveOn, if_pos hmoves]
  change runAlone i tick (n+1) (Prog.bind (if (exec i (.moveRequest move.1 move.2.1 move.2.2 order)
      (elapse (tick n) x)).1 = true then afterMove lease site move.1 move.2.1 else pure ()) fun _ => Store.get)
    (exec i (.moveRequest move.1 move.2.1 move.2.2 order) (elapse (tick n) x)).2 = _
  rw [hwon]
  rfl

theorem moveRest_alone {order n : Nat} {now : Time} {x : World} (hp : x.request.status = .pending)
    (hcur : x.request.currentStepOrder = order) {move : Status × Nat × Option Time}
    (hmove : Engine.advance x.steps order (some now) = move)
    (hmoves : move.1 ≠ .pending ∨ move.2.1 ≠ order) :
    (∃ a, (runAlone i tick n (moveRest lease site order now) x).1 = .ok a) ∧
      Holds (moved x move).request (settled move.1 move.2.1 x.steps)
        (runAlone i tick n (moveRest lease site order now) x).2 := by
  have hrun : runAlone i tick n (moveRest lease site order now) x = runAlone i tick (n+3) (do
      let _ ← moveOn lease site order (Engine.advance x.steps order (some now))
      Store.get) (elapse (tick (n+2)) (elapse (tick (n+1)) (elapse (tick n) x))) := rfl
  rw [hrun, hmove, moveOn_alone lease i site tick (n := n+3)
    (x := elapse (tick (n+2)) (elapse (tick (n+1)) (elapse (tick n) x))) hp hcur hmoves]
  obtain ⟨hok, hkept⟩ := afterMove_alone lease i site tick move.1 move.2.1 (n+4)
    (moved (elapse (tick (n+3)) (elapse (tick (n+2)) (elapse (tick (n+1)) (elapse (tick n) x)))) move)
  exact ⟨hok, hkept.status, hkept.currentStepOrder, hkept.decidedAt, hkept.steps⟩

/-- The clock as `decide` reads it, after its three reads. -/
def readClock (tick : Nat → Time) (x : World) : Time := x.clock + tick 0 + tick 1 + tick 2 + tick 3

/-- The state after the reads and before the first update. -/
def readState (tick : Nat → Time) (x : World) : World :=
  elapse (tick 4) (elapse (tick 3) (elapse (tick 2) (elapse (tick 1) (elapse (tick 0) x))))

/-- What `decide` does once the rule has accepted. -/
def actRest (actorId : Int) (action : Engine.Action) (note : String) (order : Nat) (now : Time) :
    Db Ledger := do
  let won ← stmt (.actStep (stepStatusOf action) now (Engine.clipNote note) actorId)
  if !won then .raise ⟨"이미 처리한 결재입니다"⟩
  else moveRest lease site order now

/-- The reads hand the state to the rule. -/
theorem decide_alone_reads (actorId : Int) (action : Engine.Action) (note : String) (x : World) :
    runAlone i tick 0 (Store.decide lease site actorId action note false) x =
      runAlone i tick 5 (do
        let _ ← Prog.lift (Engine.decide x.request x.steps actorId action note
          (some (readClock tick x)) (x.blocks.map normalized))
        actRest lease site actorId action note (Engine.currentOf x.request) (readClock tick x))
        (readState tick x) := rfl

/-- In turn, the update of the actor's pending step marks the step of the turn. -/
theorem actStep_turn {k : Nat} {steps : List Step} (h : InTurn k steps) (hn : Numbered steps)
    {actorId : Int} {mine : Step} (hm : mine ∈ steps) (hp : Engine.pendingOf actorId mine = true)
    (status : StepStatus) (now : Time) (note : String) :
    (steps.map fun s => if Engine.pendingOf actorId s then
      { s with status := status, actedAt := some now, note := Engine.clipNote note } else s) =
      actAt k status (some now) note steps := by
  have hpend (s : Step) (hs : Engine.pendingOf actorId s = true) : s.status = .pending := by
    rw [Engine.pendingOf, Bool.and_eq_true, decide_eq_true_eq, decide_eq_true_eq] at hs
    exact hs.2
  refine List.map_congr_left fun s hs => ?_
  by_cases hk : s.stepOrder = k
  · have hsm : s = mine := hn.eq_of_order hs hm (hk.trans (h.order_eq hm (hpend mine hp)).symm)
    rw [if_pos (hsm ▸ hp), if_pos hk]
    rfl
  · rw [if_neg fun hps => hk (h.order_eq hs (hpend s hps)), if_neg hk]

/-- The actor's update, then the move computed from the steps as they are now. -/
theorem actRest_alone {k n : Nat} {now : Time} {actorId : Int} {action : Engine.Action}
    {note : String} {x : World} (hn : Numbered x.steps) (hturn : InTurn k x.steps)
    (hp : x.request.status = .pending) (hcur : x.request.currentStepOrder = k) {mine : Step}
    (hm : mine ∈ x.steps) (hmine : Engine.pendingOf actorId mine = true)
    {move : Status × Nat × Option Time}
    (hmove : Engine.advance (actAt k (stepStatusOf action) (some now) note x.steps) k (some now) = move)
    (hmoves : move.1 ≠ .pending ∨ move.2.1 ≠ k) :
    (∃ a, (runAlone i tick n (actRest lease site actorId action note k now) x).1 = .ok a) ∧
      Holds (moved x move).request
        (settled move.1 move.2.1 (actAt k (stepStatusOf action) (some now) note x.steps))
        (runAlone i tick n (actRest lease site actorId action note k now) x).2 := by
  have hwon : exec i (.actStep (stepStatusOf action) now (Engine.clipNote note) actorId)
      (elapse (tick n) x) = (true, { elapse (tick n) x with
        steps := actAt k (stepStatusOf action) (some now) note x.steps }) := by
    have hany : x.steps.any (Engine.pendingOf actorId) = true := List.any_eq_true.mpr ⟨mine, hm, hmine⟩
    rw [← actStep_turn hturn hn hm hmine]
    exact Prod.ext hany rfl
  have hrun : runAlone i tick n (actRest lease site actorId action note k now) x =
      runAlone i tick (n+1) (moveRest lease site k now) { elapse (tick n) x with
        steps := actAt k (stepStatusOf action) (some now) note x.steps } := by
    change runAlone i tick (n+1) (if !(exec i (.actStep (stepStatusOf action) now
      (Engine.clipNote note) actorId) (elapse (tick n) x)).1 then .raise ⟨"이미 처리한 결재입니다"⟩
        else moveRest lease site k now) (exec i (.actStep (stepStatusOf action) now
          (Engine.clipNote note) actorId) (elapse (tick n) x)).2 = _
    rw [hwon]
    rfl
  rw [hrun]
  exact moveRest_alone lease i site tick (x := { elapse (tick n) x with
    steps := actAt k (stepStatusOf action) (some now) note x.steps }) hp hcur hmove hmoves

/-- Where the rule accepts, so does the store, and both end alike. -/
theorem decide_alone_ok {actorId : Int} {action : Engine.Action} {note : String} {x : World}
    (hx : Sound x) {request : Request} {steps : List Step}
    (hok : Engine.decide x.request x.steps actorId action note (some (readClock tick x))
      (x.blocks.map normalized) = .ok (request, steps)) :
    (∃ a, (runAlone i tick 0 (Store.decide lease site actorId action note false) x).1 = .ok a) ∧
      Holds request steps (runAlone i tick 0 (Store.decide lease site actorId action note false) x).2 := by
  rw [decide_alone_reads, hok]
  obtain ⟨hp, mine, hm, hmine, _⟩ := decide_ok hok
  have hpend : mine.status = .pending := by
    rw [Engine.pendingOf, Bool.and_eq_true, decide_eq_true_eq, decide_eq_true_eq] at hmine
    exact hmine.2
  have hturn := (hx.opened hp).inTurn hx.numbered hm hpend
  have hk := (hx.numbered.mem_order _).mp hturn.1
  have hcur : Engine.currentOf x.request = x.request.currentStepOrder := by
    rw [Engine.currentOf, if_neg (by omega)]
  rw [hcur]
  obtain ⟨_, ⟨rfl, rfl, rfl⟩ | ⟨rfl, _, hlast, rfl, rfl⟩ | ⟨rfl, _, hlt, rfl, rfl⟩⟩ :=
    decide_inTurn hx.numbered hturn hok
  · have hadv : Engine.advance (actAt x.request.currentStepOrder (stepStatusOf .rejected)
        (some (readClock tick x)) note (readState tick x).steps) x.request.currentStepOrder
        (some (readClock tick x)) = (.rejected, x.request.currentStepOrder, some (readClock tick x)) :=
      advance_rejected hturn _ note
    exact actRest_alone lease i site tick (n := 5) (x := readState tick x) hx.numbered hturn hp rfl
      hm hmine hadv (Or.inl (by simp))
  · have hadv : Engine.advance (actAt x.request.currentStepOrder (stepStatusOf .approved)
        (some (readClock tick x)) note (readState tick x).steps) x.request.currentStepOrder
        (some (readClock tick x)) = (.approved, x.request.currentStepOrder, some (readClock tick x)) :=
      (advance_approved hturn hx.numbered _ note).trans (if_neg hlast.not_lt)
    exact actRest_alone lease i site tick (n := 5) (x := readState tick x) hx.numbered hturn hp rfl
      hm hmine hadv (Or.inl (by simp))
  · have hadv : Engine.advance (actAt x.request.currentStepOrder (stepStatusOf .approved)
        (some (readClock tick x)) note (readState tick x).steps) x.request.currentStepOrder
        (some (readClock tick x)) = (.pending, x.request.currentStepOrder + 1, none) :=
      (advance_approved hturn hx.numbered _ note).trans (if_pos hlt)
    obtain ⟨hdone, hst, hord, hdec, hsteps⟩ := actRest_alone lease i site tick (n := 5)
      (x := readState tick x) hx.numbered hturn hp rfl hm hmine hadv (Or.inr (by simp))
    refine ⟨hdone, hst.trans hp.symm, hord, hdec.trans (hx.decidedAt hp).symm, hsteps.trans ?_⟩
    exact opened_next hturn _ note

end Alone

theorem decide_alone_agrees (lease : Time) (calls : Nat → Race.Call) (w : World) (hw : Fresh w)
    (ms : Schedule) (i : Nat) (site : Site) (actorId : Int) (action : Engine.Action) (note : String)
    (tick : Nat → Time) :
    Agrees (after lease calls w ms)
      (Engine.decide (after lease calls w ms).request (after lease calls w ms).steps actorId action
        note (some (readClock tick (after lease calls w ms)))
        ((after lease calls w ms).blocks.map normalized))
      (runAlone i tick 0 (Store.decide lease site actorId action note false)
        (after lease calls w ms)) := by
  have hx := after_sound lease calls hw ms
  generalize after lease calls w ms = x at hx ⊢
  cases hr : Engine.decide x.request x.steps actorId action note (some (readClock tick x))
      (x.blocks.map normalized) with
  | ok p => exact decide_alone_ok lease i site tick hx hr
  | error e =>
    have hrun : runAlone i tick 0 (Store.decide lease site actorId action note false) x =
        (.error e, readState tick x) := by
      rw [decide_alone_reads, hr]
      rfl
    rw [Agrees, hrun]
    exact ⟨rfl, rfl⟩

/-- The first of two approvers approves, after the second was refused. -/
theorem decide_alone_agrees_two :
    Agrees (after 600 (fun _ => .decide CancelRace.plainSite 4 .approved "" false)
        CancelRace.twoSteps (List.replicate 9 (.issue 0)))
      (Engine.decide CancelRace.twoSteps.request CancelRace.twoSteps.steps 3 .approved "ok"
        (some (readClock (fun _ => 1) CancelRace.twoSteps)) [])
      (runAlone 1 (fun _ => 1) 0 (Store.decide 600 CancelRace.plainSite 3 .approved "ok" false)
        (after 600 (fun _ => .decide CancelRace.plainSite 4 .approved "" false)
          CancelRace.twoSteps (List.replicate 9 (.issue 0)))) :=
  decide_alone_agrees 600 _ CancelRace.twoSteps CancelRace.fresh_twoSteps
    (List.replicate 9 (.issue 0)) 1 CancelRace.plainSite 3 .approved "ok" fun _ => 1

end XgenSdk.DecideAlone
