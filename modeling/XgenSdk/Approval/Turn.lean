import XgenSdk.Approval.Race

/-! Whose turn it is, in every state of every run: as long as a request is
open, the steps before the current one are approved and those after it have
not begun, whatever calls are under way. -/
namespace XgenSdk.Turn
open XgenSdk.Models XgenSdk.Interleave XgenSdk.Store XgenSdk.Race XgenSdk.Shape XgenSdk.FirstMatch

/-- An open request at step `k`. The step itself may have been decided, and a
cancellation may have skipped what was left. -/
structure Open (k : Nat) (steps : List Step) : Prop where
  here : ∃ s ∈ steps, s.stepOrder = k
  before : ∀ s ∈ steps, s.stepOrder < k → s.status = .approved
  ahead : ∀ s ∈ steps, k < s.stepOrder → s.status = .waiting ∨ s.status = .skipped
  skipped : ∀ s ∈ steps, s.status = .skipped → ∀ t ∈ steps, t.status ≠ .pending ∧ t.status ≠ .waiting

structure Sound (w : World) : Prop where
  numbered : Numbered w.steps
  decidedAt : w.request.status = .pending → w.request.decidedAt = none
  opened : w.request.status = .pending → Open w.request.currentStepOrder w.steps

def Climbs (x y : World) : Prop :=
  y.request.status = .pending → x.request.currentStepOrder ≤ y.request.currentStepOrder

def discipline : Discipline Nat World Reply ApprovalError Unit where
  inv := Sound
  guar _ x y := Evolves x y ∧ Climbs x y
  ok _ _ := True
  extra _ _ _ _ := True

/-! Open requests. -/

theorem Open.order_eq {k : Nat} {steps : List Step} (h : Open k steps) {s : Step} (hs : s ∈ steps)
    (hp : s.status = .pending) : s.stepOrder = k := by
  by_cases hlt : s.stepOrder < k
  · have := h.before s hs hlt
    simp [hp] at this
  by_cases hgt : k < s.stepOrder
  · have := h.ahead s hs hgt
    simp [hp] at this
  omega

/-- As long as somebody can still act, the line is in turn. -/
theorem Open.inTurn {k : Nat} {steps : List Step} (h : Open k steps) (hn : Numbered steps)
    {s : Step} (hs : s ∈ steps) (hp : s.status = .pending) : InTurn k steps := by
  have hk := h.order_eq hs hp
  refine ⟨⟨s, hs, hk⟩, ?_⟩
  intro t ht
  simp only [around]
  split
  · exact h.before t ht (by assumption)
  split
  · rw [hn.eq_of_order ht hs (by omega)]
    exact hp
  · obtain hw | hsk := h.ahead t ht (by omega)
    · exact hw
    · exact absurd hp (h.skipped t ht hsk s hs).1

theorem Open.of_inTurn {k : Nat} {steps : List Step} (h : InTurn k steps) : Open k steps where
  here := h.1
  before s hs hlt := by simpa [around, hlt] using h.2 s hs
  ahead s hs hgt := by
    have hge : ¬ s.stepOrder < k := by omega
    have hne : s.stepOrder ≠ k := by omega
    exact Or.inl (by simpa [around, hge, hne] using h.2 s hs)
  skipped s hs hsk := by
    have hst := h.2 s hs
    simp only [around] at hst
    split at hst
    · simp [hsk] at hst
    · split at hst <;> simp [hsk] at hst

theorem Open.map_here {k : Nat} {steps : List Step} (h : Open k steps) {f : Step → Step}
    (hf : ∀ s, (f s).stepOrder = s.stepOrder) : ∃ s ∈ steps.map f, s.stepOrder = k :=
  (mem_map_iff_of_order hf k).mpr h.here

/-- Deciding pending steps decides the current one at most. -/
theorem Open.act {k : Nat} {steps : List Step} (h : Open k steps) {f : Step → Step}
    (hf : ∀ s, (f s).stepOrder = s.stepOrder)
    (hpend : ∀ s, f s = s ∨ (s.status = .pending ∧
      ((f s).status = .approved ∨ (f s).status = .rejected))) : Open k (steps.map f) := by
  refine ⟨h.map_here hf, ?_, ?_, ?_⟩
  · intro t ht hlt
    obtain ⟨s, hs, rfl⟩ := List.mem_map.mp ht
    rw [hf s] at hlt
    obtain he | ⟨hp, _⟩ := hpend s
    · rw [he]
      exact h.before s hs hlt
    · have := h.order_eq hs hp
      omega
  · intro t ht hgt
    obtain ⟨s, hs, rfl⟩ := List.mem_map.mp ht
    rw [hf s] at hgt
    obtain he | ⟨hp, _⟩ := hpend s
    · rw [he]
      exact h.ahead s hs hgt
    · have := h.order_eq hs hp
      omega
  · intro t ht hsk u hu
    obtain ⟨s, hs, rfl⟩ := List.mem_map.mp ht
    obtain ⟨v, hv, rfl⟩ := List.mem_map.mp hu
    have hss : s.status = .skipped := by
      obtain he | ⟨_, ha | ha⟩ := hpend s
      · rwa [he] at hsk
      · rw [hsk] at ha; cases ha
      · rw [hsk] at ha; cases ha
    obtain he | ⟨_, ha | ha⟩ := hpend v
    · rw [he]
      exact h.skipped s hs hss v hv
    · simp [ha]
    · simp [ha]

theorem Open.skip {k : Nat} {steps : List Step} (h : Open k steps) : Open k (Engine.skipOpen steps) := by
  refine ⟨h.map_here skipOpen_order, ?_, ?_, ?_⟩
  · intro t ht hlt
    obtain ⟨s, hs, rfl⟩ := List.mem_map.mp ht
    rw [skipOpen_order] at hlt
    simp [h.before s hs hlt]
  · intro t ht hgt
    obtain ⟨s, hs, rfl⟩ := List.mem_map.mp ht
    rw [skipOpen_order] at hgt
    obtain hw | hsk := h.ahead s hs hgt
    · simp [hw]
    · simp [hsk]
  · intro _ _ _ u hu
    obtain ⟨v, hv, rfl⟩ := List.mem_map.mp hu
    split
    · simp
    · rename_i hopen
      rw [not_or] at hopen
      exact ⟨hopen.2, hopen.1⟩

/-- Opening a step that the request has reached. -/
theorem Open.openStep {k : Nat} {steps : List Step} (h : Open k steps) {order : Nat}
    (hle : order ≤ k) : Open k (steps.map fun s =>
      if s.stepOrder = order ∧ s.status = .waiting then { s with status := .pending } else s) := by
  have hf (s : Step) : (if s.stepOrder = order ∧ s.status = .waiting then
      { s with status := .pending } else s).stepOrder = s.stepOrder := by split <;> rfl
  refine ⟨h.map_here hf, ?_, ?_, ?_⟩
  · intro t ht hlt
    obtain ⟨s, hs, rfl⟩ := List.mem_map.mp ht
    rw [hf s] at hlt
    simp [h.before s hs hlt]
  · intro t ht hgt
    obtain ⟨s, hs, rfl⟩ := List.mem_map.mp ht
    rw [hf s] at hgt
    rw [if_neg fun hc => by omega]
    exact h.ahead s hs hgt
  · intro t ht hsk u hu
    obtain ⟨s, hs, rfl⟩ := List.mem_map.mp ht
    obtain ⟨v, hv, rfl⟩ := List.mem_map.mp hu
    have hss : s.status = .skipped := by
      split at hsk
      · simp at hsk
      · exact hsk
    -- once something is skipped, nothing waits that could be opened
    have hv' := h.skipped s hs hss v hv
    rw [if_neg fun hc => hv'.2 hc.2]
    exact hv'

/-- The next step's turn begins where the current one is approved. -/
theorem Open.next {k nxt : Nat} {steps : List Step} (h : Open k steps) (hn : Numbered steps)
    (hnxt : leastAbove k (steps.map Step.stepOrder) = some nxt)
    (happ : ∃ s ∈ steps, s.stepOrder = k ∧ s.status = .approved) : Open nxt steps := by
  obtain ⟨hmem, hgt, hleast⟩ := (leastAbove_eq_some k nxt _).mp hnxt
  obtain ⟨t, ht, htk⟩ := List.mem_map.mp hmem
  refine ⟨⟨t, ht, htk⟩, ?_, ?_, h.skipped⟩
  · intro s hs hlt
    by_cases hk : s.stepOrder < k
    · exact h.before s hs hk
    · have hle : ¬ k < s.stepOrder := fun hks => by
        have := hleast s.stepOrder (List.mem_map_of_mem hs) hks
        omega
      obtain ⟨u, hu, huk, hua⟩ := happ
      rw [hn.eq_of_order hs hu (by omega)]
      exact hua
  · intro s hs hks
    exact h.ahead s hs (by omega)

/-! Statements. -/

theorem Climbs.refl (x : World) : Climbs x x := fun _ => le_refl _

theorem Climbs.of_request {x y : World} (h : y.request.currentStepOrder = x.request.currentStepOrder) :
    Climbs x y := fun _ => h.ge

theorem Sound.of_steps {x y : World} (h : Sound x) (hs : y.steps = x.steps)
    (hd : y.request.status = .pending → x.request.status = .pending ∧
      y.request.decidedAt = x.request.decidedAt ∧
      y.request.currentStepOrder = x.request.currentStepOrder) : Sound y := by
  refine ⟨hs ▸ h.numbered, ?_, ?_⟩
  · intro hp
    obtain ⟨hx, hdec, _⟩ := hd hp
    exact hdec.trans (h.decidedAt hx)
  · intro hp
    obtain ⟨hx, _, hcur⟩ := hd hp
    rw [hcur, hs]
    exact h.opened hx

/-- Statements that neither move the request nor open a step. -/
def Tame : Stmt → Prop
  | .moveRequest .. => False
  | .openStep _ => False
  | s => Proper s

theorem exec_tame (i : Nat) {s : Stmt} (hs : Tame s) {x : World} (hx : Sound x) :
    Sound (exec i s x).2 ∧ Climbs x (exec i s x).2 := by
  cases s with
  | moveRequest status order decidedAt seen => exact hs.elim
  | openStep order => exact hs.elim
  | actStep status now note actorId =>
    have hf (s : Step) : (if Engine.pendingOf actorId s then
        { s with status := status, actedAt := some now, note := note } else s).stepOrder =
          s.stepOrder := by split <;> rfl
    refine ⟨⟨hx.numbered.map _ hf, hx.decidedAt, fun hp => (hx.opened hp).act hf ?_⟩, Climbs.refl x⟩
    intro s
    by_cases hp : Engine.pendingOf actorId s = true
    · rw [if_pos hp]
      rw [Engine.pendingOf, Bool.and_eq_true, decide_eq_true_eq, decide_eq_true_eq] at hp
      exact Or.inr ⟨hp.2, hs⟩
    · exact Or.inl (if_neg hp)
  | skipSteps =>
    exact ⟨⟨hx.numbered.skipOpen, hx.decidedAt, fun hp => (hx.opened hp).skip⟩, Climbs.refl x⟩
  | closeRequest now canceledBy note =>
    simp only [exec]
    split
    · exact ⟨hx.of_steps rfl (by simp), fun hp => by simp at hp⟩
    · exact ⟨hx, Climbs.refl x⟩
  | claimApply now stale =>
    simp only [exec]
    split
    · exact ⟨hx.of_steps rfl fun hp => ⟨hp, rfl, rfl⟩, Climbs.of_request rfl⟩
    · exact ⟨hx, Climbs.refl x⟩
  | stampApplied now err =>
    refine ⟨hx.of_steps rfl ?_, ?_⟩
    · simp only [exec]
      split <;> exact fun hp => ⟨hp, rfl, rfl⟩
    · simp only [exec]
      split <;> exact Climbs.of_request rfl
  | startHook kind lease => exact ⟨hx.of_steps rfl fun hp => ⟨hp, rfl, rfl⟩, Climbs.refl x⟩
  | endHook => exact ⟨hx.of_steps rfl fun hp => ⟨hp, rfl, rfl⟩, Climbs.refl x⟩
  | updateBlock blockId data actorId now =>
    exact ⟨hx.of_steps rfl fun hp => ⟨hp, rfl, rfl⟩, Climbs.refl x⟩
  | _ => exact ⟨hx, Climbs.refl x⟩

theorem Tame.proper {s : Stmt} (h : Tame s) : Proper s := by
  cases s <;> first | exact h | trivial

/-- A request that has reached `order`, if it is still open. -/
def Reached (order : Nat) (w : World) : Prop :=
  w.request.status = .pending → order ≤ w.request.currentStepOrder

/-- Step `order` was approved, and the orders are those of `seen`. -/
def Approved (order : Nat) (seen : List Step) (w : World) : Prop :=
  seen.map Step.stepOrder = w.steps.map Step.stepOrder ∧
    ((∃ s ∈ seen, s.stepOrder = order ∧ s.status = .approved) →
      ∃ s ∈ w.steps, s.stepOrder = order ∧ s.status = .approved)

/-- What `advance` answers when it hands over to another step. -/
theorem advance_next {steps : List Step} {order : Nat} {now : Option Time}
    (hp : (Engine.advance steps order now).1 = .pending)
    (hne : (Engine.advance steps order now).2.1 ≠ order) :
    (Engine.advance steps order now).2.2 = none ∧
      leastAbove order (steps.map Step.stepOrder) = some (Engine.advance steps order now).2.1 ∧
      ∃ s ∈ steps, s.stepOrder = order ∧ s.status = .approved := by
  unfold Engine.advance at hp hne ⊢
  split
  · rename_i hrej
    simp [hrej] at hp
  rename_i hrej
  simp only [hrej, if_false, Bool.false_eq_true] at hp hne ⊢
  split
  · rename_i hopen
    rw [if_pos hopen] at hne
    exact absurd rfl hne
  rename_i hdone
  simp only [hdone, if_false, Bool.false_eq_true] at hp hne ⊢
  rw [Bool.or_eq_true, not_or, List.isEmpty_iff, List.any_eq_true] at hdone
  obtain ⟨s, hs⟩ := List.exists_mem_of_ne_nil _ hdone.1
  have hsm := List.mem_filter.mp hs
  have hsa : s.status = .approved := by
    by_contra hna
    exact hdone.2 ⟨s, hs, by simpa using hna⟩
  split
  · rename_i hlast
    simp [hlast] at hp
  · rename_i nxt hnxt
    exact ⟨rfl, hnxt, s, hsm.1, by simpa using hsm.2, hsa⟩

/-! Calls. -/
section Outlines
variable {lease : Time} {i : Nat} {issued : List Stmt}

theorem others_evolve {t : Thread Reply ApprovalError Unit} {x y : World}
    (h : discipline.Others elapse i t x y) : Evolves x y ∧ Climbs x y := by
  obtain ⟨_, _, _, _, ⟨d, rfl⟩ | ⟨_, _, hg⟩⟩ := h
  · exact ⟨Evolves.elapse x d, Climbs.refl x⟩
  · exact hg

theorem stable_reached (order : Nat) (t : Thread Reply ApprovalError Unit) :
    discipline.Stable elapse i t (Reached order) := by
  intro x y h hx hp
  obtain ⟨he, hc⟩ := others_evolve h
  have hxp : x.request.status = .pending := by
    by_contra hne
    exact hne ((he.closed hne).symm.trans hp)
  exact (hx hxp).trans (hc hp)

theorem stable_approved (order : Nat) (seen : List Step) (t : Thread Reply ApprovalError Unit) :
    discipline.Stable elapse i t (Approved order seen) := by
  intro x y h ⟨hords, happ⟩
  obtain ⟨he, _⟩ := others_evolve h
  refine ⟨?_, fun hs => he.done (by simp) (by simp) (happ hs)⟩
  obtain ⟨f, hf, hfs⟩ := he.steps
  have hc : Step.stepOrder ∘ f = Step.stepOrder := funext fun s => (hfs s).1
  rw [hords, hf, List.map_map, hc]

theorem tame_act {P : World → Prop} {s : Stmt} {next : Reply s → Db Unit} (hs : Tame s)
    (Q : Reply s → World → Prop) (hQ : ∀ x, P x → Q (exec i s x).1 (exec i s x).2)
    (hS : ∀ r t, discipline.Stable elapse i t (Q r))
    (hO : ∀ r, discipline.Outline exec elapse i (issued ++ [s]) (Q r) (next r)) :
    discipline.Outline exec elapse i issued P (.act s next) := by
  refine .act Q ?_ (fun r => hS r _) hO
  intro x hx hP _
  obtain ⟨hsound, hclimbs⟩ := exec_tame i hs hx
  exact ⟨hsound, ⟨exec_evolves i hs.proper x, hclimbs⟩, hQ x hP⟩

theorem any_act {P : World → Prop} {s : Stmt} {next : Reply s → Db Unit} (hs : Tame s)
    (hO : ∀ r, discipline.Outline exec elapse i (issued ++ [s]) (fun _ => True) (next r)) :
    discipline.Outline exec elapse i issued P (.act s next) :=
  tame_act hs (fun _ _ => True) (fun _ _ => trivial) (fun _ t => Discipline.stable_true i t) hO

theorem tame_only {P : World → Prop} {p : Db Unit} (hp : p.Only Tame) :
    discipline.Outline exec elapse i issued P p := by
  refine .of_only hp fun s hs x hx _ => ?_
  obtain ⟨hsound, hclimbs⟩ := exec_tame i hs hx
  exact ⟨hsound, exec_evolves i hs.proper x, hclimbs⟩

theorem settling_tame {s : Stmt} (h : Settling s) : Tame s := by
  cases s <;> first | exact h | trivial

/-- The winner of a hand-over opens the step that the request has reached. -/
theorem afterMove_outline (site : Site) (status : Status) (next : Nat) {f : Unit → Db Unit}
    (hf : (f ()).Only Tame) :
    discipline.Outline exec elapse i issued (fun w => status = .pending → Reached next w)
      ((afterMove lease site status next).bind f) := by
  have hsettle : ((Store.get >>= settleHooks lease site).bind f).Only Tame :=
    (Only.mono (get_only.bind fun loaded => settleHooks_only lease site loaded)
      fun _ => settling_tame).bind fun _ => hf
  cases status with
  | canceled => exact tame_only hf
  | approved => exact tame_only hsettle
  | rejected => exact tame_only ⟨trivial, fun _ => hsettle⟩
  | pending =>
    refine .act (fun _ _ => True) ?_ (fun _ => Discipline.stable_true i _) fun _ => tame_only hf
    intro x hx hreached _
    refine ⟨⟨?_, hx.decidedAt, fun hp => (hx.opened hp).openStep (hreached rfl hp)⟩,
      ⟨exec_evolves i (s := .openStep next) trivial x, Climbs.refl x⟩, trivial⟩
    exact hx.numbered.map _ fun s => by split <;> rfl

/-- The move that `advance` computed from steps read before. -/
theorem moveOn_outline (site : Site) (order : Nat) (fresh : List Step) (now : Option Time)
    {f : Unit → Db Unit} (hf : (f ()).Only Tame) :
    discipline.Outline exec elapse i issued (Approved order fresh)
      ((moveOn lease site order (Engine.advance fresh order now)).bind f) := by
  unfold moveOn
  split
  · rename_i hmoves
    refine .act (fun won w => won = true → (Engine.advance fresh order now).1 = .pending →
      Reached (Engine.advance fresh order now).2.1 w) ?_ ?_ fun won => ?_
    · intro x hx ⟨hords, happ⟩ _
      have he := exec_evolves i (s := .moveRequest (Engine.advance fresh order now).1
        (Engine.advance fresh order now).2.1 (Engine.advance fresh order now).2.2 order) trivial x
      simp only [exec] at he ⊢
      split
      · rename_i hseen
        rw [if_pos hseen] at he
        by_cases hp : (Engine.advance fresh order now).1 = .pending
        · obtain ⟨hdec, hnxt, hdone⟩ := advance_next hp (hmoves.resolve_left (not_not.mpr hp))
          rw [hords] at hnxt
          have hopen : Open (Engine.advance fresh order now).2.1 x.steps := by
            refine Open.next ?_ hx.numbered hnxt (happ hdone)
            exact hseen.2 ▸ hx.opened hseen.1
          refine ⟨⟨hx.numbered, fun _ => hdec, fun _ => hopen⟩, ⟨he, fun _ => ?_⟩, fun _ _ _ => le_refl _⟩
          have hgt := ((leastAbove_eq_some _ _ _).mp hnxt).2.1
          rw [hseen.2]
          exact hgt.le
        · exact ⟨⟨hx.numbered, fun h => absurd h hp, fun h => absurd h hp⟩,
            ⟨he, fun h => absurd h hp⟩, fun _ h => absurd h hp⟩
      · rename_i hseen
        rw [if_neg hseen] at he
        exact ⟨hx, ⟨he, Climbs.refl x⟩, by simp⟩
    · intro won x y h hx hwon hp
      exact stable_reached _ _ x y h (hx hwon hp)
    · cases won with
      | false => exact tame_only hf
      | true =>
        change discipline.Outline exec elapse i _ _ ((afterMove lease site
          (Engine.advance fresh order now).1 (Engine.advance fresh order now).2.1).bind f)
        exact (afterMove_outline site _ _ hf).weaken fun w hw => hw rfl
  · exact tame_only hf

theorem decide_outline (site : Site) (actorId : Int) (action : Engine.Action) (note : String)
    (followupArgs : Bool) (P : World → Prop) :
    discipline.Outline exec elapse i issued P
      (Store.decide lease site actorId action note followupArgs).void := by
  refine any_act trivial fun request => any_act trivial fun steps => any_act trivial fun blocks => ?_
  cases followupArgs with
  | true => trivial
  | false =>
    refine any_act trivial fun now => any_act trivial fun blocks => ?_
    change discipline.Outline exec elapse i _ _ (Prog.void (do
      let _ ← Prog.lift (Engine.decide request steps actorId action note (some now) blocks)
      let won ← stmt (.actStep (stepStatusOf action) now (Engine.clipNote note) actorId)
      if !won then .raise ⟨"이미 처리한 결재입니다"⟩
      else
        let fresh ← Store.get
        let _ ← moveOn lease site (Engine.currentOf request)
          (Engine.advance fresh.steps (Engine.currentOf request) (some now))
        Store.get : Db Ledger))
    cases Engine.decide request steps actorId action note (some now) blocks with
    | error e => trivial
    | ok p =>
      refine any_act (by cases action <;> simp [Tame, Proper, stepStatusOf]) fun won => ?_
      cases won with
      | false => trivial
      | true =>
        refine any_act trivial fun request' => ?_
        refine tame_act trivial (Approved (Engine.currentOf request)) (fun x _ => ⟨rfl, fun h => h⟩)
          (stable_approved _) fun fresh => ?_
        refine tame_act trivial (fun _ => Approved (Engine.currentOf request) fresh) (fun x hx => hx)
          (fun _ => stable_approved _ fresh) fun blocks' => ?_
        change discipline.Outline exec elapse i _ _
          (((moveOn lease site (Engine.currentOf request)
            (Engine.advance fresh (Engine.currentOf request) (some now))).bind fun _ => Store.get).bind
              fun _ => .done ())
        rw [Prog.bind_assoc]
        exact moveOn_outline site _ _ _ (Only.mono get_only fun _ => settling_tame).void

theorem program_outline (call : Race.Call) :
    discipline.Outline exec elapse i [] (fun _ => True) (call.program lease) := by
  cases call with
  | decide site actorId action note followupArgs => exact decide_outline site actorId action note _ _
  | cancel site actorId =>
    refine tame_only (Only.mono (cancel_only lease site actorId).void fun s h => ?_)
    cases s <;> first | exact h | trivial
  | systemCancel site note =>
    refine tame_only (Only.mono (systemCancel_only lease site note).void fun s h => ?_)
    cases s <;> first | exact h | trivial
  | settle site => exact tame_only (Only.mono (settle_only lease site).void fun _ => settling_tame)
  | finish site decidedOnly =>
    exact tame_only (Only.mono (finishSnapshot_only lease site decidedOnly) fun _ => settling_tame)
  | fillBlock tables blockId actorId data =>
    refine tame_only (Only.mono (fillBlock_only tables blockId actorId data).void fun s h => ?_)
    cases s <;> first | exact h | trivial

end Outlines

theorem Fresh.sound {w : World} (h : Fresh w) : Sound w := by
  obtain ⟨hn, hturn, hcur⟩ := h.turn
  exact ⟨hn, fun _ => h.decidedAt, fun _ => hcur ▸ Open.of_inTurn hturn⟩

/-- Every state of every run is sound. -/
theorem after_sound (lease : Time) (calls : Nat → Race.Call) {w : World} (hw : Fresh w)
    (ms : Schedule) : Sound (after lease calls w ms) := by
  have hstart : discipline.Holds exec elapse (start lease calls w) :=
    ⟨Fresh.sound hw, fun i => ⟨fun _ => True, trivial, Discipline.stable_true i _,
      program_outline (calls i)⟩⟩
  have hlegal : Legal exec elapse (discipline.Fair exec elapse) (start lease calls w) ms :=
    Legal.of_forall exec elapse (fun _ _ => ⟨trivial, fun _ _ => trivial⟩) _ _
  refine (hstart.play ?_ hlegal).1
  exact fun x d hx _ => hx.of_steps rfl fun hp => ⟨hp, rfl, rfl⟩

end XgenSdk.Turn
