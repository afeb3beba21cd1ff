import XgenSdk.Approval.Engine

/-! The shapes a request can have: statuses read off the order of the steps,
and what one decision or cancellation does to them. -/
namespace XgenSdk.Shape
open XgenSdk.Models XgenSdk.Engine XgenSdk.FirstMatch

/-- Steps numbered `1..n` in this order. -/
def Numbered (steps : List Step) : Prop :=
  steps.map Step.stepOrder = List.range' 1 steps.length

/-- Statuses before, at and after order `k`. -/
def around (low mid high : StepStatus) (k order : Nat) : StepStatus :=
  if order < k then low else if order = k then mid else high

/-- Every step has the status its order prescribes. -/
def Follows (f : Nat → StepStatus) (steps : List Step) : Prop :=
  ∀ s ∈ steps, s.status = f s.stepOrder

/-- The step at `k` is pending, those before are approved, those after wait. -/
def InTurn (k : Nat) (steps : List Step) : Prop :=
  (∃ s ∈ steps, s.stepOrder = k) ∧ Follows (around .approved .pending .waiting k) steps

/-- The step at `k` was rejected, those before approved, those after skipped. -/
def RejectedAt (k : Nat) (steps : List Step) : Prop :=
  (∃ s ∈ steps, s.stepOrder = k) ∧ Follows (around .approved .rejected .skipped k) steps

def Shaped (request : Request) (steps : List Step) : Prop :=
  match request.status with
  | .pending => InTurn request.currentStepOrder steps
  | .approved => ∀ s ∈ steps, s.status = .approved
  | .rejected => ∃ k, RejectedAt k steps
  | .canceled => ∀ s ∈ steps, s.status = .skipped

/-! Numbered lines. -/

theorem Numbered.mem_order {steps : List Step} (h : Numbered steps) (k : Nat) :
    (∃ s ∈ steps, s.stepOrder = k) ↔ 1 ≤ k ∧ k ≤ steps.length := by
  have hm : k ∈ steps.map Step.stepOrder ↔ 1 ≤ k ∧ k < 1 + steps.length := by
    rw [h, List.mem_range'_1]
  rw [List.mem_map] at hm
  rw [hm]
  omega

theorem Numbered.eq_of_order {steps : List Step} (h : Numbered steps) {s t : Step}
    (hs : s ∈ steps) (ht : t ∈ steps) (he : s.stepOrder = t.stepOrder) : s = t := by
  have hn : (steps.map Step.stepOrder).Nodup := by
    rw [h]
    exact List.nodup_range'
  exact List.inj_on_of_nodup_map hn hs ht he

theorem Numbered.map {steps : List Step} (h : Numbered steps) (f : Step → Step)
    (hf : ∀ s, (f s).stepOrder = s.stepOrder) : Numbered (steps.map f) := by
  have hc : Step.stepOrder ∘ f = Step.stepOrder := funext hf
  rw [Numbered, List.map_map, hc, List.length_map]
  exact h

/-- Orders above `k` start right after it. -/
theorem Numbered.leastAbove {steps : List Step} (h : Numbered steps) (k : Nat) (hk : 1 ≤ k) :
    leastAbove k (steps.map Step.stepOrder) = if k < steps.length then some (k+1) else none := by
  rw [h]
  split
  · rename_i hlt
    rw [leastAbove_eq_some, List.mem_range'_1]
    exact ⟨by omega, by omega, fun n _ hn => hn⟩
  · rw [leastAbove_eq_none]
    intro n hn
    rw [List.mem_range'_1] at hn
    omega

/-! Building a line. -/

theorem collect_length {β : Type} (read : ApproverField → Option β) (person : β → Option Int)
    (specs : List Spec) (idx : Nat) (seen : List Int) (es : List (Entry β))
    (h : collect read person idx seen specs = .ok es) : es.length = specs.length := by
  induction specs generalizing idx seen es with
  | nil => simp_all [collect]
  | cons raw rest ih =>
    simp only [collect] at h
    split at h
    · cases h
    · rename_i approver _
      split at h
      · cases h
      · cases hr : collect read person (idx+1) ((person approver).toList ++ seen) rest with
        | error e => simp [hr] at h
        | ok tail =>
          simp only [hr, Except.ok.injEq] at h
          subst h
          simp [ih _ _ _ hr]

/-- Approvers already seen are not met again, and nobody twice. -/
theorem collect_distinct {β : Type} (read : ApproverField → Option β) (person : β → Option Int)
    (specs : List Spec) (idx : Nat) (seen : List Int) (es : List (Entry β))
    (h : collect read person idx seen specs = .ok es) :
    (es.filterMap fun e => person e.approver).Nodup ∧
      ∀ a ∈ es.filterMap (fun e => person e.approver), a ∉ seen := by
  induction specs generalizing idx seen es with
  | nil => simp_all [collect]
  | cons raw rest ih =>
    simp only [collect] at h
    split at h
    · cases h
    · rename_i approver _
      split at h
      · cases h
      · rename_i hnew
        cases hr : collect read person (idx+1) ((person approver).toList ++ seen) rest with
        | error e => simp [hr] at h
        | ok tail =>
          simp only [hr, Except.ok.injEq] at h
          subst h
          obtain ⟨hnd, hns⟩ := ih _ _ _ hr
          cases hp : person approver with
          | none =>
            simp only [hp, Option.toList_none, List.nil_append] at hns
            simp only [List.filterMap_cons, hp]
            exact ⟨hnd, hns⟩
          | some a =>
            simp only [hp, Option.toList_some, List.cons_append, List.nil_append,
              List.mem_cons, not_or] at hns
            simp only [hp, Option.any_some, List.contains_eq_mem, decide_eq_true_eq] at hnew
            simp only [List.filterMap_cons, hp, List.nodup_cons, List.mem_cons, forall_eq_or_imp]
            exact ⟨⟨fun ha => (hns a ha).1 rfl, hnd⟩, hnew, fun b hb => (hns b hb).2⟩

theorem lineUp_orders {β γ : Type} (make : β → Nat → γ) (order : γ → Nat)
    (hmake : ∀ b n, order (make b n) = n) (es : List (Entry β)) :
    (lineUp make es).map order = List.range' 1 es.length := by
  rw [lineUp, List.map_map, List.zipIdx_eq_zip_range']
  have hc : (order ∘ fun e : Entry β × Nat => make e.1.approver e.2) = Prod.snd := by
    funext e
    exact hmake e.1.approver e.2
  rw [hc, List.map_snd_zip (by simp), List.length_insertionSort]

theorem lineUp_length {β γ : Type} (make : β → Nat → γ) (es : List (Entry β)) :
    (lineUp make es).length = es.length := by
  simp [lineUp, List.length_insertionSort]

theorem lineUp_approvers {β γ : Type} (make : β → Nat → γ) (approver : γ → β)
    (hmake : ∀ b n, approver (make b n) = b) (es : List (Entry β)) :
    ((lineUp make es).map approver).Perm (es.map Entry.approver) := by
  rw [lineUp, List.map_map, List.zipIdx_eq_zip_range']
  have hc : (approver ∘ fun e : Entry β × Nat => make e.1.approver e.2) =
      Entry.approver ∘ Prod.fst := by
    funext e
    exact hmake e.1.approver e.2
  rw [hc, ← List.map_map, List.map_fst_zip (by simp)]
  exact (List.perm_insertionSort _ es).map _

/-- What `planSteps` accepts: a non-empty line numbered from 1, nobody twice. -/
theorem planSteps_ok {specs : List Spec} {planned : List Planned}
    (h : planSteps specs = .ok planned) :
    planned.map Planned.stepOrder = List.range' 1 planned.length ∧
      planned.length = specs.length ∧ planned ≠ [] ∧ (planned.map Planned.approverId).Nodup := by
  unfold planSteps at h
  split at h
  · cases h
  · rename_i hne
    cases hc : collect readPerson some 0 [] specs with
    | error e => simp [hc] at h
    | ok es =>
      simp only [hc, Except.ok.injEq] at h
      subst h
      have hlen := collect_length _ _ _ _ _ _ hc
      have hl := lineUp_length Planned.mk es
      have hdist := (collect_distinct _ _ _ _ _ _ hc).1
      change (es.filterMap (some ∘ Entry.approver)).Nodup at hdist
      rw [List.filterMap_eq_map] at hdist
      refine ⟨?_, by rw [hl, hlen], ?_, ?_⟩
      · rw [hl]
        exact lineUp_orders Planned.mk Planned.stepOrder (fun _ _ => rfl) es
      · intro hnil
        rw [hnil, List.length_nil] at hl
        rw [← hl] at hlen
        exact hne (by simp [List.length_eq_zero_iff.mp hlen.symm])
      · exact (lineUp_approvers Planned.mk Planned.approverId (fun _ _ => rfl) es).nodup_iff.mpr hdist

theorem min?_range' (n : Nat) (hn : 1 ≤ n) : (List.range' 1 n).min? = some 1 := by
  rw [List.min?_eq_some_iff]
  simp only [List.mem_range'_1]
  exact ⟨by omega, fun b hb => hb.1⟩

/-- A planned line opens with its first step pending. -/
theorem openSteps_ok {specs : List Spec} {planned : List Planned} {steps : List Step}
    (hp : planSteps specs = .ok planned) (ho : openSteps planned = .ok steps) :
    Numbered steps ∧ InTurn 1 steps ∧ steps.length = planned.length ∧
      steps.map Step.approverId = planned.map Planned.approverId ∧
      ∀ s ∈ steps, s.segmentOrder = 1 ∧ s.actedAt = none ∧ s.note = none := by
  obtain ⟨hord, _, hne, _⟩ := planSteps_ok hp
  have hlen : 1 ≤ planned.length := List.length_pos_iff.mpr hne
  unfold openSteps at ho
  rw [hord, min?_range' _ hlen] at ho
  simp only [Except.ok.injEq] at ho
  subst ho
  have hnum : Numbered (planned.map fun s : Planned =>
      ({ stepOrder := s.stepOrder, approverId := s.approverId,
         status := if s.stepOrder = 1 then .pending else .waiting } : Step)) := by
    rw [Numbered, List.map_map, List.length_map]
    exact hord
  refine ⟨hnum, ⟨(hnum.mem_order 1).mpr (by simpa using hlen), ?_⟩, by simp, by simp, ?_⟩
  · intro s hs
    obtain ⟨q, hq, rfl⟩ := List.mem_map.mp hs
    have hge : q.stepOrder ∈ List.range' 1 planned.length := by
      rw [← hord]
      exact List.mem_map_of_mem hq
    rw [List.mem_range'_1] at hge
    have hlt : ¬ q.stepOrder < 1 := by omega
    simp only [around, hlt, if_false]
  · intro s hs
    obtain ⟨q, _, rfl⟩ := List.mem_map.mp hs
    simp

/-! One decision. -/

/-- A step whose status is pending is the one in turn. -/
theorem InTurn.order_eq {k : Nat} {steps : List Step} (h : InTurn k steps) {s : Step}
    (hs : s ∈ steps) (hp : s.status = .pending) : s.stepOrder = k := by
  have hf := h.2 s hs
  simp only [around] at hf
  split at hf
  · rw [hp] at hf; cases hf
  · split at hf
    · assumption
    · rw [hp] at hf; cases hf

/-- The step in turn is the only pending one, so editing the first pending
step of its approver edits exactly the order in turn. -/
theorem InTurn.modifyFirst_pending {k : Nat} {steps : List Step} (h : InTurn k steps)
    (hn : Numbered steps) {actorId : Int} {mine : Step} (hm : mine ∈ steps)
    (hp : pendingOf actorId mine = true) (f : Step → Step) :
    modifyFirst (pendingOf actorId) f steps =
      steps.map fun s => if s.stepOrder = k then f s else s := by
  have hmine : mine.stepOrder = k := by
    refine h.order_eq hm ?_
    simp only [pendingOf, Bool.and_eq_true, decide_eq_true_eq] at hp
    exact hp.2
  have huniq : ∀ s ∈ steps, (pendingOf actorId s = true ↔ s.stepOrder = k) := by
    intro s hs
    constructor
    · intro hps
      simp only [pendingOf, Bool.and_eq_true, decide_eq_true_eq] at hps
      exact h.order_eq hs hps.2
    · intro hk
      rw [hn.eq_of_order hs hm (hk.trans hmine.symm)]
      exact hp
  rw [modifyFirst_eq_map]
  · refine List.map_congr_left fun s hs => ?_
    by_cases hk : s.stepOrder = k
    · simp [hk, (huniq s hs).mpr hk]
    · have hns : pendingOf actorId s = false := by
        rw [Bool.eq_false_iff]
        exact fun hps => hk ((huniq s hs).mp hps)
      simp [hk, hns]
  · have hnd : (steps.map Step.stepOrder).Pairwise (· ≠ ·) := by
      rw [hn]
      exact List.nodup_range'
    rw [List.pairwise_map] at hnd
    refine hnd.imp_of_mem ?_
    intro a b ha hb hab hboth
    exact hab (((huniq a ha).mp hboth.1).trans ((huniq b hb).mp hboth.2).symm)

/-- Whatever `decide` accepts: the request is open, the actor holds a pending
step, and the result is a rejection, a final approval or a hand-over. -/
theorem decide_ok {request request' : Request} {steps steps' : List Step} {actorId : Int}
    {action : Action} {note : String} {now : Option Time} {blocks : List Block}
    (h : Engine.decide request steps actorId action note now blocks = .ok (request', steps')) :
    request.status = .pending ∧ ∃ mine ∈ steps, pendingOf actorId mine = true ∧
      ((action = .rejected ∧ request' = { request with status := .rejected, decidedAt := now } ∧
          steps' = skipOpen (modifyFirst (pendingOf actorId) (act .rejected now note) steps)) ∨
       (action = .approved ∧ Blocks.unfilledUpto blocks mine.stepOrder = [] ∧
          leastAbove (currentOf request) (steps.map Step.stepOrder) = none ∧
          request' = { request with status := .approved, decidedAt := now } ∧
          steps' = modifyFirst (pendingOf actorId) (act .approved now note) steps) ∨
       (action = .approved ∧ Blocks.unfilledUpto blocks mine.stepOrder = [] ∧ ∃ nxt,
          leastAbove (currentOf request) (steps.map Step.stepOrder) = some nxt ∧
          request' = { request with currentStepOrder := nxt } ∧
          steps' = openAt nxt (modifyFirst (pendingOf actorId) (act .approved now note) steps))) := by
  unfold Engine.decide at h
  split at h
  · cases h
  split at h
  · cases h
  rename_i hact hterm
  have hopen : request.status = .pending := by simpa [terminal] using hterm
  cases hf : steps.find? (pendingOf actorId) with
  | none =>
    -- the actor has no pending step: whatever `stepOf` finds is refused
    simp only [stepOf, hf, Option.none_or] at h
    split at h
    · cases h
    rename_i mine hmine
    have hnp : mine.status ≠ .pending := by
      intro hp
      have hmem := List.mem_of_find?_eq_some hmine
      have hno := List.find?_eq_none.mp hf mine hmem
      have hact := List.find?_some hmine
      simp_all [pendingOf, stepOfActor]
    split at h <;> cases h
  | some mine =>
    have hmem := List.mem_of_find?_eq_some hf
    have hpend : pendingOf actorId mine = true := List.find?_some hf
    have hst : mine.status = .pending := by
      simp only [pendingOf, Bool.and_eq_true, decide_eq_true_eq] at hpend
      exact hpend.2
    have hany : steps.any (pendingOf actorId) = true := List.any_eq_true.mpr ⟨mine, hmem, hpend⟩
    have hord (st : StepStatus) :
        (modifyFirst (pendingOf actorId) (act st now note) steps).map Step.stepOrder =
          steps.map Step.stepOrder := map_modifyFirst _ _ _ _ fun _ _ => rfl
    refine ⟨hopen, mine, hmem, hpend, ?_⟩
    simp only [stepOf, hf, Option.some_or, hst, reduceCtorEq, or_self, if_false, ne_eq,
      not_true_eq_false, editStepOf, hany, if_true, hord] at h
    split at h
    · cases h
    rename_i hfill
    split at h
    · rename_i hrej
      simp only [Except.ok.injEq, Prod.mk.injEq] at h
      exact .inl ⟨hrej, h.1.symm, h.2.symm⟩
    · rename_i hrej
      have happ : action = .approved := by
        by_contra hna
        exact hact ⟨hna, hrej⟩
      have hnil : Blocks.unfilledUpto blocks mine.stepOrder = [] := by
        simpa [happ] using hfill
      split at h
      · rename_i hl
        simp only [Except.ok.injEq, Prod.mk.injEq] at h
        exact .inr (.inl ⟨happ, hnil, hl, h.1.symm, h.2.symm⟩)
      · rename_i nxt hl
        simp only [Except.ok.injEq, Prod.mk.injEq] at h
        exact .inr (.inr ⟨happ, hnil, nxt, hl, h.1.symm, h.2.symm⟩)

/-! Statuses and numbering after each outcome. -/

theorem mem_map_iff_of_order {steps : List Step} {f : Step → Step}
    (hf : ∀ s, (f s).stepOrder = s.stepOrder) (k : Nat) :
    (∃ s ∈ steps.map f, s.stepOrder = k) ↔ ∃ s ∈ steps, s.stepOrder = k := by
  constructor
  · rintro ⟨s, hs, hk⟩
    obtain ⟨t, ht, rfl⟩ := List.mem_map.mp hs
    exact ⟨t, ht, (hf t).symm.trans hk⟩
  · rintro ⟨t, ht, hk⟩
    exact ⟨f t, List.mem_map_of_mem ht, (hf t).trans hk⟩

/-- Editing every step keeps orders and turns status law `g` into `g'`. -/
theorem Follows.map {g g' : Nat → StepStatus} {steps : List Step} (h : Follows g steps)
    {f : Step → Step} (hf : ∀ s, (f s).stepOrder = s.stepOrder)
    (hg : ∀ s ∈ steps, s.status = g s.stepOrder → (f s).status = g' s.stepOrder) :
    Follows g' (steps.map f) := by
  intro s hs
  obtain ⟨t, ht, rfl⟩ := List.mem_map.mp hs
  rw [hf t]
  exact hg t ht (h t ht)

theorem skipOpen_order (s : Step) :
    (if s.status = .waiting ∨ s.status = .pending then { s with status := .skipped }
      else s).stepOrder = s.stepOrder := by
  split <;> rfl

theorem Numbered.skipOpen {steps : List Step} (h : Numbered steps) : Numbered (skipOpen steps) :=
  h.map _ skipOpen_order

theorem Numbered.openAt {steps : List Step} (h : Numbered steps) (k : Nat) :
    Numbered (openAt k steps) :=
  h.map _ fun s => by split <;> rfl

/-- Acting on the order `k` only. -/
def actAt (k : Nat) (status : StepStatus) (now : Option Time) (note : String)
    (steps : List Step) : List Step :=
  steps.map fun s => if s.stepOrder = k then act status now note s else s

theorem actAt_order (k : Nat) (status : StepStatus) (now : Option Time) (note : String)
    (s : Step) : (if s.stepOrder = k then act status now note s else s).stepOrder = s.stepOrder := by
  split <;> rfl

theorem Numbered.actAt {steps : List Step} (h : Numbered steps) (k : Nat) (status : StepStatus)
    (now : Option Time) (note : String) : Numbered (actAt k status now note steps) :=
  h.map _ (actAt_order k status now note)

/-- A rejection in turn leaves the rejected step between approved and skipped ones. -/
theorem InTurn.reject {k : Nat} {steps : List Step} (h : InTurn k steps)
    (now : Option Time) (note : String) :
    RejectedAt k (skipOpen (actAt k .rejected now note steps)) := by
  refine ⟨?_, ?_⟩
  · rw [Engine.skipOpen, mem_map_iff_of_order skipOpen_order, actAt,
      mem_map_iff_of_order (actAt_order k .rejected now note)]
    exact h.1
  · have hmid : Follows (around .approved .rejected .waiting k) (actAt k .rejected now note steps) :=
      h.2.map (actAt_order k .rejected now note) fun s _ hs => by
        simp only [around] at hs ⊢
        split <;> rename_i hk
        · simp [act, hk]
        · simpa [hk] using hs
    refine hmid.map skipOpen_order fun s _ hs => ?_
    simp only [around] at hs ⊢
    split at hs
    · simp_all
    · split at hs <;> simp_all

/-- Approving in turn on the last step approves every step. -/
theorem InTurn.approve_last {k : Nat} {steps : List Step} (h : InTurn k steps)
    (hlast : ∀ s ∈ steps, s.stepOrder ≤ k) (now : Option Time) (note : String) :
    ∀ s ∈ actAt k .approved now note steps, s.status = .approved := by
  have hf : Follows (fun _ => .approved) (actAt k .approved now note steps) := by
    refine h.2.map (actAt_order k .approved now note) fun s hs hst => ?_
    split <;> rename_i hk
    · rfl
    · have hlt : s.stepOrder < k := by
        have := hlast s hs
        omega
      simpa [around, hlt] using hst
  exact hf

/-- Approving in turn before the last step hands over to the next order. -/
theorem InTurn.approve_next {k : Nat} {steps : List Step} (h : InTurn k steps)
    (hnext : ∃ s ∈ steps, s.stepOrder = k+1) (now : Option Time) (note : String) :
    InTurn (k+1) (openAt (k+1) (actAt k .approved now note steps)) := by
  have hopen (s : Step) :
      (if s.stepOrder = k+1 then { s with status := .pending } else s).stepOrder = s.stepOrder := by
    split <;> rfl
  refine ⟨?_, ?_⟩
  · rw [openAt, mem_map_iff_of_order hopen, actAt,
      mem_map_iff_of_order (actAt_order k .approved now note)]
    exact hnext
  · have hmid : Follows (around .approved .approved .waiting k) (actAt k .approved now note steps) :=
      h.2.map (actAt_order k .approved now note) fun s _ hs => by
        simp only [around] at hs ⊢
        split <;> rename_i hk
        · simp [act, hk]
        · simpa [hk] using hs
    refine hmid.map hopen fun s _ hs => ?_
    simp only [around] at hs ⊢
    split <;> rename_i hk
    · simp [hk]
    · split at hs <;> rename_i h1
      · have h2 : s.stepOrder < k+1 := by omega
        simpa [h2] using hs
      · split at hs <;> rename_i h3
        · have h2 : s.stepOrder < k+1 := by omega
          simpa [h2] using hs
        · have h2 : ¬ s.stepOrder < k+1 := by omega
          simpa [h2, hk] using hs

/-- What `decide` accepts in turn, and what becomes of the steps. -/
theorem decide_inTurn {request request' : Request} {steps steps' : List Step} {actorId : Int}
    {action : Action} {note : String} {now : Option Time} {blocks : List Block}
    (hn : Numbered steps) (hturn : InTurn request.currentStepOrder steps)
    (h : Engine.decide request steps actorId action note now blocks = .ok (request', steps')) :
    request.status = .pending ∧
      ((action = .rejected ∧ request' = { request with status := .rejected, decidedAt := now } ∧
          steps' = skipOpen (actAt request.currentStepOrder .rejected now note steps)) ∨
       (action = .approved ∧ Blocks.unfilledUpto blocks request.currentStepOrder = [] ∧
          request.currentStepOrder = steps.length ∧
          request' = { request with status := .approved, decidedAt := now } ∧
          steps' = actAt request.currentStepOrder .approved now note steps) ∨
       (action = .approved ∧ Blocks.unfilledUpto blocks request.currentStepOrder = [] ∧
          request.currentStepOrder < steps.length ∧
          request' = { request with currentStepOrder := request.currentStepOrder + 1 } ∧
          steps' = openAt (request.currentStepOrder + 1)
            (actAt request.currentStepOrder .approved now note steps))) := by
  obtain ⟨hopen, mine, hmem, hpend, hcase⟩ := decide_ok h
  have hk := (hn.mem_order _).mp hturn.1
  have hcur : currentOf request = request.currentStepOrder := by
    rw [currentOf, if_neg (by omega)]
  have hmark (st : StepStatus) :
      modifyFirst (pendingOf actorId) (act st now note) steps =
        actAt request.currentStepOrder st now note steps :=
    hturn.modifyFirst_pending hn hmem hpend _
  have hmine : mine.stepOrder = request.currentStepOrder := by
    rw [pendingOf, Bool.and_eq_true, decide_eq_true_eq, decide_eq_true_eq] at hpend
    exact hturn.order_eq hmem hpend.2
  simp only [hmark, hcur, hmine, hn.leastAbove _ hk.1] at hcase
  refine ⟨hopen, ?_⟩
  obtain hrej | ⟨happ, hfill, hlast, hreq, hsteps⟩ | ⟨happ, hfill, nxt, hnxt, hreq, hsteps⟩ := hcase
  · exact .inl hrej
  · split at hlast
    · cases hlast
    · exact .inr (.inl ⟨happ, hfill, by omega, hreq, hsteps⟩)
  · split at hnxt
    · rename_i hlt
      cases hnxt
      exact .inr (.inr ⟨happ, hfill, hlt, hreq, hsteps⟩)
    · cases hnxt

/-- A decision keeps the shape. -/
theorem decide_shaped {request request' : Request} {steps steps' : List Step} {actorId : Int}
    {action : Action} {note : String} {now : Option Time} {blocks : List Block}
    (hn : Numbered steps) (hs : Shaped request steps)
    (h : Engine.decide request steps actorId action note now blocks = .ok (request', steps')) :
    Numbered steps' ∧ Shaped request' steps' := by
  have hopen := (decide_ok h).1
  have hturn : InTurn request.currentStepOrder steps := by simpa [Shaped, hopen] using hs
  obtain ⟨_, ⟨_, rfl, rfl⟩ | ⟨_, _, hlast, rfl, rfl⟩ | ⟨_, _, hlt, rfl, rfl⟩⟩ :=
    decide_inTurn hn hturn h
  · exact ⟨(hn.actAt _ _ _ _).skipOpen, ⟨_, hturn.reject now note⟩⟩
  · refine ⟨hn.actAt _ _ _ _, hturn.approve_last ?_ now note⟩
    intro s hs
    rw [hlast]
    exact ((hn.mem_order s.stepOrder).mp ⟨s, hs, rfl⟩).2
  · have hnext := (hn.mem_order (request.currentStepOrder+1)).mpr (by omega)
    refine ⟨(hn.actAt _ _ _ _).openAt _, ?_⟩
    simpa [Shaped, hopen] using hturn.approve_next hnext now note

theorem cancel_ok {request request' : Request} {steps steps' : List Step} {actorId : Int}
    {now : Option Time} (h : Engine.cancel request steps actorId now = .ok (request', steps')) :
    request.requesterId.getD 0 = actorId ∧ request.status = .pending ∧
      (∀ s ∈ steps, s.status ≠ .approved) ∧
      request' = { request with status := .canceled, decidedAt := now } ∧
      steps' = Engine.skipOpen steps := by
  unfold Engine.cancel at h
  split at h
  · cases h
  split at h
  · cases h
  split at h
  · cases h
  rename_i hreq hterm hnone
  simp only [Except.ok.injEq, Prod.mk.injEq] at h
  refine ⟨by simpa using hreq, by simpa [terminal] using hterm, ?_, h.1.symm, h.2.symm⟩
  simpa using hnone

/-- A cancellation in turn skips every step: nobody approved before. -/
theorem cancel_shaped {request request' : Request} {steps steps' : List Step} {actorId : Int}
    {now : Option Time} (hn : Numbered steps) (hs : Shaped request steps)
    (h : Engine.cancel request steps actorId now = .ok (request', steps')) :
    Numbered steps' ∧ Shaped request' steps' := by
  obtain ⟨_, hopen, hnone, rfl, rfl⟩ := cancel_ok h
  have hturn : InTurn request.currentStepOrder steps := by simpa [Shaped, hopen] using hs
  have hall : Follows (fun _ => .skipped) (Engine.skipOpen steps) := by
    refine hturn.2.map skipOpen_order fun s hs hst => ?_
    have hna := hnone s hs
    simp only [around] at hst
    split at hst
    · exact absurd hst hna
    · split at hst <;> simp [hst]
  exact ⟨hn.skipOpen, hall⟩

/-! Runs: every successful call's output feeds the next call. -/

inductive Call where
  | decide (actorId : Int) (action : Action) (note : String) (now : Option Time)
      (blocks : List Block)
  | cancel (actorId : Int) (now : Option Time)

def Call.apply (call : Call) (request : Request) (steps : List Step) :
    Except ApprovalError (Request × List Step) :=
  match call with
  | .decide actorId action note now blocks =>
    Engine.decide request steps actorId action note now blocks
  | .cancel actorId now => Engine.cancel request steps actorId now

def feed (state : Request × List Step) (call : Call) : Request × List Step :=
  match call.apply state.1 state.2 with
  | .ok next => next
  | .error _ => state

def run (state : Request × List Step) (calls : List Call) : Request × List Step :=
  calls.foldl feed state

theorem feed_shaped (state : Request × List Step) (call : Call)
    (hn : Numbered state.2) (hs : Shaped state.1 state.2) :
    Numbered (feed state call).2 ∧ Shaped (feed state call).1 (feed state call).2 := by
  unfold feed
  cases ha : call.apply state.1 state.2 with
  | error e => exact ⟨hn, hs⟩
  | ok next =>
    cases call with
    | decide actorId action note now blocks => exact decide_shaped hn hs ha
    | cancel actorId now => exact cancel_shaped hn hs ha

theorem run_shaped (calls : List Call) (state : Request × List Step)
    (hn : Numbered state.2) (hs : Shaped state.1 state.2) :
    Numbered (run state calls).2 ∧ Shaped (run state calls).1 (run state calls).2 := by
  induction calls generalizing state with
  | nil => exact ⟨hn, hs⟩
  | cons call calls ih =>
    obtain ⟨hn', hs'⟩ := feed_shaped state call hn hs
    exact ih (feed state call) hn' hs'

/-- A closed request takes no call. -/
theorem apply_terminal (call : Call) (request : Request) (steps : List Step)
    (h : request.status ≠ .pending) : ∃ e, call.apply request steps = .error e := by
  cases hc : call.apply request steps with
  | error e => exact ⟨e, rfl⟩
  | ok next =>
    cases call with
    | decide actorId action note now blocks => exact absurd (decide_ok hc).1 h
    | cancel actorId now => exact absurd (cancel_ok hc).2.1 h

/-- Every request opened on an accepted line keeps, through any calls, one of
the shapes of `Shaped` on steps numbered from 1; once closed, it takes none. -/
theorem opened_run_shaped (specs : List Spec) (planned : List Planned) (steps : List Step)
    (request : Request) (hp : planSteps specs = .ok planned) (ho : openSteps planned = .ok steps)
    (hstatus : request.status = .pending)
    (hfirst : (planned.map Planned.stepOrder).min? = some request.currentStepOrder)
    (calls : List Call) :
    Numbered (run (request, steps) calls).2 ∧
      Shaped (run (request, steps) calls).1 (run (request, steps) calls).2 ∧
      ((run (request, steps) calls).1.status ≠ .pending → ∀ call : Call,
        ∃ e, call.apply (run (request, steps) calls).1 (run (request, steps) calls).2 = .error e) := by
  obtain ⟨hn, hturn, hlen, _⟩ := openSteps_ok hp ho
  obtain ⟨hord, _, hne, _⟩ := planSteps_ok hp
  have hone : request.currentStepOrder = 1 := by
    rw [hord, min?_range' _ (List.length_pos_iff.mpr hne)] at hfirst
    exact (Option.some.inj hfirst).symm
  have hs : Shaped request steps := by simpa [Shaped, hstatus, hone] using hturn
  obtain ⟨hn', hs'⟩ := run_shaped calls (request, steps) hn hs
  exact ⟨hn', hs', fun hclosed call => apply_terminal call _ _ hclosed⟩

/-- The theorem at a line of two given out of order, approved, then approved again. -/
theorem opened_run_shaped_two :
    let request : Request := { id := 1, title := "t", actionType := "generic", requesterId := some 1 }
    let steps : List Step := [{ stepOrder := 1, approverId := 3, status := .pending },
      { stepOrder := 2, approverId := 2 }]
    let calls : List Call := [.decide 3 .approved "ok" (some 5) [], .decide 3 .approved "" (some 6) []]
    Numbered (run (request, steps) calls).2 ∧ Shaped (run (request, steps) calls).1 (run (request, steps) calls).2 ∧
      ((run (request, steps) calls).1.status ≠ .pending → ∀ call : Call,
        ∃ e, call.apply (run (request, steps) calls).1 (run (request, steps) calls).2 = .error e) := by
  intro request steps calls
  exact opened_run_shaped [⟨.person 2, some 9⟩, ⟨.person 3, some 4⟩] [⟨3, 1⟩, ⟨2, 2⟩] steps request
    rfl rfl rfl rfl calls

end XgenSdk.Shape
