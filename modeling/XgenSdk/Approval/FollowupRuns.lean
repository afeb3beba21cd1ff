import XgenSdk.Approval.Followup
import XgenSdk.Approval.Shape

/-! Requests with a follow-up through any calls: when the second segment comes,
what it looks like, and what never changes any more. -/
namespace XgenSdk.FollowupRuns
open XgenSdk.Models XgenSdk.Tables XgenSdk.Store XgenSdk.Shape XgenSdk.Followup

/-! Writing the steps that changed. -/

/-- Only status, time and note change. -/
def Marks (f : Step → Step) : Prop :=
  ∀ s, (f s).stepOrder = s.stepOrder ∧ (f s).approverId = s.approverId ∧
    (f s).segmentOrder = s.segmentOrder

theorem Marks.comp {f g : Step → Step} (hf : Marks f) (hg : Marks g) : Marks (f ∘ g) := fun s =>
  ⟨(hf (g s)).1.trans (hg s).1, (hf (g s)).2.1.trans (hg s).2.1, (hf (g s)).2.2.trans (hg s).2.2⟩

/-- The steps of `new` are those of `old` with other marks. -/
def Remarked (old new : List Step) : Prop := ∃ f, Marks f ∧ new = old.map f

theorem Remarked.trans {a b c : List Step} (h : Remarked a b) (h' : Remarked b c) : Remarked a c := by
  obtain ⟨f, hf, rfl⟩ := h
  obtain ⟨g, hg, rfl⟩ := h'
  exact ⟨g ∘ f, hg.comp hf, by rw [List.map_map]⟩

theorem remarked_skipOpen (steps : List Step) : Remarked steps (Engine.skipOpen steps) :=
  ⟨_, fun s => by split <;> exact ⟨rfl, rfl, rfl⟩, rfl⟩

theorem remarked_openAt (k : Nat) (steps : List Step) : Remarked steps (Engine.openAt k steps) :=
  ⟨_, fun s => by split <;> exact ⟨rfl, rfl, rfl⟩, rfl⟩

theorem remarked_actAt (k : Nat) (status : StepStatus) (now : Option Time) (note : String)
    (steps : List Step) : Remarked steps (actAt k status now note steps) :=
  ⟨_, fun s => by split <;> exact ⟨rfl, rfl, rfl⟩, rfl⟩

theorem Remarked.segments {old new : List Step} (h : Remarked old new) {law : Nat → Nat}
    (hold : ∀ s ∈ old, s.segmentOrder = law s.stepOrder) :
    ∀ s ∈ new, s.segmentOrder = law s.stepOrder := by
  obtain ⟨f, hf, rfl⟩ := h
  intro s hs
  obtain ⟨t, ht, rfl⟩ := List.mem_map.mp hs
  rw [(hf t).2.2, (hf t).1]
  exact hold t ht

theorem Remarked.length {old new : List Step} (h : Remarked old new) : new.length = old.length := by
  obtain ⟨f, _, rfl⟩ := h
  exact List.length_map f

theorem sameMark_eq {f : Step → Step} (hf : Marks f) {s : Step} (h : sameMark (f s) s = true) :
    f s = s := by
  obtain ⟨h1, h2, h3⟩ := hf s
  simp only [sameMark, Bool.and_eq_true, decide_eq_true_eq] at h
  obtain ⟨⟨hst, hat⟩, hnote⟩ := h
  generalize f s = t at h1 h2 h3 hst hat hnote
  cases s
  cases t
  simp_all

/-- The row of one order, where orders are distinct. -/
theorem find_order {old : List Step} (hn : Numbered old) {s : Step} (hs : s ∈ old) {k : Nat}
    (hk : k = s.stepOrder) : old.reverse.find? (fun t => t.stepOrder = k) = some s := by
  obtain ⟨t, ht⟩ : ∃ t, old.reverse.find? (fun t => t.stepOrder = k) = some t := by
    rw [← Option.isSome_iff_exists, List.find?_isSome]
    exact ⟨s, List.mem_reverse.mpr hs, by simp [hk]⟩
  have hto : t.stepOrder = k := by simpa using List.find?_some ht
  rw [ht, hn.eq_of_order (List.mem_reverse.mp (List.mem_of_find?_eq_some ht)) hs (hto.trans hk)]

/-- Writing a step's marks on rows that carry the marks of `g`. -/
theorem writeStep_map {old : List Step} (hn : Numbered old) {f g : Step → Step} (hf : Marks f)
    (hg : Marks g) {s : Step} (hs : s ∈ old) :
    writeStep (f s) (old.map g) = old.map fun t => if t = s then f t else g t := by
  rw [writeStep, List.map_map]
  refine List.map_congr_left fun t ht => ?_
  obtain ⟨h1, h2, h3⟩ := hf s
  obtain ⟨h4, h5, h6⟩ := hg t
  simp only [Function.comp, h1, h4]
  by_cases hts : t = s
  · subst hts
    rw [if_pos rfl, if_pos rfl]
    generalize f t = a at h1 h2 h3
    generalize g t = b at h4 h5 h6
    cases a
    cases b
    simp_all
  · rw [if_neg hts, if_neg fun he => hts (hn.eq_of_order ht hs he)]

theorem writeSteps_from {old : List Step} (hn : Numbered old) {f : Step → Step} (hf : Marks f)
    (todo : List Step) (htodo : ∀ s ∈ todo, s ∈ old) (g : Step → Step) (hg : Marks g)
    (hgf : ∀ s ∈ old, g s = s ∨ g s = f s) :
    (todo.map f).foldl (fun rows s =>
      if (old.reverse.find? fun t => t.stepOrder = s.stepOrder).any (sameMark s) then rows
      else writeStep s rows) (old.map g) = old.map fun t => if t ∈ todo then f t else g t := by
  induction todo generalizing g with
  | nil => simp
  | cons s todo ih =>
    have hs := htodo s List.mem_cons_self
    have hrest := fun t ht => htodo t (List.mem_cons_of_mem s ht)
    rw [List.map_cons, List.foldl_cons, find_order hn hs (hf s).1, Option.any_some]
    split
    · -- an unchanged step is not written
      rename_i hsame
      have hfs := sameMark_eq hf hsame
      rw [ih hrest g hg hgf]
      refine List.map_congr_left fun t _ => ?_
      by_cases hts : t = s
      · subst hts
        have hgt : g t = f t := (hgf t hs).elim (fun h => h.trans hfs.symm) fun h => h
        simp [hgt]
      · simp [hts]
    · rw [writeStep_map hn hf hg hs]
      have hg' : Marks fun t => if t = s then f t else g t := fun t => by
        by_cases hts : t = s
        · simpa only [hts, if_true] using hf s
        · simpa only [hts, if_false] using hg t
      have hgf' : ∀ t ∈ old, (if t = s then f t else g t) = t ∨ (if t = s then f t else g t) = f t := by
        intro t ht
        split
        · exact Or.inr rfl
        · exact hgf t ht
      rw [ih hrest _ hg' hgf']
      refine List.map_congr_left fun t _ => ?_
      by_cases hts : t = s
      · subst hts
        simp
      · simp [hts]

/-- Only the changed rows are written, and all rows end as they should. -/
theorem writeSteps_remarked {old new : List Step} (hn : Numbered old) (h : Remarked old new) :
    writeSteps old new = new := by
  obtain ⟨f, hf, rfl⟩ := h
  have hall := writeSteps_from hn hf old (fun _ hs => hs) id (fun _ => ⟨rfl, rfl, rfl⟩)
    fun _ _ => Or.inl rfl
  rw [List.map_id] at hall
  rw [writeSteps, hall]
  exact List.map_congr_left fun t ht => if_pos ht

/-! What holds of a request with a follow-up configuration. -/

/-- The connections that were ever made. -/
def connections (x : Dossier) : List FollowupSelection :=
  x.followups.filterMap fun
    | .connect selection => some selection
    | .finalize _ => none

/-- A request of `n` steps as it was submitted. -/
structure Submitted (config : FollowupConfig) (n : Nat) (x : Dossier) : Prop where
  configured : x.request.followupConfig = some config
  orders : x.steps.map Step.stepOrder = List.range' 1 n
  turn : InTurn 1 x.steps
  segments : ∀ s ∈ x.steps, s.segmentOrder = 1
  status : x.request.status = .pending
  current : x.request.currentStepOrder = 1
  selection : x.request.followupSelection = none
  followups : x.followups = []

/-- The segment of an order, where the first segment has `n` steps. -/
def segmentOf (n order : Nat) : Nat := if order ≤ n then 1 else 2

structure Lawful (config : FollowupConfig) (n : Nat) (x : Dossier) : Prop where
  configured : x.request.followupConfig = some config
  numbered : Numbered x.steps
  segments : ∀ s ∈ x.steps, s.segmentOrder = segmentOf n s.stepOrder
  turn : x.request.status = .pending → InTurn x.request.currentStepOrder x.steps
  approved : x.request.status = .approved → ∀ s ∈ x.steps, s.status = .approved
  recorded : connections x = x.request.followupSelection.toList
  first : x.request.followupSelection = none → x.steps.length = n
  second : ∀ c, x.request.followupSelection = some c →
    n < x.steps.length ∧ c.lineId ∈ allowedIds config ∧ c.startStepOrder = n + 1
  ended : x.request.status = .approved → canFinalize config = false →
    x.request.followupSelection ≠ none

def Completed (s : Step) : Prop := s.status ≠ .waiting ∧ s.status ≠ .pending

/-- Completed steps stay as they are. -/
def Persists (x y : Dossier) : Prop := ∀ s ∈ x.steps, Completed s → s ∈ y.steps

theorem Persists.trans {x y z : Dossier} (h : Persists x y) (h' : Persists y z) : Persists x z :=
  fun s hs hc => h' s (h s hs hc) hc

/-- The last step of the first segment is approved in this state, at this time. -/
def ApprovedLast (n : Nat) (now : Time) (x : Dossier) : Prop :=
  ∃ s ∈ x.steps, s.stepOrder = n ∧ s.status = .approved ∧ s.actedAt = some now

theorem Submitted.lawful {config : FollowupConfig} {n : Nat} {x : Dossier}
    (h : Submitted config n x) : Lawful config n x := by
  have hlen : x.steps.length = n := by
    rw [← List.length_map (f := Step.stepOrder), h.orders, List.length_range']
  have hn : Numbered x.steps := by
    rw [Numbered, hlen]
    exact h.orders
  refine ⟨h.configured, hn, ?_, fun _ => h.current ▸ h.turn, ?_, ?_, fun _ => hlen, ?_, ?_⟩
  · intro s hs
    have hle := ((hn.mem_order s.stepOrder).mp ⟨s, hs, rfl⟩).2
    rw [h.segments s hs, segmentOf, if_pos (hlen ▸ hle)]
  · intro hst
    rw [h.status] at hst
    cases hst
  · rw [h.selection, connections, h.followups]
    rfl
  · intro c hc
    rw [h.selection] at hc
    cases hc
  · intro hst
    rw [h.status] at hst
    cases hst

theorem Lawful.lastOrder {config : FollowupConfig} {n : Nat} {x : Dossier} (h : Lawful config n x) :
    lastOrder x.steps = x.steps.length := by
  rw [Followup.lastOrder, h.numbered]
  cases hl : x.steps.length with
  | zero => rfl
  | succ m =>
    have hmax : (List.range' 1 (m+1)).max? = some (m+1) := by
      rw [List.max?_eq_some_iff]
      simp only [List.mem_range'_1]
      exact ⟨by omega, fun b hb => by omega⟩
    rw [hmax, Option.getD_some]

/-- Whose turn it is when the second segment has to be chosen. -/
theorem Lawful.needs_iff {config : FollowupConfig} {n : Nat} {x : Dossier} (h : Lawful config n x) :
    needsSelection x.toLedger = true ↔ x.request.status = .pending ∧
      x.request.followupSelection = none ∧ x.request.currentStepOrder = x.steps.length := by
  have hasks : asksOf x.request = true := by
    rw [asksOf, h.configured, Option.any_some, Bool.or_eq_true]
    obtain he | hr := config.asks
    · exact Or.inl (by rw [he]; rfl)
    · exact Or.inr (by rw [hr]; rfl)
  simp only [needsSelection, hasks, h.lastOrder, Bool.and_true, Bool.and_eq_true, decide_eq_true_eq,
    Option.isNone_iff_eq_none, Bool.not_eq_true', List.isEmpty_eq_false_iff]
  constructor
  · intro ⟨⟨⟨hp, hsel⟩, _⟩, hcur⟩
    exact ⟨hp, hsel, hcur⟩
  · intro ⟨hp, hsel, hcur⟩
    refine ⟨⟨⟨hp, hsel⟩, ?_⟩, hcur⟩
    obtain ⟨s, hs, _⟩ := (h.turn hp).1
    exact List.ne_nil_of_mem hs

/-! One judgement. -/

/-- In turn, completed steps are the approved ones before the current one. -/
theorem completed_inTurn {k : Nat} {steps : List Step} (h : InTurn k steps) {s : Step}
    (hs : s ∈ steps) (hc : Completed s) : s.status = .approved ∧ s.stepOrder < k := by
  have hst := h.2 s hs
  simp only [around] at hst
  split at hst
  · exact ⟨hst, by assumption⟩
  · split at hst
    · exact absurd hst hc.2
    · exact absurd hst hc.1

/-- What an accepted decision does to the steps of a request. -/
structure Judged (setting : Setting) (d : Decision) (x : Ledger) (j : Request × List Step) : Prop where
  pending : x.request.status = .pending
  remarked : Remarked x.steps j.2
  numbered : Numbered j.2
  kept : ∀ s ∈ x.steps, Completed s → s ∈ j.2
  turn : j.1.status = .pending → InTurn j.1.currentStepOrder j.2
  approved : j.1.status = .approved → ∀ s ∈ j.2, s.status = .approved
  last : j.1.status = .approved → d.action = .approved ∧ x.request.currentStepOrder = x.steps.length
  acted : d.action = .approved → ∃ s ∈ j.2, s.stepOrder = x.request.currentStepOrder ∧
    s.status = .approved ∧ s.actedAt = some setting.now

theorem judge_ok {setting : Setting} {d : Decision} {x : Ledger} {j : Request × List Step}
    (hn : Numbered x.steps)
    (ht : x.request.status = .pending → InTurn x.request.currentStepOrder x.steps)
    (hj : judge setting d x = .ok j) : Judged setting d x j := by
  obtain ⟨request, steps⟩ := j
  have hp := (decide_ok hj).1
  have hturn := ht hp
  have hkept (status : StepStatus) : ∀ s ∈ x.steps, Completed s →
      s ∈ actAt x.request.currentStepOrder status (some setting.now) d.note x.steps := by
    intro s hs hc
    have hlt := (completed_inTurn hturn hs hc).2
    exact List.mem_map.mpr ⟨s, hs, if_neg hlt.ne⟩
  have hremarked (status : StepStatus) :=
    remarked_actAt x.request.currentStepOrder status (some setting.now) d.note x.steps
  have hacted : ∃ s ∈ actAt x.request.currentStepOrder .approved (some setting.now) d.note x.steps,
      s.stepOrder = x.request.currentStepOrder ∧ s.status = .approved ∧
        s.actedAt = some setting.now := by
    obtain ⟨s, hs, hk⟩ := hturn.1
    exact ⟨_, List.mem_map_of_mem hs, by rw [if_pos hk]; exact ⟨hk, rfl, rfl⟩⟩
  obtain ⟨_, ⟨hact, rfl, rfl⟩ | ⟨hact, _, hlast, rfl, rfl⟩ | ⟨hact, _, hlt, rfl, rfl⟩⟩ :=
    decide_inTurn hn hturn hj
  · refine ⟨hp, (hremarked .rejected).trans (remarked_skipOpen _), (hn.actAt _ _ _ _).skipOpen, ?_,
      ?_, ?_, ?_, ?_⟩
    · intro s hs hc
      refine List.mem_map.mpr ⟨s, hkept .rejected s hs hc, if_neg ?_⟩
      exact fun ho => ho.elim hc.1 hc.2
    all_goals intro ha
    · cases ha
    · cases ha
    · cases ha
    · rw [hact] at ha
      cases ha
  · refine ⟨hp, hremarked .approved, hn.actAt _ _ _ _, hkept .approved, ?_, fun _ => ?_,
      fun _ => ⟨hact, hlast⟩, fun _ => hacted⟩
    · intro ha
      cases ha
    · refine hturn.approve_last (fun s hs => ?_) (some setting.now) d.note
      rw [hlast]
      exact ((hn.mem_order s.stepOrder).mp ⟨s, hs, rfl⟩).2
  · refine ⟨hp, (hremarked .approved).trans (remarked_openAt _ _), (hn.actAt _ _ _ _).openAt _, ?_,
      fun _ => ?_, ?_, ?_, fun _ => ?_⟩
    · intro s hs hc
      have hk := (completed_inTurn hturn hs hc).2
      exact List.mem_map.mpr ⟨s, hkept .approved s hs hc, if_neg (by omega)⟩
    · exact hturn.approve_next ((hn.mem_order _).mpr (by omega)) (some setting.now) d.note
    · intro ha
      exact absurd (hp.symm.trans ha) (by simp)
    · intro ha
      exact absurd (hp.symm.trans ha) (by simp)
    · obtain ⟨s, hs, hk, hst, hat⟩ := hacted
      exact ⟨s, List.mem_map.mpr ⟨s, hs, if_neg (by omega)⟩, hk, hst, hat⟩

/-- The rows after an accepted decision; a final approval needs leave to end here. -/
theorem Lawful.written {config : FollowupConfig} {n : Nat} {x : Dossier} (h : Lawful config n x)
    {setting : Setting} {d : Decision} {j : Request × List Step}
    (hj : Judged setting d x.toLedger j)
    (hend : j.1.status = .approved → canFinalize config = false →
      x.request.followupSelection ≠ none) :
    Lawful config n (writeJudgement x j) ∧ Persists x (writeJudgement x j) ∧
      (d.action = .approved → ∃ s ∈ (writeJudgement x j).steps,
        s.stepOrder = x.request.currentStepOrder ∧ s.status = .approved ∧
          s.actedAt = some setting.now) := by
  have hsteps : (writeJudgement x j).steps = j.2 := writeSteps_remarked h.numbered hj.remarked
  refine ⟨⟨h.configured, ?_, ?_, ?_, ?_, h.recorded, ?_, ?_, hend⟩, ?_, ?_⟩
  · rw [hsteps]
    exact hj.numbered
  · rw [hsteps]
    exact hj.remarked.segments h.segments
  · intro hp
    rw [hsteps]
    exact hj.turn hp
  · intro ha
    rw [hsteps]
    exact hj.approved ha
  · intro hsel
    rw [hsteps, hj.remarked.length]
    exact h.first hsel
  · intro c hc
    rw [hsteps, hj.remarked.length]
    exact h.second c hc
  · intro s hs hc
    rw [hsteps]
    exact hj.kept s hs hc
  · intro ha
    rw [hsteps]
    exact hj.acted ha

/-! The course of a decision. -/

theorem lastCourse_ok {config : FollowupConfig} {d : Decision} {course : Course}
    (h : lastCourse config d = .ok course) :
    (course = .finalize ∧ canFinalize config = true) ∨
      ∃ lineId, course = .connect lineId ∧ lineId ∈ allowedIds config := by
  unfold lastCourse at h
  split at h
  · split at h
    · cases h
    rename_i hfin
    split at h
    · cases h
    cases h
    exact Or.inl ⟨rfl, by simpa using hfin⟩
  · split at h
    · cases h
    rename_i lineId _
    split at h
    · rename_i hmem
      cases h
      exact Or.inr ⟨lineId, rfl, hmem⟩
    · cases h

/-- Besides deciding, a decision does something only on the last approval. -/
theorem courseOf_ok {l : Ledger} {config : FollowupConfig} {d : Decision} {course : Course}
    (hc : l.request.followupConfig = some config) (h : courseOf l d = .ok course) :
    (course = .plain ∧ (needsSelection l = true → d.action ≠ .approved)) ∨
      (needsSelection l = true ∧ d.action = .approved ∧
        ((course = .finalize ∧ canFinalize config = true) ∨
          ∃ lineId, course = .connect lineId ∧ lineId ∈ allowedIds config)) := by
  unfold courseOf at h
  split at h
  · cases h
  split at h
  · cases h
  rw [hc] at h
  dsimp only at h
  split at h
  · rename_i hlast
    rw [Bool.and_eq_true, decide_eq_true_eq] at hlast
    exact Or.inr ⟨hlast.1, hlast.2, lastCourse_ok h⟩
  · rename_i hnot
    rw [Bool.and_eq_true, decide_eq_true_eq, not_and] at hnot
    cases h
    exact Or.inl ⟨rfl, hnot⟩

theorem fillOpenSlots_ok {template steps : List Engine.Spec} {chosen : List Engine.Planned}
    (h : Engine.fillOpenSlots template steps = .ok chosen) : Engine.planSteps steps = .ok chosen := by
  unfold Engine.fillOpenSlots at h
  split at h
  · cases h
  split at h
  · cases h
  cases hp : Engine.planSteps steps with
  | error e => simp [hp] at h
  | ok planned =>
    simp only [hp] at h
    split at h
    · cases h
    split at h
    · cases h
    exact h

/-- The prepared steps are numbered from 1, and there are some. -/
theorem prepareSteps_ok {requesterId : Option Int} {line : Line} {picks : Option (List Engine.Spec)}
    {chosen : List Engine.Planned} (h : prepareSteps requesterId line picks = .ok chosen) :
    chosen.map Engine.Planned.stepOrder = List.range' 1 chosen.length ∧ chosen ≠ [] := by
  have hplan : ∃ specs, Engine.planSteps specs = .ok chosen := by
    unfold prepareSteps at h
    split at h
    · cases h
    rename_i slots _
    cases picks with
    | none =>
      dsimp only at h
      cases hp : Engine.planSteps (slots.map Engine.Slot.spec) with
      | error e => simp [hp] at h
      | ok planned =>
        simp only [hp] at h
        split at h
        · cases h
        cases h
        exact ⟨_, hp⟩
    | some picks =>
      dsimp only at h
      cases hp : Engine.fillOpenSlots (slots.map Engine.Slot.spec) picks with
      | error e => simp [hp] at h
      | ok planned =>
        simp only [hp] at h
        split at h
        · cases h
        cases h
        exact ⟨picks, fillOpenSlots_ok hp⟩
  obtain ⟨specs, hspecs⟩ := hplan
  obtain ⟨hord, _, hne, _⟩ := planSteps_ok hspecs
  exact ⟨hord, hne⟩

theorem loadCandidate_ok {config : Config} {lineId : Nat} {candidate : Candidate}
    (h : loadCandidate config lineId = .ok candidate) :
    candidate.line.id = lineId ∧ candidate.form = candidate.line.formId.bind (getForm config) := by
  unfold loadCandidate at h
  cases hl : getLine config lineId with
  | none =>
    simp only [hl] at h
    cases h
  | some line =>
    simp only [hl, Except.ok.injEq] at h
    subst h
    exact ⟨by simpa using List.find?_some hl, rfl⟩

/-- What an accepted connection goes by. -/
theorem connect_ok {revision : Candidate → String} {setting : Setting} {d : Decision} {lineId : Nat}
    {x y : Dossier} (h : connect revision setting d lineId x = .ok y) :
    ∃ candidate chosen, loadCandidate setting.config lineId = .ok candidate ∧
      candidateError candidate (x.request.followupConfig.bind FollowupConfig.sourceLineId) = none ∧
      prepareSteps x.request.requesterId candidate.line d.picks = .ok chosen ∧
      y = connected setting d candidate chosen x := by
  unfold connect at h
  split at h
  · cases h
  rename_i candidate hload
  split at h
  · cases h
  rename_i hfresh
  split at h
  · cases h
  rename_i chosen hprep
  split at h
  · cases h
  cases h
  refine ⟨candidate, chosen, hload, ?_, hprep, rfl⟩
  rw [not_or, not_or] at hfresh
  simpa using hfresh.2.2

/-- The second segment goes on where the first one ends, and waits. -/
theorem numbered_append {steps : List Step} {chosen : List Engine.Planned} (hn : Numbered steps)
    (hord : chosen.map Engine.Planned.stepOrder = List.range' 1 chosen.length) :
    Numbered (steps ++ segmentSteps steps.length chosen) := by
  have hseg : (segmentSteps steps.length chosen).map Step.stepOrder =
      List.range' (1 + steps.length) chosen.length := by
    rw [segmentSteps, List.map_map]
    change chosen.map ((steps.length + ·) ∘ Engine.Planned.stepOrder) = _
    rw [← List.map_map, hord, List.map_add_range', Nat.add_comm]
  have hlen : (steps ++ segmentSteps steps.length chosen).length = steps.length + chosen.length := by
    rw [List.length_append, segmentSteps, List.length_map]
  rw [Numbered, hlen, List.map_append, hn, hseg, List.range'_append_1]

theorem mem_segmentSteps {offset : Nat} {chosen : List Engine.Planned}
    (hord : chosen.map Engine.Planned.stepOrder = List.range' 1 chosen.length) {s : Step}
    (hs : s ∈ segmentSteps offset chosen) :
    offset < s.stepOrder ∧ s.status = .waiting ∧ s.segmentOrder = 2 := by
  obtain ⟨p, hp, rfl⟩ := List.mem_map.mp hs
  have hmem : p.stepOrder ∈ List.range' 1 chosen.length := hord ▸ List.mem_map_of_mem hp
  rw [List.mem_range'_1] at hmem
  exact ⟨by dsimp only; omega, rfl, rfl⟩

/-- A connected request is lawful before the approval is written. -/
theorem Lawful.connected {config : FollowupConfig} {n : Nat} {x : Dossier} (h : Lawful config n x)
    (hneeds : needsSelection x.toLedger = true) (setting : Setting) (d : Decision)
    {candidate : Candidate} {chosen : List Engine.Planned}
    (hord : chosen.map Engine.Planned.stepOrder = List.range' 1 chosen.length) (hne : chosen ≠ [])
    (hallowed : candidate.line.id ∈ allowedIds config) :
    Lawful config n (Followup.connected setting d candidate chosen x) := by
  obtain ⟨hp, hsel, hcur⟩ := h.needs_iff.mp hneeds
  have hlen := h.first hsel
  have hsteps : (Followup.connected setting d candidate chosen x).steps =
      x.steps ++ segmentSteps x.steps.length chosen := by
    rw [Followup.connected, h.lastOrder]
  have hpos := List.length_pos_iff.mpr hne
  refine ⟨h.configured, ?_, ?_, fun _ => ?_, ?_, ?_, ?_, ?_, ?_⟩
  · rw [hsteps]
    exact numbered_append h.numbered hord
  · intro s hs
    rw [hsteps] at hs
    obtain hs | hs := List.mem_append.mp hs
    · exact h.segments s hs
    · obtain ⟨hgt, _, hseg⟩ := mem_segmentSteps hord hs
      rw [hseg, segmentOf, if_neg (by omega)]
  · -- the steps of the second segment lie ahead of the current one
    rw [hsteps]
    obtain ⟨⟨s, hs, hk⟩, hfollows⟩ := h.turn hp
    refine ⟨⟨s, List.mem_append_left _ hs, hk⟩, fun t ht => ?_⟩
    obtain ht | ht := List.mem_append.mp ht
    · exact hfollows t ht
    · obtain ⟨hgt, hwait, _⟩ := mem_segmentSteps hord ht
      have hcur' : (Followup.connected setting d candidate chosen x).request.currentStepOrder =
        x.steps.length := hcur
      rw [hwait, around, hcur', if_neg (by omega), if_neg (by omega)]
  · intro ha
    exact absurd (hp.symm.trans ha) (by simp)
  · have hnil : connections x = [] := by rw [h.recorded, hsel]; rfl
    change (x.followups ++ [_]).filterMap _ = _
    rw [List.filterMap_append]
    change connections x ++ _ = _
    rw [hnil]
    rfl
  · intro hnone
    cases hnone
  · intro c hc
    cases hc
    rw [hsteps, List.length_append, segmentSteps, List.length_map]
    exact ⟨by omega, hallowed, by rw [h.lastOrder, hlen]⟩
  · intro ha
    exact absurd (hp.symm.trans ha) (by simp)

theorem Lawful.finalized {config : FollowupConfig} {n : Nat} {x : Dossier} (h : Lawful config n x)
    (setting : Setting) (d : Decision) : Lawful config n (Followup.finalized setting d x) := by
  refine ⟨h.configured, h.numbered, h.segments, h.turn, h.approved, ?_, h.first, h.second, h.ended⟩
  change (x.followups ++ [_]).filterMap _ = _
  rw [List.filterMap_append]
  exact (List.append_nil _).trans h.recorded

/-! Calls. -/

inductive Call where
  | decision (setting : Setting) (d : Decision)
  | cancel (setting : Setting) (actorId : Option Int) (note : String)

section Runs
variable (lease : Time) (revision : Candidate → String)

def Call.apply (call : Call) (x : Dossier) : Except ApprovalError Dossier :=
  match call with
  | .decision setting d => Followup.decision lease revision setting d x
  | .cancel setting actorId note => Followup.cancel lease setting actorId note x

/-- A call that raises has rolled back. -/
def feed (x : Dossier) (call : Call) : Dossier :=
  match call.apply lease revision x with
  | .ok y => y
  | .error _ => x

def run (x : Dossier) (calls : List Call) : Dossier := calls.foldl (feed lease revision) x

/-- The call makes the one connection of this request: it approves the last
step of the first segment. -/
def Connects (n : Nat) (call : Call) (x y : Dossier) : Prop :=
  ∃ setting d c, call = .decision setting d ∧ d.action = .approved ∧ connections x = [] ∧
    connections y = [c] ∧ x.request.status = .pending ∧ x.request.currentStepOrder = n ∧
    x.steps.length = n ∧ ApprovedLast n setting.now y

/-- What one call may do to a lawful request. -/
structure Advances (config : FollowupConfig) (n : Nat) (call : Call) (x y : Dossier) : Prop where
  lawful : Lawful config n y
  persists : Persists x y
  connects : connections y = connections x ∨ Connects n call x y

theorem decisionRows_ok {setting : Setting} {d : Decision} {x z : Dossier}
    (h : decisionRows revision setting d x = .ok z) :
    ∃ course y j, courseOf x.toLedger d = .ok course ∧
      takeCourse revision setting d x course = .ok y ∧ judge setting d y.toLedger = .ok j ∧
      z = writeJudgement y j := by
  simp only [decisionRows, bind, Except.bind, pure, Except.pure] at h
  split at h
  · cases h
  split at h
  · cases h
  split at h
  · cases h
  rename_i course hcourse
  split at h
  · cases h
  rename_i y hy
  split at h
  · cases h
  rename_i j hj
  cases h
  exact ⟨course, y, j, hcourse, hy, hj, rfl⟩

theorem decisionRows_advances {config : FollowupConfig} {n : Nat} {x z : Dossier}
    (h : Lawful config n x) {setting : Setting} {d : Decision}
    (hz : decisionRows revision setting d x = .ok z) :
    Advances config n (.decision setting d) x z := by
  obtain ⟨course, y, j, hcourse, hy, hj, rfl⟩ := decisionRows_ok revision hz
  obtain ⟨rfl, hplain⟩ | ⟨hneeds, hact, ⟨rfl, hfin⟩ | ⟨lineId, rfl, hallowed⟩⟩ :=
    courseOf_ok h.configured hcourse
  · cases hy
    have hjudged := judge_ok h.numbered h.turn hj
    obtain ⟨hlaw, hpers, _⟩ := h.written hjudged fun ha _ hsel => by
      obtain ⟨happ, hlast⟩ := hjudged.last ha
      exact hplain (h.needs_iff.mpr ⟨hjudged.pending, hsel, hlast⟩) happ
    exact ⟨hlaw, hpers, Or.inl rfl⟩
  · cases hy
    have hx := h.finalized setting d
    obtain ⟨hlaw, hpers, _⟩ := hx.written (judge_ok hx.numbered hx.turn hj)
      fun _ hnot => by simp [hfin] at hnot
    exact ⟨hlaw, hpers, Or.inl (hlaw.recorded.trans h.recorded.symm)⟩
  · obtain ⟨candidate, chosen, hload, _, hprep, rfl⟩ := connect_ok hy
    obtain ⟨hord, hne⟩ := prepareSteps_ok hprep
    rw [← (loadCandidate_ok hload).1] at hallowed
    have hx := h.connected hneeds setting d hord hne hallowed
    obtain ⟨hp, hsel, hcur⟩ := h.needs_iff.mp hneeds
    have hlen := h.first hsel
    obtain ⟨hlaw, hpers, hacted⟩ := hx.written (judge_ok hx.numbered hx.turn hj)
      fun _ _ hnone => by cases hnone
    refine ⟨hlaw, fun s hs hc => hpers s (List.mem_append_left _ hs) hc, Or.inr ?_⟩
    refine ⟨setting, d, _, rfl, hact, ?_, hlaw.recorded, hp, hcur.trans hlen, hlen, ?_⟩
    · rw [h.recorded, hsel]
      rfl
    · obtain ⟨s, hs, hk, hst, hat⟩ := hacted hact
      exact ⟨s, hs, hk.trans (hcur.trans hlen), hst, hat⟩

/-- The hooks write nothing that the law speaks of. -/
theorem settled_spec (setting : Setting) (x : Dossier) :
    (settled lease setting x).steps = x.steps ∧ (settled lease setting x).followups = x.followups ∧
      ∃ appliedAt applyError applyClaimedAt, (settled lease setting x).request = { x.request with
        appliedAt := appliedAt, applyError := applyError, applyClaimedAt := applyClaimedAt } := by
  have hkept := (Alone.runAlone_settling 0 setting.tick
    (Race.settleHooks_only lease setting.site x.toLedger)
    (Alone.settleHooks_total lease setting.site x.toLedger) 0 ⟨x.toLedger, setting.now, none, []⟩).2
  exact ⟨hkept.steps, rfl, hkept.request⟩

theorem Lawful.settled {config : FollowupConfig} {n : Nat} {x : Dossier} (h : Lawful config n x)
    (setting : Setting) : Lawful config n (Followup.settled lease setting x) := by
  obtain ⟨hsteps, hfoll, _, _, _, hreq⟩ := settled_spec lease setting x
  have hconn : connections (Followup.settled lease setting x) = connections x := by
    rw [connections, connections, hfoll]
  refine ⟨?_, ?_, ?_, ?_, ?_, ?_, ?_, ?_, ?_⟩
  all_goals simp only [hsteps, hreq, hconn]
  · exact h.configured
  · exact h.numbered
  · exact h.segments
  · exact h.turn
  · exact h.approved
  · exact h.recorded
  · exact h.first
  · exact h.second
  · exact h.ended

theorem Lawful.canceled {config : FollowupConfig} {n : Nat} {x : Dossier} (h : Lawful config n x)
    (setting : Setting) (canceledBy : CanceledBy) (note : String) :
    Lawful config n (Followup.canceled setting canceledBy note x) := by
  have hlen : (Followup.canceled setting canceledBy note x).steps.length = x.steps.length :=
    (remarked_skipOpen x.steps).length
  refine ⟨h.configured, h.numbered.skipOpen, (remarked_skipOpen x.steps).segments h.segments, ?_, ?_,
    h.recorded, fun hsel => hlen.trans (h.first hsel), fun c hc => ?_, ?_⟩
  · intro hp
    cases hp
  · intro ha
    cases ha
  · rw [hlen]
    exact h.second c hc
  · intro ha
    cases ha

theorem canceled_advances {config : FollowupConfig} {n : Nat} {x : Dossier} (h : Lawful config n x)
    (call : Call) (setting : Setting) (canceledBy : CanceledBy) (note : String) :
    Advances config n call x (canceled setting canceledBy note x) where
  lawful := h.canceled setting canceledBy note
  persists s hs hc := List.mem_map.mpr ⟨s, hs, if_neg fun ho => ho.elim hc.1 hc.2⟩
  connects := Or.inl rfl

theorem Advances.settled {config : FollowupConfig} {n : Nat} {call : Call} {x y : Dossier}
    (h : Advances config n call x y) (setting : Setting) :
    Advances config n call x (Followup.settled lease setting y) := by
  obtain ⟨hsteps, hfoll, _⟩ := settled_spec lease setting y
  have hconn : connections (Followup.settled lease setting y) = connections y := by
    rw [connections, connections, hfoll]
  have hlast (now : Time) :
      ApprovedLast n now (Followup.settled lease setting y) ↔ ApprovedLast n now y := by
    rw [ApprovedLast, ApprovedLast, hsteps]
  refine ⟨h.lawful.settled lease setting, fun s hs hc => ?_, ?_⟩
  · rw [hsteps]
    exact h.persists s hs hc
  · simp only [Connects, hconn, hlast]
    exact h.connects

theorem decision_advances {config : FollowupConfig} {n : Nat} {x z : Dossier} (h : Lawful config n x)
    {setting : Setting} {d : Decision} (hz : decision lease revision setting d x = .ok z) :
    Advances config n (.decision setting d) x z := by
  unfold decision at hz
  split at hz
  · cases hz
  rename_i y hy
  have hadv := decisionRows_advances revision h hy
  split at hz
  · cases hz
    exact hadv.settled lease setting
  · cases hz
    exact hadv

theorem cancel_advances {config : FollowupConfig} {n : Nat} {x z : Dossier} (h : Lawful config n x)
    {setting : Setting} {actorId : Option Int} {note : String}
    (hz : Followup.cancel lease setting actorId note x = .ok z) :
    Advances config n (.cancel setting actorId note) x z := by
  unfold Followup.cancel at hz
  split at hz
  · split at hz
    · cases hz
    cases hz
    exact (canceled_advances h _ setting .requester note).settled lease setting
  · split at hz
    · cases hz
      exact ⟨h, fun _ hs _ => hs, Or.inl rfl⟩
    cases hz
    exact (canceled_advances h _ setting .system note).settled lease setting

theorem feed_advances {config : FollowupConfig} {n : Nat} {x : Dossier} (h : Lawful config n x)
    (call : Call) : Advances config n call x (feed lease revision x call) := by
  unfold feed
  split
  · rename_i y hy
    cases call with
    | decision setting d => exact decision_advances lease revision h hy
    | cancel setting actorId note => exact cancel_advances lease h hy
  · exact ⟨h, fun _ hs _ => hs, Or.inl rfl⟩

theorem run_lawful {config : FollowupConfig} {n : Nat} {x : Dossier} (h : Lawful config n x)
    (calls : List Call) :
    Lawful config n (run lease revision x calls) ∧ Persists x (run lease revision x calls) := by
  induction calls generalizing x with
  | nil => exact ⟨h, fun _ hs _ => hs⟩
  | cons call calls ih =>
    have hadv := feed_advances lease revision h call
    obtain ⟨hlaw, hpers⟩ := ih hadv.lawful
    exact ⟨hlaw, hadv.persists.trans hpers⟩

/-- Through any calls a submitted request stays lawful, completed steps stay as
they are, and the one connection comes with the last approval of the first
segment. -/
theorem submitted_run_lawful {config : FollowupConfig} {n : Nat} {x : Dossier}
    (hx : Submitted config n x) (calls : List Call) :
    Lawful config n (run lease revision x calls) ∧
      (∀ calls' : List Call, Persists (run lease revision x calls)
        (run lease revision (run lease revision x calls) calls')) ∧
      ∀ call : Call,
        connections (feed lease revision (run lease revision x calls) call) =
            connections (run lease revision x calls) ∨
          Connects n call (run lease revision x calls)
            (feed lease revision (run lease revision x calls) call) := by
  have hlaw := (run_lawful lease revision hx.lawful calls).1
  exact ⟨hlaw, fun calls' => (run_lawful lease revision hlaw calls').2,
    fun call => (feed_advances lease revision hlaw call).connects⟩

end Runs

/-- A request of one step, which one other line may follow. -/
def oneStep : Dossier where
  request := { id := 1, title := "t", actionType := "generic", requesterId := some 1
               followupConfig := some
                 { version := some 2, enabled := some true, required := some false
                   sourceLineId := some 5, lineIds := some [7], candidates := []
                   asks := asks_enabled } }
  steps := [{ stepOrder := 1, approverId := 3, status := .pending }]
  blocks := []
  followups := []

/-- The line that may follow, with the same reviewer. -/
def quiet : Setting where
  config :=
    { forms := []
      lines := [{ id := 7, name := "second", ownerId := none, isShared := true
                  steps := [⟨some 3, 1⟩] }]
      policies := []
      activeUsers := [3] }
  nextBlock := 1
  now := 10
  site := ⟨false, false, "other", fun _ => ""⟩
  tick := fun _ => 1

def connectThenApprove : List Call :=
  [.decision quiet { actorId := 3, action := .approved, lineId := some 7, expectedStepOrder := some 1
                     expectedRevision := some "r", followupAction := some .connect },
   .decision quiet { actorId := 3, action := .approved, expectedStepOrder := some 2 }]

theorem submitted_oneStep : ∃ config, Submitted config 1 oneStep := by
  refine ⟨_, rfl, rfl, ⟨⟨_, List.mem_singleton_self _, rfl⟩, ?_⟩, ?_, rfl, rfl, rfl, rfl⟩
  · simp [Follows, oneStep, around]
  · simp [oneStep]

theorem submitted_run_lawful_one : ∃ config,
    Lawful config 1 (run 600 (fun _ => "r") oneStep connectThenApprove) ∧
      (∀ calls' : List Call, Persists (run 600 (fun _ => "r") oneStep connectThenApprove)
        (run 600 (fun _ => "r") (run 600 (fun _ => "r") oneStep connectThenApprove) calls')) ∧
      ∀ call : Call,
        connections (feed 600 (fun _ => "r") (run 600 (fun _ => "r") oneStep connectThenApprove) call) =
            connections (run 600 (fun _ => "r") oneStep connectThenApprove) ∨
          Connects 1 call (run 600 (fun _ => "r") oneStep connectThenApprove)
            (feed 600 (fun _ => "r") (run 600 (fun _ => "r") oneStep connectThenApprove) call) := by
  obtain ⟨config, hx⟩ := submitted_oneStep
  exact ⟨config, submitted_run_lawful 600 (fun _ => "r") hx connectThenApprove⟩

example : (run 600 (fun _ => "r") oneStep connectThenApprove).request.status = .approved ∧
    (run 600 (fun _ => "r") oneStep connectThenApprove).steps.length = 2 := by decide

end XgenSdk.FollowupRuns
