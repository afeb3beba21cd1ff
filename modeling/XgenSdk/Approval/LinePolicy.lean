import XgenSdk.Approval.Shape
import XgenSdk.Approval.SubmitAtomic

/-! Which line a request of a kind goes through: the one the policy of the kind
pins, or the one that came with the request. -/
namespace XgenSdk.LinePolicy
open XgenSdk.Models XgenSdk.Engine XgenSdk.Tables XgenSdk.Shape

/-- Why no line is found: a rule, a choice still to be made, or a read that failed. -/
inductive Refusal where
  | refused (e : ApprovalError)
  | lineRequired (label : String) (defaultLine : Option Int)
  | unread

/-- The steps of each line as the database gives them, in any order. -/
abbrev Rows := Int → Option (List Spec)

def Refusal.message : Refusal → String
  | .refused e => e.message
  | .lineRequired label _ => label ++ "은(는) 결재가 필요합니다. 결재선을 지정하세요."
  | .unread => "DB 오류"

/-- The policy of a kind. A line is only pinned where there is one. -/
def policyOf (policies : List Policy) (actionType : String) : Policy :=
  match policies.find? fun p => p.actionType = actionType with
  | none => { actionType := actionType, defaultLineId := none, lineLocked := false }
  | some p => { p with lineLocked := p.lineLocked && (Submit.givenId p.defaultLineId).isSome }

/-- An id that is neither missing nor zero. -/
def givenLine (id : Option Int) : Option Int := id.filter (· ≠ 0)

def defaultLine (p : Policy) : Option Int := (Submit.givenId p.defaultLineId).map Int.ofNat

def Planned.spec (p : Planned) : Spec := ⟨.person p.approverId, some p.stepOrder⟩

def lineFixed (label : String) : ApprovalError := ⟨label ++ "은(는) 결재선이 고정되어 있어 바꿀 수 없습니다."⟩

/-- The line a policy pins. Only its open slots are the requester's to fill. -/
def pinnedLine (label : String) (rows : Rows) (line : Int) (lineId : Option Int) (steps : List Spec) :
    Except Refusal (Option Int × Option (List Spec)) :=
  if (givenLine lineId).any (· ≠ line) then .error (.refused (lineFixed label))
  else match rows line with
    | none => .error .unread
    | some template =>
      if !template.any isOpenSlot then
        if !steps.isEmpty then .error (.refused (lineFixed label)) else .ok (some line, none)
      else if steps.isEmpty then .error (.lineRequired label (some line))
      else match fillOpenSlots template steps with
        | .error e => .error (.refused e)
        | .ok chosen => .ok (some line, some (chosen.map Planned.spec))

/-- The first line there is, if it can be sent as it stands. -/
def firstLine (label : String) (rows : Rows) : List (Option Int) → Except Refusal (Option Int × Option (List Spec))
  | [] => .error (.lineRequired label none)
  | candidate :: rest =>
    match givenLine candidate with
    | none => firstLine label rows rest
    | some line =>
      match rows line with
      | none => .error .unread
      | some template =>
        if template.any isOpenSlot then .error (.lineRequired label (some line)) else .ok (some line, none)

/-- `policies` is `none` where they cannot be read: nothing is pinned then. -/
def resolveLine (label : String) (policies : Option (List Policy)) (actionType : String) (rows : Rows)
    (lineId : Option Int) (steps : List Spec) : Except Refusal (Option Int × Option (List Spec)) :=
  let policy := policies.map fun ps => policyOf ps actionType
  let default := policy.bind defaultLine
  match default.filter fun _ => policy.any Policy.lineLocked with
  | some line => pinnedLine label rows line lineId steps
  | none =>
    if !steps.isEmpty then .ok ((givenLine lineId).or default, some steps)
    else firstLine label rows [lineId, default]

/-! What is recorded of a line at submission. -/

/-- The asked-for steps, or those of the template, which then has no open slot. -/
def specsFrom (template steps : List Spec) : Except ApprovalError (List Spec) :=
  if !steps.isEmpty then .ok steps
  else if template.isEmpty then raise "결재선이 비어 있습니다"
  else if template.any isOpenSlot then raise "임의 차례의 결재자를 지정하세요."
  else .ok template

/-- The steps of a request sent along a line with this template. -/
def recordedSteps (template steps : List Spec) : Except ApprovalError (List Step) := do
  let specs ← specsFrom template steps
  let planned ← planSteps specs
  openSteps planned

/-- The template of a line of the office. -/
def templateOf (config : Config) (line : Nat) : List Spec :=
  (((getLine config line).map Line.steps).getD []).map Slot.spec

theorem specsOf_eq {config : Config} {args : Submit.Submission} {line : Nat} (hline : Submit.givenId args.lineId = some line) :
    Submit.specsOf config args = specsFrom (templateOf config line) args.steps := by
  rw [Submit.specsOf, hline]
  rfl

/-- What a submission writes as steps are the recorded ones. -/
theorem prepare_steps {registry : Submit.Registry} {args : Submit.Submission} {o : Office} {p : Submit.Prepared} {line : Nat}
    (hline : Submit.givenId args.lineId = some line) (hp : Submit.prepare registry args o = .ok p) :
    recordedSteps (templateOf o.toConfig line) args.steps = .ok p.steps := by
  unfold Submit.prepare at hp
  split at hp
  · cases hp
  split at hp
  · cases hp
  split at hp
  · cases hp
  split at hp
  · cases hp
  rw [specsOf_eq hline] at hp
  rw [recordedSteps]
  cases hspecs : specsFrom (templateOf o.toConfig line) args.steps with
  | error e => rw [hspecs] at hp; cases hp
  | ok specs =>
    rw [hspecs] at hp
    change (planSteps specs >>= _) = _ at hp
    change (planSteps specs >>= _) = _
    cases hplanned : planSteps specs with
    | error e => rw [hplanned] at hp; cases hp
    | ok planned =>
      rw [hplanned] at hp
      change (openSteps planned >>= _) = _ at hp
      change openSteps planned = _
      cases hsteps : openSteps planned with
      | error e => rw [hsteps] at hp; cases hp
      | ok steps =>
        rw [hsteps] at hp
        change (if (steps.any fun s => decide (s.approverId = args.requesterId)) = true then _ else _) = _ at hp
        split at hp
        · cases hp
        · cases hguard : Submit.guardStepsCoverForm (Submit.lineForm o.toConfig args.lineId) steps.length with
          | error e => simp only [hguard] at hp; cases hp
          | ok u => simp only [hguard] at hp; cases hp; rfl

/-! Planning what was planned. -/

theorem collect_approvers {β : Type} {read : ApproverField → Option β} {person : β → Option Int} {specs : List Spec}
    {idx : Nat} {seen : List Int} {es : List (Entry β)} (h : collect read person idx seen specs = .ok es) :
    es.map (fun e => some e.approver) = specs.map fun s => read s.approver := by
  induction specs generalizing idx seen es with
  | nil => cases h; rfl
  | cons raw rest ih =>
    rw [collect] at h
    cases hread : read raw.approver with
    | none => rw [hread] at h; cases h
    | some approver =>
      rw [hread] at h
      dsimp only at h
      split at h
      · cases h
      · cases hrest : collect read person (idx + 1) ((person approver).toList ++ seen) rest with
        | error e => rw [hrest] at h; cases h
        | ok entries =>
          rw [hrest] at h
          cases h
          rw [List.map_cons, List.map_cons, hread, ih hrest]

/-- The entry of a step that has its number. -/
def Planned.entry (e : Planned × Nat) : Entry Int := ⟨e.1.stepOrder, e.2, e.1.approverId⟩

/-- A line that is already numbered is collected as it stands. -/
theorem collect_planned {planned : List Planned} {idx : Nat} {seen : List Int}
    (horders : planned.map Planned.stepOrder = List.range' (idx + 1) planned.length)
    (hdistinct : (planned.map Planned.approverId).Nodup) (hseen : ∀ a ∈ planned.map Planned.approverId, a ∉ seen) :
    collect readPerson some idx seen (planned.map Planned.spec) =
      .ok ((planned.zipIdx idx).map Planned.entry) := by
  induction planned generalizing idx seen with
  | nil => rfl
  | cons p rest ih =>
    rw [List.map_cons, List.length_cons, List.range'_succ, List.cons.injEq] at horders
    rw [List.map_cons, List.nodup_cons] at hdistinct
    have hp : p.approverId ∉ seen := hseen _ (by simp)
    have hunseen : ∀ a ∈ rest.map Planned.approverId, a ∉ p.approverId :: seen := fun a ha => by
      rw [List.mem_cons, not_or]
      exact ⟨fun h => hdistinct.1 (h ▸ ha), hseen a (by simp [ha])⟩
    have hrest := ih horders.2 hdistinct.2 hunseen
    have hread : readPerson (Planned.spec p).approver = some p.approverId := rfl
    rw [List.map_cons, collect, hread, List.zipIdx_cons, List.map_cons]
    simp only [Option.any_some, List.contains_iff_mem, hp, if_false, Option.toList_some, List.cons_append,
      List.nil_append, hrest, Planned.spec, Planned.entry, Option.getD_some, Except.ok.injEq, List.cons.injEq, and_true]
    rw [max_eq_right (by rw [horders.1]; omega)]

theorem lineUp_planned {planned : List Planned}
    (horders : planned.map Planned.stepOrder = List.range' 1 planned.length) :
    lineUp Planned.mk ((planned.zipIdx 0).map Planned.entry) = planned := by
  have hnumbers : (planned.zipIdx 0).map (fun e => e.1.stepOrder) = List.range' 1 planned.length := by
    rw [← horders, ← congrArg (List.map Planned.stepOrder) (List.zipIdx_map_fst 0 planned), List.map_map]
    rfl
  have hsorted : ((planned.zipIdx 0).map Planned.entry).Pairwise entryLe := by
    have hlt : ((planned.zipIdx 0).map fun e => e.1.stepOrder).Pairwise (· < ·) := by
      rw [hnumbers]
      exact List.pairwise_lt_range'
    rw [List.pairwise_map] at hlt ⊢
    exact hlt.imp fun h => Or.inl (Int.ofNat_lt.mpr h)
  rw [lineUp, List.Pairwise.insertionSort_eq hsorted]
  refine List.ext_getElem (by simp) fun i hi hi' => ?_
  have hstep : planned[i].stepOrder = 1 + i := by
    have hget := List.getElem_map Planned.stepOrder (h := by rw [List.length_map]; exact hi')
    simp only [horders, List.getElem_range', Nat.one_mul] at hget
    exact hget.symm
  simp only [List.getElem_map, List.getElem_zipIdx, Planned.entry, Nat.zero_add, ← hstep]

theorem planSteps_again {specs : List Spec} {planned : List Planned} (h : planSteps specs = .ok planned) :
    planSteps (planned.map Planned.spec) = .ok planned := by
  obtain ⟨horders, -, hne, hdistinct⟩ := planSteps_ok h
  have hne' : (planned.map Planned.spec).isEmpty = false := by
    simpa using hne
  rw [planSteps, hne', collect_planned horders hdistinct fun _ _ => List.not_mem_nil]
  simp only [Bool.false_eq_true, if_false, lineUp_planned horders]

/-! A template without open slots is planned alike as a template and as a line. -/

def Planned.slot (p : Planned) : Slot := ⟨some p.approverId, p.stepOrder⟩

def fixedEntry (e : Entry Int) : Entry (Option Int) := ⟨e.given, e.idx, some e.approver⟩

theorem collect_fixed {specs : List Spec} (hfixed : specs.any isOpenSlot = false) (idx : Nat) (seen : List Int) :
    collect readSlot id idx seen specs = (collect readPerson some idx seen specs).map (List.map fixedEntry) := by
  induction specs generalizing idx seen with
  | nil => rfl
  | cons raw rest ih =>
    rw [List.any_cons, Bool.or_eq_false_iff] at hfixed
    have hrest := ih hfixed.2
    cases happrover : raw.approver with
    | blank => simp [isOpenSlot, happrover] at hfixed
    | invalid => simp [collect, happrover, readSlot, readPerson, raise, Except.map]
    | person a =>
      simp only [collect, happrover, readSlot, readPerson, Option.any_some, id, Option.toList_some, hrest]
      split
      · rfl
      · cases collect readPerson some (idx + 1) ([a] ++ seen) rest with
        | error e => rfl
        | ok entries => rfl

theorem lineUp_fixed (es : List (Entry Int)) :
    lineUp Slot.mk (es.map fixedEntry) = (lineUp Planned.mk es).map Planned.slot := by
  have hsort : (es.map fixedEntry).insertionSort entryLe = (es.insertionSort entryLe).map fixedEntry :=
    (List.map_insertionSort entryLe entryLe fixedEntry es fun _ _ _ _ => Iff.rfl).symm
  rw [lineUp, lineUp, hsort, List.zipIdx_map, List.map_map, List.map_map]
  rfl

theorem planLineSlots_fixed {template : List Spec} {planned : List Planned} (hfixed : template.any isOpenSlot = false)
    (h : planSteps template = .ok planned) : planLineSlots template = .ok (planned.map Planned.slot) := by
  unfold planSteps at h
  split at h
  · cases h
  rename_i hne
  rw [planLineSlots, if_neg hne, collect_fixed hfixed]
  cases hcollect : collect readPerson some 0 [] template with
  | error e => rw [hcollect] at h; cases h
  | ok es =>
    rw [hcollect] at h
    cases h
    simp only [Except.map, lineUp_fixed]

/-! What may be recorded along a pinned line. -/

/-- A slot of the template at the step that stands in its place. -/
def Keeps (slot : Slot) (step : Step) : Prop :=
  slot.stepOrder = step.stepOrder ∧ ∀ a, slot.approverId = some a → step.approverId = a

/-- Steps that follow a template: one person at each slot, the fixed ones where the template has them. -/
structure Follows (template : List Spec) (recorded : List Step) : Prop where
  slots : ∃ slots, planLineSlots template = .ok slots ∧ List.Forall₂ Keeps slots recorded
  count : recorded.length = template.length
  ordered : recorded.map Step.stepOrder = List.range' 1 template.length
  distinct : (recorded.map Step.approverId).Nodup
  included : ∀ spec ∈ template, ∀ a, spec.approver = .person a → a ∈ recorded.map Step.approverId

theorem planLineSlots_ok {template : List Spec} {slots : List Slot} (h : planLineSlots template = .ok slots) :
    slots.map Slot.stepOrder = List.range' 1 template.length ∧ slots.length = template.length ∧
      ∀ spec ∈ template, ∀ a, spec.approver = .person a → some a ∈ slots.map Slot.approverId := by
  unfold planLineSlots at h
  split at h
  · cases h
  cases hcollect : collect readSlot id 0 [] template with
  | error e => rw [hcollect] at h; cases h
  | ok es =>
    rw [hcollect] at h
    cases h
    have hlength := collect_length _ _ _ _ _ _ hcollect
    refine ⟨by rw [lineUp_orders Slot.mk Slot.stepOrder (fun _ _ => rfl), hlength], by rw [lineUp_length, hlength],
      fun spec hspec a ha => ?_⟩
    rw [(lineUp_approvers Slot.mk Slot.approverId (fun _ _ => rfl) es).mem_iff]
    have hmem : some (some a) ∈ template.map fun s => readSlot s.approver :=
      List.mem_map.mpr ⟨spec, hspec, by rw [ha]; rfl⟩
    rw [← collect_approvers hcollect] at hmem
    obtain ⟨e, he, hea⟩ := List.mem_map.mp hmem
    exact List.mem_map.mpr ⟨e, he, Option.some.inj hea⟩

theorem openSteps_eq {planned : List Planned} {steps : List Step} (h : openSteps planned = .ok steps) :
    ∃ f : Planned → Step, steps = planned.map f ∧ ∀ p, (f p).stepOrder = p.stepOrder ∧ (f p).approverId = p.approverId := by
  unfold openSteps at h
  split at h
  · cases h
  · exact ⟨_, (Except.ok.inj h).symm, fun _ => ⟨rfl, rfl⟩⟩

/-- A line that has the template's person at each fixed slot follows the template. -/
theorem follows_of_planned {template specs : List Spec} {slots : List Slot} {planned : List Planned} {recorded : List Step}
    (hslots : planLineSlots template = .ok slots) (hplanned : planSteps specs = .ok planned)
    (hlength : slots.length = planned.length)
    (hkept : ∀ slot p, (slot, p) ∈ slots.zip planned → ∀ a, slot.approverId = some a → p.approverId = a)
    (hrecorded : openSteps planned = .ok recorded) : Follows template recorded := by
  obtain ⟨horders, -, -, hdistinct⟩ := planSteps_ok hplanned
  obtain ⟨hslotOrders, hslotCount, hincluded⟩ := planLineSlots_ok hslots
  obtain ⟨f, rfl, hf⟩ := openSteps_eq hrecorded
  have hstepOrder : (planned.map f).map Step.stepOrder = planned.map Planned.stepOrder := by
    rw [List.map_map]
    exact List.map_congr_left fun p _ => (hf p).1
  have happrover : (planned.map f).map Step.approverId = planned.map Planned.approverId := by
    rw [List.map_map]
    exact List.map_congr_left fun p _ => (hf p).2
  have hnumbers : List.Forall₂ (· = ·) (slots.map Slot.stepOrder) (planned.map Planned.stepOrder) := by
    rw [List.forall₂_eq_eq_eq, hslotOrders, horders, ← hlength, hslotCount]
  have hsame : List.Forall₂ (fun (slot : Slot) (p : Planned) => slot.stepOrder = p.stepOrder) slots planned :=
    List.forall₂_map_right_iff.mp (List.forall₂_map_left_iff.mp hnumbers)
  have hkeeps : List.Forall₂ Keeps slots (planned.map f) := by
    rw [List.forall₂_map_right_iff, List.forall₂_iff_zip]
    refine ⟨hlength, fun {slot p} hmem => ⟨?_, fun a ha => ?_⟩⟩
    · rw [(hf p).1]
      exact List.forall₂_zip hsame hmem
    · rw [(hf p).2]
      exact hkept slot p hmem a ha
  refine ⟨⟨slots, hslots, hkeeps⟩, by rw [List.length_map, ← hlength, hslotCount],
    by rw [hstepOrder, horders, ← hlength, hslotCount], by rw [happrover]; exact hdistinct, fun spec hspec a ha => ?_⟩
  obtain ⟨slot, hslot, hslota⟩ := List.mem_map.mp (hincluded spec hspec a ha)
  obtain ⟨i, hi, rfl⟩ := List.getElem_of_mem hslot
  have hi' : i < (planned.map f).length := by rwa [List.length_map, ← hlength]
  have hget := hkeeps.get hi hi'
  exact List.mem_map.mpr ⟨_, List.get_mem _ ⟨i, hi'⟩, hget.2 a hslota⟩

/-- The template itself, where all its slots are fixed. -/
theorem follows_of_template {template : List Spec} {recorded : List Step}
    (hrecorded : recordedSteps template [] = .ok recorded) : Follows template recorded := by
  rw [recordedSteps, specsFrom] at hrecorded
  simp only [List.isEmpty_nil, Bool.not_true, Bool.false_eq_true, if_false] at hrecorded
  split at hrecorded
  · cases hrecorded
  split at hrecorded
  · cases hrecorded
  rename_i hfixed
  change (planSteps template >>= _) = _ at hrecorded
  cases hplanned : planSteps template with
  | error e => rw [hplanned] at hrecorded; cases hrecorded
  | ok planned =>
    rw [hplanned] at hrecorded
    have hsame : List.Forall₂ (fun slot p => slot = Planned.slot p) (planned.map Planned.slot) planned :=
      List.forall₂_map_left_iff.mpr (List.forall₂_same.mpr fun _ _ => rfl)
    refine follows_of_planned (planLineSlots_fixed (by simpa using hfixed) hplanned) hplanned (by rw [List.length_map])
      (fun slot p hmem a ha => ?_) hrecorded
    rw [List.forall₂_zip hsame hmem] at ha
    exact Option.some.inj ha

theorem replacedSlot_eq_none {slots : List Slot} {chosen : List Planned} (h : replacedSlot slots chosen = none) :
    ∀ slot p, (slot, p) ∈ slots.zip chosen → ∀ a, slot.approverId = some a → p.approverId = a := by
  intro slot p hmem a ha
  rw [replacedSlot, Option.map_eq_none_iff, List.find?_eq_none] at h
  have hsame := h (slot, p) hmem
  simp only [ha, Option.any_some, ne_eq, decide_not, Bool.not_eq_true', decide_eq_false_iff_not, not_not] at hsame
  exact hsame.symm

theorem fillOpenSlots_ok {template steps : List Spec} {chosen : List Planned} (h : fillOpenSlots template steps = .ok chosen) :
    ∃ slots, planLineSlots template = .ok slots ∧ planSteps steps = .ok chosen ∧ slots.length = chosen.length ∧
      ∀ slot p, (slot, p) ∈ slots.zip chosen → ∀ a, slot.approverId = some a → p.approverId = a := by
  unfold fillOpenSlots at h
  split at h
  · cases h
  rename_i slots hslots
  split at h
  · cases h
  split at h
  · cases h
  rename_i picked hpicked
  split at h
  · cases h
  rename_i hlength
  split at h
  · cases h
  rename_i hreplaced
  cases h
  exact ⟨slots, hslots, hpicked, (not_not.mp hlength).symm, replacedSlot_eq_none hreplaced⟩

/-- The persons that fill a template follow it. -/
theorem follows_of_filled {template steps : List Spec} {chosen : List Planned} {recorded : List Step}
    (hfilled : fillOpenSlots template steps = .ok chosen)
    (hrecorded : recordedSteps template (chosen.map Planned.spec) = .ok recorded) : Follows template recorded := by
  obtain ⟨slots, hslots, hchosen, hlength, hkept⟩ := fillOpenSlots_ok hfilled
  have hagain := planSteps_again hchosen
  have hne : (chosen.map Planned.spec).isEmpty = false := by
    obtain ⟨-, -, hne, -⟩ := planSteps_ok hchosen
    simpa using hne
  rw [recordedSteps, specsFrom, hne] at hrecorded
  change (planSteps (chosen.map Planned.spec) >>= _) = _ at hrecorded
  rw [hagain] at hrecorded
  exact follows_of_planned hslots hagain hlength hkept hrecorded

theorem resolveLine_pinned {label actionType : String} {policies : List Policy} {p : Policy} {line : Nat}
    (hrow : (policies.find? fun p => p.actionType = actionType) = some p) (hlocked : p.lineLocked = true)
    (hdefault : Submit.givenId p.defaultLineId = some line) (rows : Rows) (lineId : Option Int) (steps : List Spec) :
    resolveLine label (some policies) actionType rows lineId steps = pinnedLine label rows line lineId steps := by
  simp only [resolveLine, policyOf, hrow, Option.map_some, Option.bind_some, defaultLine, hdefault, hlocked,
    Option.isSome_some, Bool.and_self, Option.any_some, Option.filter_some, if_true]
  rfl

theorem pinnedLine_ok {label : String} {rows : Rows} {line : Int} {template : List Spec} (hread : rows line = some template)
    {lineId : Option Int} {steps : List Spec} {result : Option Int × Option (List Spec)}
    (h : pinnedLine label rows line lineId steps = .ok result) :
    result = (some line, none) ∨
      ∃ chosen, fillOpenSlots template steps = .ok chosen ∧ result = (some line, some (chosen.map Planned.spec)) := by
  unfold pinnedLine at h
  split at h
  · cases h
  rw [hread] at h
  dsimp only at h
  split at h
  · split at h
    · cases h
    · exact Or.inl (Except.ok.inj h).symm
  · split at h
    · cases h
    · split at h
      · cases h
      · rename_i chosen hchosen
        exact Or.inr ⟨chosen, hchosen, (Except.ok.inj h).symm⟩

/-! What a submission reads back as its steps. -/

def stepsById (l : Store.Ledger) : Nat × List Step := (l.request.id, l.steps)

theorem getRequest_steps {o o' : Office} {requestId : Nat} {l l' : Store.Ledger}
    (hrows : o'.requests.map stepsById = o.requests.map stepsById)
    (h : Submit.getRequest o requestId = .ok l) (h' : Submit.getRequest o' requestId = .ok l') : l'.steps = l.steps := by
  have hfound : ∀ {o : Office} {l : Store.Ledger}, Submit.getRequest o requestId = .ok l →
      ((o.requests.map stepsById).find? fun k => k.1 = requestId) = some (stepsById l) := by
    intro o l hl
    unfold Submit.getRequest at hl
    split at hl
    · cases hl
    · rename_i m hm
      cases hl
      rw [List.find?_map]
      exact congrArg (Option.map stepsById) hm
  have hsame := (hfound h').symm.trans (hrows ▸ hfound h)
  exact congrArg Prod.snd (Option.some.inj hsame)

/-- A submission returns the request as it stands at the end. -/
theorem finishSubmit_reads {tables : Evaluation.Tables} {args : Submit.Submission} {requestId : Nat} {o : Office} {l : Store.Ledger}
    (h : ((SubmitAtomic.finishSubmit tables args requestId).on o).1 = .ok l) :
    Submit.getRequest ((SubmitAtomic.finishSubmit tables args requestId).on o).2 requestId = .ok l := by
  unfold SubmitAtomic.finishSubmit at h ⊢
  split
  · rename_i hvalues
    simp only [hvalues, if_true, Raising.on_bind, Raising.on_read, Raising.on_lift] at h ⊢
    cases hget : Submit.getRequest o requestId with
    | error e => simp only [hget] at h; cases h
    | ok before =>
      simp only [hget] at h ⊢
      cases hdrafts : (Submit.applyDraftValues tables requestId args.requesterId o.clock (before.blocks.map Store.normalized)
          args.blockValues).on o with
      | mk r t =>
        simp only [hdrafts] at h ⊢
        cases r with
        | error e => cases h
        | ok u => exact h
  · rename_i hvalues
    simp only [hvalues, Raising.on_bind, Raising.on_read, Raising.on_lift] at h ⊢
    exact h

theorem submit_steps {registry : Submit.Registry} {tables : Evaluation.Tables} {args : Submit.Submission} {o : Office}
    (hfresh : SubmitAtomic.FreshIds o) {l : Store.Ledger} (h : ((Submit.submit registry tables args).on o).1 = .ok l) :
    ∃ p, Submit.prepare registry args o = .ok p ∧ l.steps = p.steps := by
  cases hp : Submit.prepare registry args o with
  | error e =>
    simp only [Submit.submit, Raising.on_bind, Raising.on_read, Raising.on_lift, hp] at h
    cases h
  | ok p =>
    rw [SubmitAtomic.submit_checked hp] at h
    have hrows := SubmitAtomic.finishSubmit_rows stepsById (fun _ _ => rfl) tables args o.nextRequest
      (SubmitAtomic.inserted args p o)
    exact ⟨p, rfl, getRequest_steps hrows (SubmitAtomic.getRequest_inserted hfresh args p) (finishSubmit_reads h)⟩

/-- A pinned line with its template: whatever is asked for is refused or ends in steps that follow it. -/
theorem pinned_line_followed {label actionType : String} {policies : List Policy} {policy : Policy} {line : Nat}
    (hrow : (policies.find? fun p => p.actionType = actionType) = some policy) (hlocked : policy.lineLocked = true)
    (hdefault : Submit.givenId policy.defaultLineId = some line) {rows : Rows} {template : List Spec}
    (hread : rows line = some template) (lineId : Option Int) (steps : List Spec) {result : Option Int × Option (List Spec)}
    (hresult : resolveLine label (some policies) actionType rows lineId steps = .ok result) :
    result.1 = some line ∧
    (∀ recorded, recordedSteps template (result.2.getD []) = .ok recorded → Follows template recorded) ∧
    ∀ registry tables args o l, SubmitAtomic.FreshIds o → templateOf o.toConfig line = template →
      args.lineId = some line → args.steps = result.2.getD [] →
      ((Submit.submit registry tables args).on o).1 = .ok l → Follows template l.steps := by
  rw [resolveLine_pinned hrow hlocked hdefault] at hresult
  have hfollows : ∀ recorded, recordedSteps template (result.2.getD []) = .ok recorded → Follows template recorded := by
    intro recorded hrecorded
    obtain rfl | ⟨chosen, hchosen, rfl⟩ := pinnedLine_ok hread hresult
    · exact follows_of_template hrecorded
    · exact follows_of_filled hchosen hrecorded
  refine ⟨?_, hfollows, fun registry tables args o l hfresh htemplate hline hsteps hsubmit => ?_⟩
  · obtain rfl | ⟨chosen, -, rfl⟩ := pinnedLine_ok hread hresult <;> rfl
  · obtain ⟨p, hp, hpsteps⟩ := submit_steps hfresh hsubmit
    have hgiven : Submit.givenId args.lineId = some line := by
      have hpositive : line ≠ 0 := by
        obtain ⟨-, hne⟩ := Option.filter_eq_some_iff.mp hdefault
        simpa using hne
      rw [hline, Submit.givenId]
      simp [hpositive]
    have hrecorded := prepare_steps hgiven hp
    rw [htemplate, hsteps] at hrecorded
    rw [hpsteps]
    exact hfollows _ hrecorded

/-- The requester picks the first person, the administrator fixed the second. -/
def openThenFixed : List Spec := [⟨.person 5, some 2⟩, ⟨.blank, some 1⟩]

def pinnedPolicy : Policy := { actionType := "deploy", defaultLineId := some 1, lineLocked := true }

def askedSteps : List Spec := [⟨.person 9, some (-3)⟩, ⟨.person 5, none⟩]

theorem pinned_line_followed_open : ∃ recorded,
    recordedSteps openThenFixed [⟨.person 9, some 1⟩, ⟨.person 5, some 2⟩] = .ok recorded ∧
      Follows openThenFixed recorded ∧ recorded.map Step.approverId = [9, 5] := by
  have hresult : resolveLine "배포" (some [pinnedPolicy]) "deploy" (fun _ => some openThenFixed) none askedSteps =
      .ok (some 1, some [⟨.person 9, some 1⟩, ⟨.person 5, some 2⟩]) := by rfl
  have hrow : ([pinnedPolicy].find? fun p => p.actionType = "deploy") = some pinnedPolicy := by rfl
  have hfollows := pinned_line_followed hrow rfl rfl rfl none askedSteps hresult
  exact ⟨_, rfl, hfollows.2.1 _ rfl, rfl⟩

end XgenSdk.LinePolicy
