import XgenSdk.Approval.Alone
import XgenSdk.Approval.Tables

/-! Deciding and canceling a request that may be handed on to a second line of
approvers. A call locks the rows of its request, so it is one step. -/
namespace XgenSdk.Followup
open XgenSdk.Py XgenSdk.Models XgenSdk.Tables XgenSdk.Store

/-! Arguments. -/

inductive FollowupAction where
  | connect
  | finalize
  | other (text : String)
  deriving DecidableEq, Repr

structure Decision where
  actorId : Int
  action : Engine.Action
  note : String := ""
  lineId : Option Nat := none
  picks : Option (List Engine.Spec) := none
  expectedStepOrder : Option Int
  expectedRevision : Option String := none
  followupAction : Option FollowupAction := none

/-- A row of `approval_request_followups`. -/
inductive Transition where
  | connect (selection : FollowupSelection)
  | finalize (completion : FollowupCompletion)

structure Dossier extends Ledger where
  followups : List Transition

/-- What a call finds around the request. -/
structure Setting where
  config : Config
  nextBlock : Nat
  now : Time
  site : Site
  tick : Nat → Time

/-! Reads. -/

def allowedIds (config : FollowupConfig) : List Nat := config.lineIds.getD config.candidates

def lastOrder (steps : List Step) : Nat := (steps.map Step.stepOrder).max?.getD 0

def asksOf (request : Request) : Bool :=
  request.followupConfig.any fun c => c.enabled.getD false || c.required.getD false

def needsSelection (l : Ledger) : Bool :=
  l.request.status = .pending && asksOf l.request && l.request.followupSelection.isNone &&
    !l.steps.isEmpty && l.request.currentStepOrder = lastOrder l.steps

/-- Only the requests of the second generation may end without a follow-up. -/
def canFinalize (config : FollowupConfig) : Bool :=
  config.version = some 2 && config.enabled = some true && config.required = some false

def prepareSteps (requesterId : Option Int) (line : Line) (picks : Option (List Engine.Spec)) :
    Except ApprovalError (List Engine.Planned) :=
  match Engine.planLineSlots (line.steps.map Engine.Slot.spec) with
  | .error e => .error e
  | .ok slots =>
    let template := slots.map Engine.Slot.spec
    match (match picks with
      | some picks => Engine.fillOpenSlots template picks
      | none => Engine.planSteps template) with
    | .error e => .error e
    | .ok chosen =>
      if chosen.any fun s => some s.approverId = requesterId then
        raise "기안자를 후속 결재자로 지정할 수 없습니다."
      else .ok chosen

/-- Why these approvers cannot act now. -/
def availability (config : Config) (requesterId : Option Int) (approvers : List (Option Int)) :
    Option String :=
  let users := (approvers.filterMap id).filter (· ≠ 0)
  if requesterId.any users.contains then some "기안자가 포함된 후속 결재선입니다."
  else if users.any fun u => !config.activeUsers.contains u then some "퇴사·비활성 결재자가 있습니다."
  else none

/-! Rows of the second segment. -/

def segmentSteps (offset : Nat) (chosen : List Engine.Planned) : List Step :=
  chosen.map fun s =>
    { stepOrder := offset + s.stepOrder, approverId := s.approverId, segmentOrder := 2 }

/-- The blocks of the followers only; the draft stays the first one. -/
def segmentBlocks (offset next : Nat) (form : Option Form) : List Block :=
  ((((form.map Form.blocks).getD []).filter fun b => b.stepIndex ≠ 0).zipIdx next).map fun e =>
    { id := e.2, stepOrder := offset + e.1.stepIndex
      blockType := Blocks.normalizeBlockType e.1.blockType, label := e.1.label
      config := e.1.config, required := e.1.required, sortOrder := e.1.sortOrder }

/-- `ORDER BY step_order, sort_order, id`. -/
def blockLe (a b : Block) : Prop :=
  a.stepOrder < b.stepOrder ∨ (a.stepOrder = b.stepOrder ∧
    (a.sortOrder < b.sortOrder ∨ (a.sortOrder = b.sortOrder ∧ a.id ≤ b.id)))

instance : DecidableRel blockLe := fun _ _ => instDecidableOr

def connected (setting : Setting) (d : Decision) (candidate : Candidate)
    (chosen : List Engine.Planned) (x : Dossier) : Dossier :=
  let offset := lastOrder x.steps
  let selection : FollowupSelection :=
    { lineId := candidate.line.id, lineName := candidate.line.name, startStepOrder := offset + 1
      selectedBy := d.actorId, selectedAt := setting.now, note := clip 500 d.note
      revision := d.expectedRevision }
  { x with
    request := { x.request with followupSelection := some selection }
    steps := x.steps ++ segmentSteps offset chosen
    blocks := (x.blocks ++ segmentBlocks offset setting.nextBlock candidate.form).insertionSort blockLe
    followups := x.followups ++ [.connect selection] }

def finalized (setting : Setting) (d : Decision) (x : Dossier) : Dossier :=
  let completion : FollowupCompletion :=
    { stepOrder := x.request.currentStepOrder, decidedBy := d.actorId, decidedAt := setting.now
      note := clip 500 d.note }
  { x with
    request := { x.request with followupCompletion := some completion }
    followups := x.followups ++ [.finalize completion] }

/-- An update of the step rows of one order. -/
def writeStep (s : Step) (rows : List Step) : List Step :=
  rows.map fun row =>
    if row.stepOrder = s.stepOrder then
      { row with status := s.status, actedAt := s.actedAt, note := s.note }
    else row

def sameMark (s t : Step) : Bool := s.status = t.status && s.actedAt = t.actedAt && s.note = t.note

/-- Only the steps that changed are written. -/
def writeSteps (old new : List Step) : List Step :=
  new.foldl (fun rows s =>
    if (old.reverse.find? fun t => t.stepOrder = s.stepOrder).any (sameMark s) then rows
    else writeStep s rows) old

/-! Calls. -/

def followupChanged : ApprovalError :=
  ⟨"후속 결재선이 변경되었습니다. 최신 구성을 다시 확인하고 선택해 주세요."⟩

/-- What a decision does besides deciding. -/
inductive Course where
  | plain
  | finalize
  | connect (lineId : Nat)
  deriving DecidableEq, Repr

def Decision.hasChoice (d : Decision) : Bool :=
  d.lineId.isSome || d.followupAction.isSome || d.picks.isSome || d.expectedRevision.isSome

def Decision.unknownAction (d : Decision) : Bool :=
  match d.followupAction with
  | some (.other _) => true
  | _ => false

/-- The course of the last approval of the first segment. -/
def lastCourse (config : FollowupConfig) (d : Decision) : Except ApprovalError Course :=
  if d.followupAction = some .finalize then
    if !canFinalize config then
      raise "상신 당시 후속 결재가 필수인 문서입니다. 후속 결재선을 선택하세요."
    else if d.lineId.isSome || d.picks.isSome || d.expectedRevision.isSome then
      raise "최종 승인과 후속 결재 요청을 동시에 선택할 수 없습니다."
    else .ok .finalize
  else match d.lineId with
    | none => raise (if canFinalize config then "최종 승인 또는 후속 결재 요청을 선택하세요."
        else "허용된 후속 결재선을 선택하세요.")
    | some lineId =>
      if lineId ∈ allowedIds config then .ok (.connect lineId)
      else raise "허용된 후속 결재선을 선택하세요."

def courseOf (l : Ledger) (d : Decision) : Except ApprovalError Course :=
  if d.unknownAction then raise "올바른 후속 결재 처리를 선택하세요."
  else if d.hasChoice && (!needsSelection l || d.action ≠ .approved) then
    raise "선행 결재선의 마지막 승인에서만 후속 결재선을 선택할 수 있습니다."
  else match l.request.followupConfig with
    | none => .ok .plain
    | some config =>
      if needsSelection l && d.action = .approved then lastCourse config d else .ok .plain

section Calls
-- `APPLY_LEASE_S`, and the hash of a candidate as it is now
variable (lease : Time) (revision : Candidate → String)

def connect (setting : Setting) (d : Decision) (lineId : Nat) (x : Dossier) :
    Except ApprovalError Dossier :=
  match loadCandidate setting.config lineId with
  | .error _ => .error followupChanged
  | .ok candidate =>
    if d.expectedRevision.getD "" = "" ∨ d.expectedRevision ≠ some (revision candidate) ∨
        (candidateError candidate (x.request.followupConfig.bind FollowupConfig.sourceLineId)).isSome then
      .error followupChanged
    else match prepareSteps x.request.requesterId candidate.line d.picks with
      | .error e => .error e
      | .ok chosen =>
        match availability setting.config x.request.requesterId
            (chosen.map fun s => some s.approverId) with
        | some e => raise e
        | none => .ok (connected setting d candidate chosen x)

def takeCourse (setting : Setting) (d : Decision) (x : Dossier) : Course → Except ApprovalError Dossier
  | .plain => .ok x
  | .finalize => .ok (finalized setting d x)
  | .connect lineId => connect revision setting d lineId x

/-- The rule's answer for the rows as they are. -/
def judge (setting : Setting) (d : Decision) (l : Ledger) : Except ApprovalError (Request × List Step) :=
  Engine.decide l.request l.steps d.actorId d.action d.note (some setting.now)
    (l.blocks.map normalized)

def writeJudgement (x : Dossier) (judgement : Request × List Step) : Dossier :=
  { x with
    request := { x.request with
      status := judgement.1.status
      currentStepOrder := judgement.1.currentStepOrder
      decidedAt := judgement.1.decidedAt }
    steps := writeSteps x.steps judgement.2 }

/-- The transaction of a decision. -/
def decisionRows (setting : Setting) (d : Decision) (x : Dossier) : Except ApprovalError Dossier := do
  if d.expectedStepOrder ≠ some (x.request.currentStepOrder : Int) then
    raise "결재 차례가 변경되었습니다. 새로고침 후 다시 확인하세요."
  -- the rule is asked before anything is appended
  let _ ← judge setting d x.toLedger
  let course ← courseOf x.toLedger d
  let y ← takeCourse revision setting d x course
  let judgement ← judge setting d y.toLedger
  return writeJudgement y judgement

/-- The hooks of a settled request, once the rows are committed. -/
def settled (setting : Setting) (x : Dossier) : Dossier :=
  { x with toLedger := (Alone.runAlone 0 setting.tick 0 (settleHooks lease setting.site x.toLedger)
      ⟨x.toLedger, setting.now, none, []⟩).2.toLedger }

def decision (setting : Setting) (d : Decision) (x : Dossier) : Except ApprovalError Dossier :=
  match decisionRows revision setting d x with
  | .error e => .error e
  | .ok y =>
    if y.request.status = .approved ∨ y.request.status = .rejected then .ok (settled lease setting y)
    else .ok y

def canceled (setting : Setting) (canceledBy : CanceledBy) (note : String) (x : Dossier) : Dossier :=
  { x with
    request := { x.request with
      status := .canceled, decidedAt := some setting.now, canceledBy := some canceledBy
      cancelNote := Engine.clipNote note }
    steps := Engine.skipOpen x.steps }

/-- Taken back by the requester, or by the system where there is no actor. -/
def cancel (setting : Setting) (actorId : Option Int) (note : String) (x : Dossier) :
    Except ApprovalError Dossier :=
  match actorId with
  | some actor =>
    match Engine.cancel x.request x.steps actor (some setting.now) with
    | .error e => .error e
    | .ok _ => .ok (settled lease setting (canceled setting .requester note x))
  | none =>
    if x.request.status ≠ .pending then .ok x
    else .ok (settled lease setting (canceled setting .system note x))

end Calls

end XgenSdk.Followup
