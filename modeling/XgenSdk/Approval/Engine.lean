import XgenSdk.Approval.Blocks
import XgenSdk.Lib.FirstMatch
import Mathlib.Data.List.Sort

/-! The approval state machine, without a database: building a line of
approvers, one decision, recomputing a request from its steps, and the
requester's cancellation. -/
namespace XgenSdk.Engine
open XgenSdk.Py XgenSdk.Models XgenSdk.FirstMatch

/-! Building a line. -/

/-- `approver_id` of an asked-for step as the code reads it: empty (an open
slot), something `int()` refuses, or a person. -/
inductive ApproverField where
  | blank
  | invalid
  | person (id : Int)
  deriving DecidableEq, Repr

/-- One asked-for step; `stepOrder` is `none` where it is missing or `int()`
refuses it, and the position counts instead. -/
structure Spec where
  approver : ApproverField
  stepOrder : Option Int
  deriving DecidableEq, Repr

structure Planned where
  approverId : Int
  stepOrder : Nat
  deriving DecidableEq, Repr

/-- A step of a line template; an open slot has no approver. -/
structure Slot where
  approverId : Option Int
  stepOrder : Nat
  deriving DecidableEq, Repr

structure Entry (β : Type) where
  given : Int
  idx : Nat
  approver : β

/-- The loop of `plan_steps` and `plan_line_slots`: `read` is what the loop
accepts as an approver and `person` whom it may not meet twice. -/
def collect {β : Type} (read : ApproverField → Option β) (person : β → Option Int) :
    Nat → List Int → List Spec → Except ApprovalError (List (Entry β))
  | _, _, [] => .ok []
  | idx, seen, raw :: rest =>
    match read raw.approver with
    | none => raise "결재자가 올바르지 않습니다"
    | some approver =>
      if (person approver).any seen.contains then
        raise "같은 사람을 결재선에 두 번 넣을 수 없습니다"
      else
        match collect read person (idx + 1) ((person approver).toList ++ seen) rest with
        | .error e => .error e
        | .ok entries => .ok (⟨max 1 (raw.stepOrder.getD (idx + 1)), idx, approver⟩ :: entries)

def entryLe {β : Type} (a b : Entry β) : Prop := a.given < b.given ∨ (a.given = b.given ∧ a.idx ≤ b.idx)

instance {β : Type} : DecidableRel (entryLe (β := β)) := fun _ _ => instDecidableOr

/-- Sort by the asked-for order, then number from 1 without gaps. -/
def lineUp {β γ : Type} (make : β → Nat → γ) (entries : List (Entry β)) : List γ :=
  ((entries.insertionSort entryLe).zipIdx 1).map fun e => make e.1.approver e.2

def readPerson : ApproverField → Option Int
  | .person id => some id
  | _ => none

def readSlot : ApproverField → Option (Option Int)
  | .blank => some none
  | .invalid => none
  | .person id => some (some id)

def planSteps (specs : List Spec) : Except ApprovalError (List Planned) :=
  if specs.isEmpty then raise "결재선에 최소 한 명이 필요합니다"
  else match collect readPerson some 0 [] specs with
    | .error e => .error e
    | .ok entries => .ok (lineUp Planned.mk entries)

def isOpenSlot (spec : Spec) : Bool := spec.approver = .blank

def planLineSlots (specs : List Spec) : Except ApprovalError (List Slot) :=
  if specs.isEmpty then raise "결재선에 최소 한 차례가 필요합니다"
  else match collect readSlot id 0 [] specs with
    | .error e => .error e
    | .ok entries => .ok (lineUp Slot.mk entries)

/-- A template step read back as an asked-for step. -/
def Slot.spec (s : Slot) : Spec :=
  ⟨match s.approverId with | none => .blank | some id => .person id, some s.stepOrder⟩

/-- The first fixed slot whose approver was replaced. -/
def replacedSlot (slots : List Slot) (chosen : List Planned) : Option Slot :=
  ((slots.zip chosen).find? fun p => p.1.approverId.any (· ≠ p.2.approverId)).map Prod.fst

/-- Fill the open slots of a fixed line with the picked persons. -/
def fillOpenSlots (template steps : List Spec) : Except ApprovalError (List Planned) :=
  match planLineSlots template with
  | .error e => .error e
  | .ok slots =>
    if steps.any isOpenSlot then raise "임의 차례의 결재자를 모두 지정하세요."
    else match planSteps steps with
      | .error e => .error e
      | .ok chosen =>
        if chosen.length ≠ slots.length then
          raise ("관리자가 정한 결재선이라 차례를 추가하거나 뺄 수 없습니다. (" ++
            toString slots.length ++ "차례)")
        else match replacedSlot slots chosen with
          | some s => raise (toString s.stepOrder ++ "번째 차례는 관리자가 정한 결재자라 바꿀 수 없습니다.")
          | none => .ok chosen

/-- The steps of a request at submission: only the first is `pending`. -/
def openSteps (planned : List Planned) : Except ApprovalError (List Step) :=
  match (planned.map Planned.stepOrder).min? with
  | none => raise "결재선에 최소 한 명이 필요합니다"
  | some first => .ok (planned.map fun s =>
      { stepOrder := s.stepOrder, approverId := s.approverId
        status := if s.stepOrder = first then .pending else .waiting })

/-! Deciding. -/

/-- `action` of a decision: any text, of which two mean something. -/
inductive Action where
  | approved
  | rejected
  | other (text : String)
  deriving DecidableEq, Repr

def terminal (status : Status) : Bool := status ≠ .pending

def terminalReason : Status → String
  | .approved => "이미 승인 완료된 결재입니다"
  | .rejected => "이미 반려된 결재입니다"
  | .canceled => "기안자가 회수한 결재입니다"
  | .pending => "이미 종결된 결재입니다"

def pendingOf (actorId : Int) (s : Step) : Bool := s.approverId = actorId && s.status = .pending

def stepOfActor (actorId : Int) (s : Step) : Bool := s.approverId = actorId

/-- The pending step of this actor, or else the first one. -/
def stepOf (steps : List Step) (actorId : Int) : Option Step :=
  (steps.find? (pendingOf actorId)).or (steps.find? (stepOfActor actorId))

/-- Edit the step that `stepOf` finds. -/
def editStepOf (steps : List Step) (actorId : Int) (f : Step → Step) : List Step :=
  if steps.any (pendingOf actorId) then modifyFirst (pendingOf actorId) f steps
  else modifyFirst (stepOfActor actorId) f steps

/-- `(note or "")[:500] or None`. -/
def clipNote (note : String) : Option String := orNone (clip 500 note)

def act (status : StepStatus) (now : Option Time) (note : String) (s : Step) : Step :=
  { s with status := status, actedAt := now, note := clipNote note }

/-- Steps that are not done, whose turn will not come any more. -/
def skipOpen (steps : List Step) : List Step :=
  steps.map fun s => if s.status = .waiting ∨ s.status = .pending then { s with status := .skipped } else s

def openAt (order : Nat) (steps : List Step) : List Step :=
  steps.map fun s => if s.stepOrder = order then { s with status := .pending } else s

def currentOf (request : Request) : Nat :=
  if request.currentStepOrder = 0 then 1 else request.currentStepOrder

/-- The names in the message about unfilled blocks, at most five. -/
def missingNames (mystep : Nat) (missing : List Block) : String :=
  String.intercalate ", " ((missing.take 5).map fun b =>
    let name := if b.label = "" then b.blockType else b.label
    if b.stepOrder = (mystep : Int) then name else toString (b.stepOrder + 1) ++ "차 " ++ name)

def decide (request : Request) (steps : List Step) (actorId : Int) (action : Action)
    (note : String) (now : Option Time) (blocks : List Block) :
    Except ApprovalError (Request × List Step) :=
  if action ≠ .approved ∧ action ≠ .rejected then raise "승인 또는 반려만 할 수 있습니다"
  else if terminal request.status then raise (terminalReason request.status)
  else match stepOf steps actorId with
    | none => raise "이 결재의 결재자가 아닙니다"
    | some mine =>
      if mine.status = .approved ∨ mine.status = .rejected then raise "이미 처리한 결재입니다"
      else if mine.status ≠ .pending then raise "아직 차례가 아닙니다"
      else
        let missing := Blocks.unfilledUpto blocks mine.stepOrder
        if action = .approved ∧ !missing.isEmpty then
          raise ("아직 채우지 않은 칸이 있습니다: " ++ missingNames mine.stepOrder missing)
        else if action = .rejected then
          -- one rejection ends the whole request
          .ok ({ request with status := .rejected, decidedAt := now },
            skipOpen (editStepOf steps actorId (act .rejected now note)))
        else
          let outSteps := editStepOf steps actorId (act .approved now note)
          match leastAbove (currentOf request) (outSteps.map Step.stepOrder) with
          | none => .ok ({ request with status := .approved, decidedAt := now }, outSteps)
          | some nxt => .ok ({ request with currentStepOrder := nxt }, openAt nxt outSteps)

/-- The state of a request as its stored steps tell it: status, next order,
time of the decision. -/
def advance (steps : List Step) (currentOrder : Nat) (now : Option Time) :
    Status × Nat × Option Time :=
  if steps.any fun s => s.status = .rejected then (.rejected, currentOrder, now)
  else
    let here := steps.filter fun s => s.stepOrder = currentOrder
    if here.isEmpty || here.any fun s => s.status ≠ .approved then (.pending, currentOrder, none)
    else match leastAbove currentOrder (steps.map Step.stepOrder) with
      | none => (.approved, currentOrder, now)
      | some nxt => (.pending, nxt, none)

/-- The requester takes the request back, as long as nobody approved. -/
def cancel (request : Request) (steps : List Step) (actorId : Int) (now : Option Time) :
    Except ApprovalError (Request × List Step) :=
  if request.requesterId.getD 0 ≠ actorId then raise "기안자만 회수할 수 있습니다"
  else if terminal request.status then raise (terminalReason request.status)
  else if steps.any fun s => s.status = .approved then
    raise "이미 승인한 결재자가 있어 회수할 수 없습니다"
  else .ok ({ request with status := .canceled, decidedAt := now }, skipOpen steps)

end XgenSdk.Engine
