import XgenSdk.Approval.Store
import XgenSdk.Lib.Raising

/-! The tables behind the requests: forms with their steps and blocks, lines of
approvers, and who can still act. -/
namespace XgenSdk.Tables
open XgenSdk.Py XgenSdk.Models

structure FormStep where
  stepIndex : Int
  title : String
  guide : Option String

structure FormBlock where
  stepIndex : Int
  blockType : String
  label : String
  config : Option Json
  required : Bool
  sortOrder : Int

/-- A form with its rows in the order every query sorts them. -/
structure Form where
  id : Nat
  name : String
  isBuiltin : Bool
  isActive : Bool
  description : Option String := none
  notice : Option String := none
  steps : List FormStep
  blocks : List FormBlock

/-- A line of approvers, a template: its steps are copied at submission. -/
structure Line where
  id : Nat
  name : String
  ownerId : Option Int
  isShared : Bool
  isActive : Bool := true
  description : Option String := none
  formId : Option Nat := none
  followupRequired : Bool := false
  followupLineIds : List Nat := []
  steps : List Engine.Slot

/-- The default line of a kind of request. -/
structure Policy where
  actionType : String
  defaultLineId : Option Nat
  lineLocked : Bool

/-- The configuration; `activeUsers` are the users that can log in. -/
structure Config where
  forms : List Form
  lines : List Line
  policies : List Policy
  activeUsers : List Int

/-- The whole database, with the ids the next rows get. -/
structure Office extends Config where
  requests : List Store.Ledger
  clock : Time
  nextForm : Nat
  nextLine : Nat
  nextRequest : Nat
  nextBlock : Nat

def empty : Office where
  forms := []
  lines := []
  policies := []
  activeUsers := []
  requests := []
  clock := 0
  nextForm := 1
  nextLine := 1
  nextRequest := 1
  nextBlock := 1

abbrev Sql (α : Type) := Raising Office ApprovalError α

def fail {α : Type} (message : String) : Sql α := throw ⟨message⟩

/-! Reads. -/

/-- The greatest step index; 0 where there are no steps. -/
def maxIndex (steps : List FormStep) : Int := (steps.map FormStep.stepIndex).max?.getD 0

def getLine (config : Config) (lineId : Nat) : Option Line :=
  config.lines.find? fun l => l.id = lineId

def formRow (config : Config) (formId : Nat) : Option Form :=
  config.forms.find? fun f => f.id = formId

/-- A block as it is read: the current name of its kind. -/
def FormBlock.normalized (b : FormBlock) : FormBlock :=
  { b with blockType := Blocks.normalizeBlockType b.blockType }

/-- Retired blocks are kept in the table and read by nobody. -/
def Form.liveBlocks (f : Form) : List FormBlock :=
  (f.blocks.filter fun b => !Blocks.isRetired b.blockType).map FormBlock.normalized

def getForm (config : Config) (formId : Nat) : Option Form :=
  (formRow config formId).map fun f => { f with blocks := f.liveBlocks }

def Form.approverSteps (f : Form) : Int := maxIndex f.steps

/-! Candidates for a second segment. -/

/-- A line with the form it carries. -/
structure Candidate where
  line : Line
  form : Option Form

def loadCandidate (config : Config) (lineId : Nat) : Except ApprovalError Candidate :=
  match getLine config lineId with
  | none => raise "후속 결재선을 찾을 수 없습니다."
  | some line => .ok ⟨line, line.formId.bind (getForm config)⟩

def ownLine : String := "자기 결재선을 후속 결재선으로 선택할 수 없습니다."

/-- Why a line cannot be a destination. -/
def candidateError (c : Candidate) (sourceId : Option Nat) : Option String :=
  if sourceId = some c.line.id then some ownLine
  else if !c.line.isActive || !c.line.isShared then
    some "활성 공용 결재선만 후속으로 연결할 수 있습니다."
  else if c.line.followupRequired then
    some "후속 결재를 사용하는 결재선은 다시 연결할 수 없습니다. (최대 2개 결재선)"
  else if c.line.steps.isEmpty then some "결재 차례가 없는 결재선입니다."
  else if c.form.any fun f => !f.isActive then some "결재 양식이 비활성 상태입니다."
  else if ((c.form.map Form.approverSteps).getD 0) > c.line.steps.length then
    some "양식에 필요한 결재 차례가 부족합니다."
  else if c.form.any fun f => f.blocks.any fun b => b.stepIndex = 0 && b.required then
    some "필수 기안 항목이 있는 양식은 후속으로 연결할 수 없습니다. 후속 검토용 양식을 사용하세요."
  else none

/-- What an accepted candidate is. -/
theorem candidateError_none {c : Candidate} {sourceId : Option Nat}
    (h : candidateError c sourceId = none) :
    sourceId ≠ some c.line.id ∧ c.line.followupRequired = false ∧ c.line.steps ≠ [] ∧
      ∀ f, c.form = some f → f.approverSteps ≤ c.line.steps.length := by
  unfold candidateError at h
  split at h
  · cases h
  split at h
  · cases h
  split at h
  · cases h
  split at h
  · cases h
  split at h
  · cases h
  split at h
  · cases h
  rename_i hown _ hreq hsteps _ hlen
  refine ⟨hown, by simpa using hreq, by simpa using hsteps, ?_⟩
  intro f hf
  rw [hf] at hlen
  simpa using hlen

end XgenSdk.Tables
