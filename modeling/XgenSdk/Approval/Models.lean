import XgenSdk.Py.Json

/-! Rows of the approval tables, with the columns the modelled functions read
or write. A request's steps and blocks are lists beside it, in the order every
query sorts them. Times are ticks of one clock; a JSON text column is the value
it holds, `none` for NULL. -/
namespace XgenSdk.Models
open XgenSdk.Py

/-- `approval_requests.status`. -/
inductive Status where
  | pending | approved | rejected | canceled
  deriving DecidableEq, Repr

/-- `approval_request_steps.status`. -/
inductive StepStatus where
  | waiting | pending | approved | rejected | skipped
  deriving DecidableEq, Repr

/-- `canceled_by`. -/
inductive CanceledBy where
  | requester | system
  deriving DecidableEq, Repr

abbrev Time := Nat

/-- What a rule violation tells the user. -/
structure ApprovalError where
  message : String
  deriving DecidableEq, Repr

def raise {α : Type} (message : String) : Except ApprovalError α := .error ⟨message⟩

/-- A snapshotted step of a request. -/
structure Step where
  stepOrder : Nat
  approverId : Int
  status : StepStatus := .waiting
  actedAt : Option Time := none
  note : Option String := none
  segmentOrder : Nat := 1
  deriving DecidableEq, Repr

/-- A snapshotted form block of a request. -/
structure Block where
  id : Nat
  stepOrder : Int
  blockType : String
  label : String
  config : Option Json := none
  required : Bool := true
  sortOrder : Int := 1
  data : Option Json := none
  filledBy : Option Int := none
  filledAt : Option Time := none

/-- `followup_config`: the destinations a submission fixed. A missing key is
`none`; configs of the first generation carry `required` and `candidates`,
later ones `version`, `enabled` and `lineIds`. Neither is ever written for a
line that does not ask for a follow-up. -/
structure FollowupConfig where
  version : Option Int
  enabled : Option Bool
  required : Option Bool
  sourceLineId : Option Nat
  lineIds : Option (List Nat)
  candidates : List Nat
  asks : enabled = some true ∨ required = some true
  deriving DecidableEq, Repr

/-- A connection that may be made without having to be. -/
theorem asks_enabled : some true = some true ∨ some false = some true := Or.inl rfl

/-- `followup_selection`: the connection that was made. -/
structure FollowupSelection where
  lineId : Nat
  lineName : String
  startStepOrder : Nat
  selectedBy : Int
  selectedAt : Time
  note : String
  revision : Option String
  deriving DecidableEq, Repr

/-- `followup_completion`: the decision to end without a connection. -/
structure FollowupCompletion where
  stepOrder : Nat
  decidedBy : Int
  decidedAt : Time
  note : String
  deriving DecidableEq, Repr

structure Request where
  id : Nat
  title : String
  actionType : String
  requesterId : Option Int
  lineId : Option Nat := none
  formId : Option Nat := none
  formName : Option String := none
  followupConfig : Option FollowupConfig := none
  followupSelection : Option FollowupSelection := none
  followupCompletion : Option FollowupCompletion := none
  status : Status := .pending
  currentStepOrder : Nat := 1
  decidedAt : Option Time := none
  targetRef : Option String := none
  canceledBy : Option CanceledBy := none
  cancelNote : Option String := none
  appliedAt : Option Time := none
  applyError : Option String := none
  applyClaimedAt : Option Time := none
  deriving DecidableEq, Repr

end XgenSdk.Models
