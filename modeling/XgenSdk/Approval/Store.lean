import XgenSdk.Approval.Engine
import XgenSdk.Approval.Evaluation
import XgenSdk.Lib.Interleave

/-! The store's calls on one request, statement by statement, as they run on a
request without a follow-up configuration. -/
namespace XgenSdk.Store
open XgenSdk.Py XgenSdk.Models XgenSdk.Interleave

/-! The state. -/

inductive HookKind where
  | apply | reject
  deriving DecidableEq, Repr

/-- How far a run of the hooks has come; it is over once `applied_at` is written. -/
inductive HookPhase where
  | running | ended | stamped
  deriving DecidableEq, Repr

structure HookRun where
  kind : HookKind
  caller : Nat
  lease : Time
  phase : HookPhase
  deriving DecidableEq, Repr

/-- The rows of one request, in the order every query sorts them. -/
structure Ledger where
  request : Request
  steps : List Step
  blocks : List Block

/-- The rows, the clock, and a record of what happened: which call made the
last claim, and the hooks that ran. -/
structure World extends Ledger where
  clock : Time
  claimant : Option Nat
  hooks : List HookRun

def elapse (d : Time) (w : World) : World := { w with clock := w.clock + d }

/-! Statements. -/

/-- What `fill_block` reads of a block and its request. -/
structure BlockRow where
  stepOrder : Int
  blockType : String
  requesterId : Option Int
  status : Status

inductive Stmt where
  | now
  | selectRequest
  | selectSteps
  | selectBlocks
  | actStep (status : StepStatus) (now : Time) (note : Option String) (actorId : Int)
  | moveRequest (status : Status) (order : Nat) (decidedAt : Option Time) (seen : Nat)
  | skipSteps
  | openStep (order : Nat)
  | closeRequest (now : Time) (canceledBy : CanceledBy) (note : Option String)
  | claimApply (now stale : Time)
  | startHook (kind : HookKind) (lease : Time)
  | endHook
  | stampApplied (now : Time) (err : Option String)
  | selectBlock (blockId : Nat)
  | selectApproved
  | selectOwnStep (order : Int) (actorId : Int)
  | updateBlock (blockId : Nat) (data : Option Json) (actorId : Int) (now : Time)

/-- What the statement returns: rows, or whether a row was updated. -/
abbrev Reply : Stmt → Type
  | .now => Time
  | .selectRequest => Request
  | .selectSteps => List Step
  | .selectBlocks => List Block
  | .actStep .. => Bool
  | .moveRequest .. => Bool
  | .claimApply .. => Bool
  | .selectBlock _ => Option BlockRow
  | .selectApproved => Bool
  | .selectOwnStep .. => Option StepStatus
  | _ => Unit

/-- `_normalized`: the current name of the kind, and a retired block asks for nothing. -/
def normalized (b : Block) : Block :=
  { b with
    blockType := Blocks.normalizeBlockType b.blockType
    required := b.required && !Blocks.isRetired b.blockType }

def sameBlock (blockId : Nat) (b : Block) : Bool := b.id = blockId

def HookRun.advance (caller : Nat) (phase : HookPhase) (r : HookRun) : HookRun :=
  if r.caller = caller then { r with phase := phase } else r

/-- Whether the settlement of the request can be claimed. -/
def claimable (stale : Time) (r : Request) : Bool :=
  r.appliedAt.isNone && (match r.applyClaimedAt with | none => true | some t => t < stale)

/-- One statement of call `caller`. -/
def exec (caller : Nat) : (s : Stmt) → World → Reply s × World
  | .now, w => (w.clock, w)
  | .selectRequest, w => (w.request, w)
  | .selectSteps, w => (w.steps, w)
  | .selectBlocks, w => (w.blocks.map normalized, w)
  | .actStep status now note actorId, w =>
    (w.steps.any (Engine.pendingOf actorId),
      { w with steps := w.steps.map fun s =>
          if Engine.pendingOf actorId s then
            { s with status := status, actedAt := some now, note := note }
          else s })
  | .moveRequest status order decidedAt seen, w =>
    if w.request.status = .pending ∧ w.request.currentStepOrder = seen then
      (true, { w with request := { w.request with
        status := status, currentStepOrder := order, decidedAt := decidedAt } })
    else (false, w)
  | .skipSteps, w => ((), { w with steps := Engine.skipOpen w.steps })
  | .openStep order, w =>
    ((), { w with steps := w.steps.map fun s =>
      if s.stepOrder = order ∧ s.status = .waiting then { s with status := .pending } else s })
  | .closeRequest now canceledBy note, w =>
    ((), if w.request.status = .pending then
        { w with request := { w.request with
          status := .canceled, decidedAt := some now, canceledBy := some canceledBy
          cancelNote := note } }
      else w)
  | .claimApply now stale, w =>
    if claimable stale w.request then
      (true, { w with
        request := { w.request with applyClaimedAt := some now }, claimant := some caller })
    else (false, w)
  | .startHook kind lease, w => ((), { w with hooks := w.hooks ++ [⟨kind, caller, lease, .running⟩] })
  | .endHook, w => ((), { w with hooks := w.hooks.map (HookRun.advance caller .ended) })
  | .stampApplied now err, w =>
    ((), { w with
      request := if w.request.appliedAt.isNone then
          { w.request with appliedAt := some now, applyError := err }
        else w.request
      hooks := w.hooks.map (HookRun.advance caller .stamped) })
  | .selectBlock blockId, w =>
    ((w.blocks.find? (sameBlock blockId)).map fun b =>
      ⟨b.stepOrder, b.blockType, w.request.requesterId, w.request.status⟩, w)
  | .selectApproved, w => (w.steps.any fun s => s.status = .approved, w)
  | .selectOwnStep order actorId, w =>
    ((w.steps.find? fun s => (s.stepOrder : Int) = order && s.approverId = actorId).map Step.status, w)
  | .updateBlock blockId data actorId now, w =>
    ((), { w with blocks := w.blocks.map fun b =>
      if sameBlock blockId b then
        { b with data := data, filledBy := some actorId, filledAt := some now }
      else b })

/-! Calls. -/

abbrev Db (α : Type) := Prog Reply ApprovalError α

def stmt (s : Stmt) : Db (Reply s) := Prog.stmt s

def get : Db Ledger := do
  let request ← stmt .selectRequest
  let steps ← stmt .selectSteps
  let blocks ← stmt .selectBlocks
  return ⟨request, steps, blocks⟩

/-- What the process that runs a call has registered for this kind of request,
and what running its hooks answers. -/
structure Site where
  hasApply : Bool
  hasReject : Bool
  owner : String
  outcome : HookKind → String

def Site.mine (site : Site) : Bool := site.hasApply || site.hasReject || site.owner = "core"

section Calls
-- `APPLY_LEASE_S`
variable (lease : Time)

def hookOf (status : Status) : HookKind := if status = .approved then .apply else .reject

def finish (site : Site) (status : Status) : Db String := do
  let now : Time ← stmt .now
  let won ← stmt (.claimApply now (now - lease))
  if !won then return ""
  else
    let _ ← stmt (.startHook (hookOf status) now)
    let _ ← stmt .endHook
    let err := site.outcome (hookOf status)
    let done : Time ← stmt .now
    let _ ← stmt (.stampApplied done (orNone err))
    return err

def settleHooks (site : Site) (loaded : Ledger) : Db Unit :=
  if !site.mine then return ()
  else do
    let _ ← finish lease site loaded.request.status
    return ()

/-- What the call that moved the request does next. -/
def afterMove (site : Site) (status : Status) (next : Nat) : Db Unit :=
  match status with
  | .rejected => do
    let _ ← stmt .skipSteps
    let loaded ← get
    settleHooks lease site loaded
  | .pending => do
    let _ ← stmt (.openStep next)
    return ()
  | .approved => do
    let loaded ← get
    settleHooks lease site loaded
  | .canceled => return ()

def stepStatusOf : Engine.Action → StepStatus
  | .approved => .approved
  | _ => .rejected

def moveOn (site : Site) (order : Nat) (move : Status × Nat × Option Time) : Db Unit :=
  if move.1 ≠ .pending ∨ move.2.1 ≠ order then do
    let won ← stmt (.moveRequest move.1 move.2.1 move.2.2 order)
    if won then afterMove lease site move.1 move.2.1 else return ()
  else return ()

def decide (site : Site) (actorId : Int) (action : Engine.Action) (note : String)
    (followupArgs : Bool) : Db Ledger := do
  let current ← get
  if followupArgs then .raise ⟨"후속 결재가 설정되지 않은 결재입니다."⟩
  else
    let now : Time ← stmt .now
    let order := Engine.currentOf current.request
    let blocks ← stmt .selectBlocks
    let _ ← Prog.lift
      (Engine.decide current.request current.steps actorId action note (some now) blocks)
    let won ← stmt (.actStep (stepStatusOf action) now (Engine.clipNote note) actorId)
    if !won then .raise ⟨"이미 처리한 결재입니다"⟩
    else
      let fresh ← get
      let _ ← moveOn lease site order (Engine.advance fresh.steps order (some now))
      get

def closeAsCanceled (site : Site) (now : Time) (canceledBy : CanceledBy) (note : String) :
    Db Ledger := do
  let _ ← stmt .skipSteps
  let _ ← stmt (.closeRequest now canceledBy (orNone note))
  let out ← get
  let _ ← settleHooks lease site out
  get

def cancel (site : Site) (actorId : Int) : Db Ledger := do
  let current ← get
  let now : Time ← stmt .now
  let _ ← Prog.lift (Engine.cancel current.request current.steps actorId (some now))
  closeAsCanceled lease site now .requester ""

def systemCancel (site : Site) (note : String) : Db Ledger := do
  let current ← get
  if current.request.status ≠ .pending then return current
  else
    let now : Time ← stmt .now
    closeAsCanceled lease site now .system (clip 500 note)

def settle (site : Site) : Db Ledger := do
  let loaded ← get
  if loaded.request.appliedAt.isSome ∨ loaded.request.status = .pending then return loaded
  else
    let _ ← finish lease site loaded.request.status
    get

end Calls

/-- The value to store: checked against the block, if the list still has it. -/
def storedValue (tables : Evaluation.Tables) (blocks : List Block) (blockId : Nat) (data : Json) :
    Except ApprovalError Json :=
  match blocks.find? (sameBlock blockId) with
  | some full => Evaluation.accepted tables full data
  | none => .ok data

/-- A JSON column: `None` is NULL. -/
def column : Json → Option Json
  | .null => none
  | v => some v

/-- The write at the end of `fill_block`. -/
def writeBlock (tables : Evaluation.Tables) (blockId : Nat) (actorId : Int) (data : Json) :
    Db Unit := do
  let blocks ← stmt .selectBlocks
  let value ← Prog.lift (storedValue tables blocks blockId data)
  let now : Time ← stmt .now
  let _ ← stmt (.updateBlock blockId (column value) actorId now)
  return ()

/-- `fill_block` once it has read the block's row: the check, then the write. -/
def fillRow (tables : Evaluation.Tables) (blockId : Nat) (actorId : Int) (data : Json)
    (row : BlockRow) : Db (Nat × Int × String) :=
  if Blocks.isRetired row.blockType then .raise ⟨"Agent 기획서 기능이 종료되었습니다."⟩
  else if row.status ≠ .pending then .raise ⟨"이미 끝난 결재입니다"⟩
  else if row.stepOrder = 0 then
    if row.requesterId.getD 0 ≠ actorId then .raise ⟨"기안 칸은 기안자만 작성할 수 있습니다."⟩
    else do
      let acted ← stmt .selectApproved
      if acted then
        .raise ⟨"이미 승인한 결재자가 있어 기안 칸을 수정할 수 없습니다. 반려받은 뒤 다시 올리세요."⟩
      else
        let _ ← writeBlock tables blockId actorId data
        return (blockId, row.stepOrder, Blocks.normalizeBlockType row.blockType)
  else do
    let mine ← stmt (.selectOwnStep row.stepOrder actorId)
    match mine with
    | none => .raise ⟨"이 단계의 결재자가 아닙니다"⟩
    | some status =>
      if status ≠ .pending then .raise ⟨"아직 차례가 아닙니다"⟩
      else
        let _ ← writeBlock tables blockId actorId data
        return (blockId, row.stepOrder, Blocks.normalizeBlockType row.blockType)

def fillBlock (tables : Evaluation.Tables) (blockId : Nat) (actorId : Int) (data : Json) :
    Db (Nat × Int × String) := do
  let _ ← get
  let row ← stmt (.selectBlock blockId)
  match row with
  | none => .raise ⟨"칸을 찾을 수 없습니다"⟩
  | some row => fillRow tables blockId actorId data row

end XgenSdk.Store
