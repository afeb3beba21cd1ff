import XgenSdk.Approval.Lines

/-! Submitting a request: checks, the rows of the request, and the values of
the draft blocks that came along. -/
namespace XgenSdk.Submit
open XgenSdk.Py XgenSdk.Models XgenSdk.Tables XgenSdk.Store

/-- The kinds of request this process knows. -/
structure Registry where
  registered : String → Bool
  userSubmittable : String → Bool

/-- A value for a draft block, named by its place in the form. -/
structure DraftValue where
  stepIndex : Int
  sortOrder : Int
  data : Json

structure Submission where
  requesterId : Int
  title : String
  actionType : String
  lineId : Option Nat
  steps : List Engine.Spec
  targetRef : Option String
  blockValues : List DraftValue
  viaUserApi : Bool

/-! Reads. -/

/-- An id that is neither missing nor zero. -/
def givenId (id : Option Nat) : Option Nat := id.filter (· ≠ 0)

def refOf (args : Submission) : Option String :=
  (args.targetRef.filter (· ≠ "")).map fun ref => clip 200 (strip ref)

/-- The latest pending request of this kind about this target. -/
def findPendingForTarget (o : Office) (actionType ref : String) : Option Request :=
  if ref = "" then none
  else (o.requests.map Ledger.request).reverse.find? fun r =>
    r.actionType = actionType && r.targetRef = some ref && r.status = .pending

def getRequest (o : Office) (requestId : Nat) : Except ApprovalError Ledger :=
  match o.requests.find? fun l => l.request.id = requestId with
  | none => raise "결재를 찾을 수 없습니다"
  | some l => .ok l

/-- The form a line carries. -/
def lineForm (config : Config) (lineId : Option Nat) : Option Form :=
  ((givenId lineId).bind (getLine config)).bind fun line => line.formId.bind (formRow config)

def guardStepsCoverForm (form : Option Form) (approverCount : Nat) : Except ApprovalError Unit :=
  match form with
  | none => .ok ()
  | some f =>
    if f.approverSteps ≤ approverCount then .ok ()
    else raise ("양식 [" ++ (if f.name = "" then toString f.id else f.name) ++ "]에는 결재자 " ++
      toString f.approverSteps ++ "명이 필요합니다.")

/-- The destinations a submission fixes. -/
def followupSnapshot (config : Config) (lineId : Option Nat) : Option FollowupConfig :=
  match (givenId lineId).bind (getLine config) with
  | none => none
  | some source =>
    if !source.followupRequired then none
    else
      let ids := source.followupLineIds.eraseDups.filter (· ≠ source.id)
      if ids.isEmpty then none
      else some { version := some 2, enabled := some true, required := some false
                  sourceLineId := some source.id, lineIds := some ids, candidates := []
                  asks := asks_enabled }

/-- The asked-for steps, or those of the line. -/
def specsOf (config : Config) (args : Submission) : Except ApprovalError (List Engine.Spec) :=
  if !args.steps.isEmpty then .ok args.steps
  else match givenId args.lineId with
    | none => raise "결재선을 지정하세요"
    | some lineId =>
      let specs := (((getLine config lineId).map Line.steps).getD []).map Engine.Slot.spec
      if specs.isEmpty then raise "결재선이 비어 있습니다"
      else if specs.any Engine.isOpenSlot then raise "임의 차례의 결재자를 지정하세요."
      else .ok specs

/-! Rows. -/

/-- Everything the checks worked out. -/
structure Prepared where
  steps : List Step
  form : Option Form
  followupConfig : Option FollowupConfig
  ref : Option String

/-- All checks before the first row is written. -/
def prepare (registry : Registry) (args : Submission) (o : Office) : Except ApprovalError Prepared :=
  if strip args.title = "" then raise "제목이 필요합니다"
  else if !registry.registered args.actionType then
    raise ("등록되지 않은 결재 종류입니다: " ++ args.actionType)
  else if args.viaUserApi && !registry.userSubmittable args.actionType then
    raise "이 종류는 해당 기능 화면에서만 올릴 수 있습니다."
  else match (refOf args).bind (findPendingForTarget o args.actionType) with
    | some dup => raise ("이미 진행 중인 결재(#" ++ toString dup.id ++ ")가 있습니다.")
    | none => do
      let specs ← specsOf o.toConfig args
      let planned ← Engine.planSteps specs
      let steps ← Engine.openSteps planned
      if steps.any fun s => s.approverId = args.requesterId then
        raise "자기 자신을 결재선에 넣을 수 없습니다"
      else
        let form := lineForm o.toConfig args.lineId
        let _ ← guardStepsCoverForm form steps.length
        return ⟨steps, form, followupSnapshot o.toConfig args.lineId, refOf args⟩

def requestRow (args : Submission) (p : Prepared) (requestId : Nat) : Request :=
  { id := requestId, title := clip 200 (strip args.title), actionType := args.actionType
    requesterId := some args.requesterId, lineId := args.lineId, formId := p.form.map Form.id
    formName := p.form.map Form.name, followupConfig := p.followupConfig
    currentStepOrder := ((p.steps.map Step.stepOrder).min?).getD 1, targetRef := p.ref }

/-- The block rows of a form, for the ids from `next` on. -/
def snapshotBlocks (next : Nat) (form : Option Form) : List Block :=
  match form with
  | none => []
  | some f => (f.liveBlocks.zipIdx next).map fun e =>
      { id := e.2, stepOrder := e.1.stepIndex, blockType := e.1.blockType, label := e.1.label
        config := e.1.config, required := e.1.required, sortOrder := e.1.sortOrder }

def onRequest (requestId : Nat) (f : Ledger → Ledger) (o : Office) : Office :=
  { o with requests := o.requests.map fun l => if l.request.id = requestId then f l else l }

def insertRequest (row : Request) (o : Office) : Office :=
  { o with requests := o.requests ++ [⟨row, [], []⟩], nextRequest := o.nextRequest + 1 }

def insertSteps (requestId : Nat) (steps : List Step) : Office → Office :=
  onRequest requestId fun l => { l with steps := l.steps ++ steps }

def insertBlocks (requestId : Nat) (blocks : List Block) (o : Office) : Office :=
  { onRequest requestId (fun l => { l with blocks := l.blocks ++ blocks }) o with
    nextBlock := o.nextBlock + blocks.length }

/-- The draft block of this number; of two with one number, the later one. -/
def draftBlock (blocks : List Block) (sortOrder : Int) : Option Block :=
  (blocks.filter fun b => b.stepOrder = 0).reverse.find? fun b => b.sortOrder = sortOrder

def writeDraft (requestId : Nat) (blockId : Nat) (data : Option Json) (requesterId : Int) (now : Time) :
    Office → Office :=
  onRequest requestId fun l => { l with blocks := l.blocks.map fun b =>
    if b.id = blockId then { b with data := data, filledBy := some requesterId, filledAt := some now }
    else b }

/-- What one draft value becomes, if its block takes it. -/
def draftValue (tables : Evaluation.Tables) (blocks : List Block) (v : DraftValue) :
    Except ApprovalError (Nat × Json) :=
  if v.stepIndex ≠ 0 then raise "상신할 때는 기안 칸만 채울 수 있습니다."
  else match draftBlock blocks v.sortOrder with
    | none => raise "이 양식에 없는 칸입니다."
    | some block =>
      match Evaluation.accepted tables block v.data with
      | .error e => .error e
      | .ok value => .ok (block.id, value)

def applyDraftValues (tables : Evaluation.Tables) (requestId : Nat) (requesterId : Int) (now : Time)
    (blocks : List Block) : List DraftValue → Sql Unit
  | [] => return ()
  | v :: rest => do
    let (blockId, value) ← Raising.lift (draftValue tables blocks v)
    Raising.write (writeDraft requestId blockId (column value) requesterId now)
    applyDraftValues tables requestId requesterId now blocks rest

def submit (registry : Registry) (tables : Evaluation.Tables) (args : Submission) : Sql Ledger := do
  let o ← Raising.read
  let p ← Raising.lift (prepare registry args o)
  let requestId := o.nextRequest
  Raising.write (insertRequest (requestRow args p requestId))
  Raising.write (insertSteps requestId p.steps)
  Raising.write (insertBlocks requestId (snapshotBlocks o.nextBlock p.form))
  if !args.blockValues.isEmpty then
    let o ← Raising.read
    let l ← Raising.lift (getRequest o requestId)
    applyDraftValues tables requestId args.requesterId o.clock (l.blocks.map normalized) args.blockValues
  let o ← Raising.read
  Raising.lift (getRequest o requestId)

end XgenSdk.Submit
