import XgenSdk.Approval.Tables

/-! Editing lines of approvers, with the follow-up lines a line may name. -/
namespace XgenSdk.Lines
open XgenSdk.Py XgenSdk.Models XgenSdk.Tables

/-! Creating and editing. -/

structure NewLine where
  name : String
  description : String := ""
  ownerId : Option Int
  isShared : Bool
  steps : List Engine.Spec

structure LineEdit where
  name : Option String
  description : Option String := none
  isShared : Option Bool
  steps : Option (List Engine.Spec)

def createLine (args : NewLine) : Sql Nat := do
  let planned ← Raising.lift (Engine.planLineSlots args.steps)
  let o ← Raising.read
  let line : Line :=
    { id := o.nextLine, name := clip 100 (strip args.name)
      description := orNone (clip 500 (strip args.description)), ownerId := args.ownerId
      isShared := args.isShared, steps := planned }
  Raising.write fun o => { o with lines := o.lines ++ [line], nextLine := o.nextLine + 1 }
  return line.id

def onLine (lineId : Nat) (f : Line → Line) (o : Office) : Office :=
  { o with lines := o.lines.map fun l => if l.id = lineId then f l else l }

/-- A line may not become shorter than its form. -/
def guardFormStillFits (config : Config) (line : Line) (approverCount : Nat) :
    Except ApprovalError Unit :=
  match line.formId with
  | none => .ok ()
  | some formId =>
    let need := ((formRow config formId).map Form.approverSteps).getD 0
    if need ≤ approverCount then .ok ()
    else
      let name := ((formRow config formId).map Form.name).getD ""
      raise ("양식 [" ++ (if name = "" then "#" ++ toString formId else name) ++ "]에 결재자 " ++
        toString need ++ "명이 필요해 줄일 수 없습니다. 양식을 먼저 해제하세요.")

def editRow (args : LineEdit) (l : Line) : Line :=
  { l with
    name := (args.name.map fun name => clip 100 (strip name)).getD l.name
    description := (args.description.map fun text => orNone (clip 500 (strip text))).getD l.description
    isShared := args.isShared.getD l.isShared }

/-- New steps replace the old ones as a whole. -/
def replaceSteps (line : Line) (specs : List Engine.Spec) : Sql Unit := do
  let planned ← Raising.lift (Engine.planLineSlots specs)
  let o ← Raising.read
  let _ ← Raising.lift (guardFormStillFits o.toConfig line planned.length)
  Raising.write (onLine line.id fun l => { l with steps := planned })

def updateLine (lineId : Nat) (args : LineEdit) : Sql (Option Line) := do
  let o ← Raising.read
  match getLine o.toConfig lineId with
  | none => fail "결재선을 찾을 수 없습니다"
  | some line =>
    if args.name.any fun name => strip name = "" then fail "결재선 이름이 필요합니다"
    else
      Raising.write (onLine lineId (editRow args))
      let _ ← (match args.steps with
        | none => return ()
        | some specs => replaceSteps line specs : Sql Unit)
      let o ← Raising.read
      return getLine o.toConfig lineId

def clearDefault (lineId : Nat) (p : Policy) : Policy :=
  if p.defaultLineId = some lineId then { p with defaultLineId := none, lineLocked := false } else p

/-- Deleting a line only takes it out of use. `label` is the name of a kind of request. -/
def deleteLine (label : String → String) (lineId : Nat) (actorId : Int) (isSuperuser force : Bool) :
    Sql Unit := do
  let o ← Raising.read
  match getLine o.toConfig lineId with
  | none => fail "결재선을 찾을 수 없습니다"
  | some line =>
    if !isSuperuser && line.ownerId.getD 0 ≠ actorId then fail "내가 만든 결재선만 삭제할 수 있습니다."
    else
      let usedBy := (o.policies.filter fun p => p.defaultLineId = some lineId).map Policy.actionType
      if !usedBy.isEmpty && !force then
        fail ("이 결재선을 기본 결재선으로 쓰는 행위가 있습니다: " ++
          String.intercalate ", " (usedBy.map label))
      else
        Raising.write fun o => { o with policies := o.policies.map (clearDefault lineId) }
        Raising.write (onLine lineId fun l => { l with isActive := false })

/-! The follow-up configuration of a line. -/

/-- The first allowed line that cannot be a destination. -/
def checkAllowed (config : Config) (sourceId : Option Nat) (kept : List Nat) :
    List Nat → Except ApprovalError Unit
  | [] => .ok ()
  | lineId :: rest =>
    if sourceId = some lineId then raise ownLine
    else if kept.contains lineId then checkAllowed config sourceId kept rest
    else match loadCandidate config lineId with
      | .error e => .error e
      | .ok candidate =>
        match candidateError candidate sourceId with
        | some text => raise text
        | none => checkAllowed config sourceId kept rest

/-- Whether another line with a follow-up names this one. -/
def usedAsDestination (config : Config) (sourceId : Option Nat) : Bool :=
  match sourceId with
  | none => false
  | some id => config.lines.any fun l =>
      l.followupRequired && l.id ≠ id && l.followupLineIds.contains id

def validateConfig (config : Config) (sourceId : Option Nat) (required : Bool)
    (ids kept : List Nat) : Except ApprovalError (List Nat) :=
  if !required then .ok []
  else
    let allowed := ids.eraseDups
    if allowed.isEmpty then raise "후속 결재선을 하나 이상 선택하세요."
    else match checkAllowed config sourceId kept allowed with
      | .error e => .error e
      | .ok _ =>
        if usedAsDestination config sourceId then
          raise "다른 결재선의 후속 후보로 사용 중입니다. 해당 연결을 먼저 해제하세요."
        else .ok allowed

/-- Which line to save: a new one, or an edit of an old one. -/
inductive Target where
  | new (args : NewLine)
  | edit (lineId : Nat) (args : LineEdit)

def Target.lineId : Target → Option Nat
  | .new _ => none
  | .edit lineId _ => some lineId

def saveLine (target : Target) (followupRequired : Option Bool)
    (followupLineIds : Option (List Nat)) : Sql (Option Line) :=
  Raising.transaction do
    let o ← Raising.read
    let old := target.lineId.bind (getLine o.toConfig)
    let required := followupRequired.getD (old.any Line.followupRequired)
    let oldIds := (old.map Line.followupLineIds).getD []
    let kept := if old.any Line.followupRequired then oldIds else []
    let ids ← Raising.lift
      (validateConfig o.toConfig target.lineId required (followupLineIds.getD oldIds) kept)
    let lineId ← (match target with
      | .new args => createLine args
      | .edit lineId args => do
        let _ ← updateLine lineId args
        return lineId : Sql Nat)
    Raising.write (onLine lineId fun l => { l with followupRequired := required, followupLineIds := ids })
    let o ← Raising.read
    return getLine o.toConfig lineId

end XgenSdk.Lines
