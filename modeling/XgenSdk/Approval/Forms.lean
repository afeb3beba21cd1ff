import XgenSdk.Approval.Tables
import Mathlib.Data.List.Dedup

/-! Editing forms: the steps of a form, and the blocks its people fill in. -/
namespace XgenSdk.Forms
open XgenSdk.Py XgenSdk.Models XgenSdk.Tables

/-! Asked-for forms. A missing index or number is 0, a missing text is empty. -/

structure GivenStep where
  stepIndex : Int
  title : String
  guide : String

structure GivenBlock where
  stepIndex : Int
  blockType : String
  label : String
  config : Option Json
  required : Bool
  sortOrder : Int

structure NewForm where
  name : String
  description : String := ""
  notice : String := ""
  isBuiltin : Bool
  steps : List GivenStep
  blocks : List GivenBlock

structure FormEdit where
  name : Option String
  description : Option String := none
  notice : Option String := none
  isActive : Option Bool
  steps : Option (List GivenStep)
  blocks : Option (List GivenBlock)

/-! The shape of a form. -/

/-- The distinct indices in ascending order. -/
def indices (steps : List GivenStep) : List Int :=
  (steps.map GivenStep.stepIndex).dedup.insertionSort (· ≤ ·)

def upTo (n : Nat) : List Int := (List.range n).map Int.ofNat

def ordinal (i : Int) : String := toString (i + 1) ++ "차"

/-- Steps are numbered from 0 without gaps, and somebody approves. -/
def checkIndices (idx : List Int) : Except ApprovalError Unit :=
  match idx with
  | [] => raise "기안 단계와 결재자 단계를 추가하세요."
  | first :: _ =>
    let last := idx.getLast?.getD 0
    if first ≠ 0 then raise "1차 기안 단계가 없습니다."
    else if idx ≠ upTo idx.length then
      raise ("중간 단계가 비어 있습니다: " ++ String.intercalate ", "
        (((upTo (last + 1).toNat).filter fun i => !idx.contains i).map ordinal))
    else if last < 1 then raise "결재자 단계를 하나 이상 추가하세요."
    else .ok ()

/-- A block stands on a step of the form, and has a known kind. -/
def checkBlock (idx : List Int) (b : GivenBlock) : Except ApprovalError GivenBlock :=
  let kind := Blocks.normalizeBlockType b.blockType
  if !Blocks.isKnown kind then raise ("알 수 없는 칸 종류입니다: " ++ kind)
  else if b.stepIndex ∉ idx then
    raise (ordinal b.stepIndex ++ " 단계가 없어 칸을 둘 수 없습니다: " ++
      (if b.label = "" then kind else b.label))
  else .ok { b with blockType := kind }

def checkBlocks (idx : List Int) : List GivenBlock → Except ApprovalError (List GivenBlock)
  | [] => .ok []
  | b :: rest =>
    match checkBlock idx b with
    | .error e => .error e
    | .ok checked =>
      match checkBlocks idx rest with
      | .error e => .error e
      | .ok others => .ok (checked :: others)

/-- The blocks of each step are numbered from 1, in the asked-for order. -/
def renumber (idx : List Int) (blocks : List GivenBlock) : List GivenBlock :=
  idx.flatMap fun step =>
    (((blocks.filter fun b => b.stepIndex = step).insertionSort
      fun a b => a.sortOrder ≤ b.sortOrder).zipIdx 1).map fun e => { e.1 with sortOrder := e.2 }

def validateFormShape (steps : List GivenStep) (blocks : List GivenBlock) :
    Except ApprovalError (List GivenBlock) :=
  let idx := indices steps
  match checkIndices idx with
  | .error e => .error e
  | .ok _ =>
    match checkBlocks idx blocks with
    | .error e => .error e
    | .ok checked => .ok (renumber idx checked)

/-! Rows. -/

def defaultStepTitle (stepIndex : Int) : String :=
  if stepIndex = 0 then "1차 기안" else ordinal stepIndex ++ " 결재"

def formStep (s : GivenStep) : FormStep where
  stepIndex := s.stepIndex
  title := clip 100 (if s.title = "" then defaultStepTitle s.stepIndex else s.title)
  guide := orNone (clip 1000 s.guide)

def formBlock (b : GivenBlock) : FormBlock where
  stepIndex := b.stepIndex
  blockType := b.blockType
  label := clip 200
    (if b.label = "" then ((Blocks.spec b.blockType).map Blocks.BlockSpec.label).getD "" else b.label)
  config := b.config
  required := b.required
  sortOrder := b.sortOrder

def onForm (formId : Nat) (g : Form → Form) (o : Office) : Office :=
  { o with forms := o.forms.map fun f => if f.id = formId then g f else f }

/-- What the database says to a second step of one index, whatever its words. -/
def duplicateStep : String := "DB 오류"

def insertSteps (formId : Nat) : List GivenStep → Sql Unit
  | [] => return ()
  | s :: rest => do
    let o ← Raising.read
    if (formRow o.toConfig formId).any fun f => f.steps.any fun t => t.stepIndex = s.stepIndex then
      fail duplicateStep
    else
      Raising.write (onForm formId fun f => { f with steps := f.steps ++ [formStep s] })
      insertSteps formId rest

def writeSteps (formId : Nat) (steps : List GivenStep) : Sql Unit := do
  Raising.write (onForm formId fun f => { f with steps := [] })
  insertSteps formId (steps.insertionSort fun a b => a.stepIndex ≤ b.stepIndex)

/-- Retired rows are archived and stay. -/
def writeBlocks (formId : Nat) (blocks : List GivenBlock) : Sql Unit :=
  Raising.write (onForm formId fun f =>
    { f with blocks := (f.blocks.filter fun b => Blocks.isRetired b.blockType) ++ blocks.map formBlock })

def writeContent (formId : Nat) (steps : List GivenStep) (blocks : List GivenBlock) : Sql Unit := do
  writeSteps formId steps
  writeBlocks formId blocks

/-! Creating and editing. -/

def createForm (args : NewForm) : Sql Nat := do
  if strip args.name = "" then fail "양식 이름이 필요합니다"
  else
    let checked ← Raising.lift (validateFormShape args.steps args.blocks)
    let o ← Raising.read
    let form : Form :=
      { id := o.nextForm, name := clip 100 (strip args.name), isBuiltin := args.isBuiltin
        isActive := true, description := orNone (clip 500 (strip args.description))
        notice := orNone (strip args.notice), steps := [], blocks := [] }
    Raising.write fun o => { o with forms := o.forms ++ [form], nextForm := o.nextForm + 1 }
    writeContent form.id args.steps checked
    return form.id

def linesUsing (config : Config) (formId : Nat) : List Line :=
  config.lines.filter fun l => l.formId = some formId

/-- A form that lines use is not taken out of use. -/
def guardUnused (config : Config) (formId : Nat) (isActive : Option Bool) : Except ApprovalError Unit :=
  let used := linesUsing config formId
  if isActive = some false ∧ !used.isEmpty then
    raise ("이 양식을 쓰는 결재선이 있어 내릴 수 없습니다: " ++
      String.intercalate ", " ((used.take 5).map Line.name))
  else .ok ()

/-- A form may not outgrow the lines that use it. -/
def guardLinesStillFit (config : Config) (formId : Nat) (steps : List GivenStep) :
    Except ApprovalError Unit :=
  let need := ((steps.map GivenStep.stepIndex).max?).getD 0
  let short := (linesUsing config formId).filter fun l => (l.steps.length : Int) < need
  if short.isEmpty then .ok ()
  else raise ("결재자가 " ++ toString need ++ "명보다 적은 결재선이 이 양식을 쓰고 있습니다: " ++
    String.intercalate ", " ((short.take 5).map fun l => l.name ++ "(" ++ toString l.steps.length ++ "명)"))

def stepAgain (s : FormStep) : GivenStep := ⟨s.stepIndex, s.title, s.guide.getD ""⟩

def blockAgain (b : FormBlock) : GivenBlock :=
  ⟨b.stepIndex, b.blockType, b.label, b.config, b.required, b.sortOrder⟩

/-- Steps and blocks change together. -/
def replaceContent (formId : Nat) (steps : List GivenStep) (blocks : List GivenBlock) : Sql Unit := do
  let checked ← Raising.lift (validateFormShape steps blocks)
  let o ← Raising.read
  let _ ← Raising.lift (guardLinesStillFit o.toConfig formId steps)
  writeContent formId steps checked

def editForm (args : FormEdit) (f : Form) : Form :=
  { f with
    name := (args.name.map fun name => clip 100 (strip name)).getD f.name
    description := (args.description.map fun text => orNone (clip 500 (strip text))).getD f.description
    notice := (args.notice.map fun text => orNone (strip text)).getD f.notice
    isActive := args.isActive.getD f.isActive }

def updateForm (formId : Nat) (args : FormEdit) : Sql Unit := do
  let o ← Raising.read
  match getForm o.toConfig formId with
  | none => fail "양식을 찾을 수 없습니다"
  | some form =>
    if form.isBuiltin then fail "기본 양식은 수정할 수 없습니다. 복사해서 사용하세요."
    else
      let _ ← Raising.lift (guardUnused o.toConfig formId args.isActive)
      if args.steps.isSome || args.blocks.isSome then
        replaceContent formId (args.steps.getD (form.steps.map stepAgain))
          (args.blocks.getD (form.blocks.map blockAgain))
      if args.name.any fun name => strip name = "" then fail "양식 이름이 필요합니다"
      else Raising.write (onForm formId (editForm args))

/-- A form asks for no more approvers than the line has. -/
def guardLineCovers (config : Config) (lineId : Nat) (formId : Option Nat) :
    Except ApprovalError Unit :=
  match formId with
  | none => .ok ()
  | some id =>
    match getForm config id with
    | none => raise "양식을 찾을 수 없습니다"
    | some form =>
      let count := ((getLine config lineId).map fun l => l.steps.length).getD 0
      if form.approverSteps ≤ count then .ok ()
      else raise ("이 양식에는 결재자 " ++ toString form.approverSteps ++ "명이 필요합니다.")

/-- Attach a form to a line, or take it off. -/
def setLineForm (lineId : Nat) (formId : Option Nat) : Sql Unit := do
  let o ← Raising.read
  let _ ← Raising.lift (guardLineCovers o.toConfig lineId formId)
  Raising.write fun o => { o with lines := o.lines.map fun l =>
    if l.id = lineId then { l with formId := formId } else l }

end XgenSdk.Forms
