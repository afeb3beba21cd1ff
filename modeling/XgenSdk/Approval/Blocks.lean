import XgenSdk.Approval.Models

/-! Block kinds of approval forms: when a block counts as filled, which values
it accepts, and which required blocks stop an approval. -/
namespace XgenSdk.Blocks
open XgenSdk.Py XgenSdk.Models

def text : String := "text"
def attachments : String := "attachments"
def agentDevPlan : String := "agent_dev_plan"
def evaluation : String := "evaluation"

def legacyBlockTypes : List (String × String) := [("risk_assessment", evaluation)]

/-- The current name of a stored kind; a name that is not an old one is kept. -/
def normalizeBlockType (blockType : String) : String :=
  ((legacyBlockTypes.find? fun e => e.1 = blockType).map Prod.snd).getD blockType

structure BlockSpec where
  blockType : String
  label : String
  isFilled : Json → Bool

def nonemptyText (data : Json) : Bool :=
  (if data.isObj then data.get "text" else data).hasText

def hasFiles (data : Json) : Bool := !(data.get "attachment_ids").items.isEmpty

/-- A number that is not a boolean and not negative. -/
def isScore : Json → Bool
  | .int n => 0 ≤ n
  | .float x => x.nonneg
  | _ => false

def hasText : Json → Bool
  | .arr xs => xs.any Json.hasText
  | v => v.hasText

/-- Whether an optional item of an evaluation form is on: values from before
there were options, and missing keys, count as on. -/
def optionOn (options : Json) (key : String) : Bool :=
  if options.has key then
    match options.get key with
    | .obj fields => ((Json.lookup "enabled" fields).getD (.bool true)).truthy
    | v => v.truthy
  else true

/-- The scored items of all categories. -/
def evaluationItems (data : Json) : List Json :=
  (((data.get "item_scores").get "categories").items.filter Json.isObj).flatMap
    fun cat => (cat.get "items").items.filter Json.isObj

def evaluationGaps (data : Json) : List String :=
  if data.isObj then
    let items := evaluationItems data
    let empty := (items.filter fun it => !isScore (it.get "score")).length
    (if items.isEmpty then ["항목 점수"]
      else if empty = 0 then [] else ["항목 점수 " ++ toString empty ++ "개"]) ++
    (if hasText (data.get "rationale") then [] else ["판단 근거"]) ++
    (if hasText (data.get "risk_level") then [] else ["등급"]) ++
    (if optionOn (data.get "options") "impact_scope" && !hasText (data.get "impact_scope")
      then ["영향 범위"] else [])
  else ["평가"]

def hasEvaluation (data : Json) : Bool := data.isObj && (evaluationGaps data).isEmpty

def registry : List BlockSpec :=
  [⟨text, "서술", nonemptyText⟩, ⟨attachments, "파일 첨부", hasFiles⟩,
   ⟨evaluation, "평가지", hasEvaluation⟩]

def isRetired (blockType : String) : Bool := blockType = agentDevPlan

def spec (blockType : String) : Option BlockSpec :=
  registry.find? fun s => s.blockType = normalizeBlockType blockType

def isKnown (blockType : String) : Bool := (spec blockType).isSome

/-- A stored JSON column as a value; NULL and broken text are `None`. -/
def parseData (raw : Option Json) : Json := raw.getD .null

/-- Kinds the code does not know never stop a request. -/
def isFilled (block : Block) : Bool :=
  if isRetired block.blockType then true
  else match spec block.blockType with
    | none => true
    | some s => s.isFilled (parseData block.data)

/-- `name.rsplit(".", 1)[-1].lower()`, empty for a name without a dot. -/
def extension (lower : String → String) (name : String) : String :=
  if name.toList.contains '.' then
    lower (String.ofList (name.toList.reverse.takeWhile (· ≠ '.')).reverse)
  else ""

/-- The name a stored file is checked by. -/
def fileName (f : Json) : String :=
  let original := f.get "original_name"
  (if original.truthy then original else f.get "file_name").textOr

def labelOr (block : Block) : String := if block.label = "" then "첨부" else block.label

/-- Refuse a value that breaks the conditions its block sets; the error is the
text of the `ValueError`. `lower` is `str.lower`. -/
def validateData (lower : String → String) (block : Block) (data : Json) :
    Except String Unit := do
  if isRetired block.blockType || data.has "plan_id" then
    throw "Agent 기획서 기능이 종료되었습니다."
  let cfg := parseData block.config
  let skip := !(cfg.isObj || !cfg.truthy) || normalizeBlockType block.blockType ≠ attachments ||
    !data.isObj
  if skip then return ()
  let ids := (data.get "attachment_ids").items
  match (cfg.get "max_count").toInt with
  | some n =>
    if 0 < n ∧ n < ids.length then
      throw (labelOr block ++ "은(는) " ++ toString n ++ "개까지 첨부할 수 있습니다.")
  | none => pure ()
  let exts := (cfg.get "extensions").items.map fun e =>
    String.ofList ((lower e.toStr).toList.dropWhile (· = '.'))
  if exts.isEmpty then return ()
  let names := ((data.get "files").items.filter Json.isObj).map fileName
  let bad := names.filter fun name => !exts.contains (extension lower name)
  if bad.isEmpty then return ()
  throw (labelOr block ++ "에는 " ++ String.intercalate ", " exts ++ " 파일만 첨부할 수 있습니다: " ++
    String.intercalate ", "
      ((bad.take 3).map fun name => if name = "" then "이름 없는 파일" else name))

/-- Required blocks of the wanted steps that are not filled. -/
def unfilled (blocks : List Block) (want : Int → Bool) : List Block :=
  blocks.filter fun b => want b.stepOrder && b.required && !isFilled b

def unfilledRequired (blocks : List Block) (stepOrder : Nat) : List Block :=
  unfilled blocks fun s => s = stepOrder

def unfilledUpto (blocks : List Block) (stepOrder : Nat) : List Block :=
  unfilled blocks fun s => s ≤ stepOrder

end XgenSdk.Blocks
