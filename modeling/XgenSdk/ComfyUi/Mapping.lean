import XgenSdk.Py.Numbers
import XgenSdk.Py.Codecs

/-! Workflows in the form of the API, and the kinds of inputs that a server says
its nodes take. -/
namespace XgenSdk.ComfyUi
open XgenSdk.Py

abbrev Fields := List (String × Json)

/-- The members of a dict; none of anything else. -/
def fieldsOf : Json → Fields
  | .obj fields => fields
  | _ => []

/-- `is_link`. -/
def isLink : Json → Bool
  | .arr [.str _, .int _] => true
  | _ => false

/-- `infer_type`. -/
def inferType : Json → String
  | .bool _ => "boolean"
  | .int _ => "integer"
  | .float _ => "number"
  | .str _ => "string"
  | _ => "unknown"

/-! The normalised specification of inputs; of it, only the kind is read. -/

def primitives : List String := ["INT", "FLOAT", "STRING", "BOOLEAN"]
def otherWidgets : List String := ["COLOR"]
def rawClassKeys : List String := ["output_node", "input_order", "display_name", "category", "python_module"]

/-- The kind in `normalize_input_spec`. -/
def inputKind (spec : Json) : String :=
  match spec with
  | .arr (.arr _ :: _) => "COMBO"
  | .arr (.str head :: _) =>
    if head = "COMBO" then "COMBO"
    else if head = "COMFY_DYNAMICCOMBO_V3" then "COMBO"
    else if head = "" then "OTHER"
    else if primitives.contains head then head
    else if otherWidgets.contains head then "OTHER"
    else "LINK"
  | _ => "OTHER"

/-- One input more, unless its name is there. -/
def addInput (out : Fields) (entry : String × Json) : Fields :=
  if (Json.lookup entry.1 out).isSome then out else out ++ [(entry.1, .str (inputKind entry.2))]

/-- `normalize_class_info`: the kinds of the required inputs and of the optional ones. -/
def normalizeClassInfo (entry : Json) : Fields :=
  let groups := (["required", "optional"].map fun group => fieldsOf ((entry.get "input").get group)).flatten
  groups.foldl addInput []

/-- `_looks_raw`. -/
def looksRaw (entry : Json) : Bool :=
  rawClassKeys.any (fun key => entry.has key) || ((entry.get "input").isObj && !(entry.get "input").has "kind")

/-- A class of `as_normalized`. -/
def normalizedClass (entry : Json) : Fields :=
  if looksRaw entry then normalizeClassInfo entry
  else ((fieldsOf entry).filter fun f => f.2.isObj).map fun f => (f.1, f.2.get "kind")

/-- `as_normalized`. -/
def asNormalized (objectInfo : Json) : List (String × Fields) :=
  ((fieldsOf objectInfo).filter fun f => f.2.isObj).map fun f => (f.1, normalizedClass f.2)

end XgenSdk.ComfyUi

/-! The mapping of a workflow: which of its inputs a tool has as parameters. -/
namespace XgenSdk.ComfyUi
open XgenSdk.Py

def mappingVersion : Int := 1
def paramTypes : List String := ["string", "integer", "number", "boolean"]
def maxParams : Nat := 30
def maxDescriptionLength : Nat := 500
def randomMax : Int := 2 ^ 53 - 1

/-- An input of a node. -/
structure Target where
  nodeId : String
  input : String
  deriving DecidableEq, Repr

structure Param where
  name : String
  description : String
  type : String
  required : Bool
  default : Json
  multiline : Bool
  minimum : Json
  maximum : Json
  choices : Option (List Json)
  randomize : Bool
  targets : List Target

structure Mapping where
  version : Int
  params : List Param
  outputs : List String

/-- A mapping as it is given: bytes, or a value. -/
inductive RawMapping where
  | bytes (raw : List UInt8)
  | value (v : Json)

/-- `json.loads`; `none` where it raises. -/
structure Libraries extends Floats where
  parseJson : List Char → Option Json

def isNull : Json → Bool
  | .null => true
  | _ => false

def isTrue : Json → Bool
  | .bool b => b
  | _ => false

def textOf : Json → String
  | .str s => s
  | _ => ""

/-- The text of a whole number or of a text, `""` for anything else. -/
def idText : Json → String
  | .int n => toString n
  | v => textOf v

/-- `_normalize_target`. -/
def normalizeTarget (raw : Json) : Target := ⟨idText (raw.get "node_id"), textOf (raw.get "input")⟩

def listOf : Json → Option (List Json)
  | .arr items => some items
  | _ => none

/-- `_normalize_param`. -/
def normalizeParam (raw : Json) : Param where
  name := textOf (raw.get "name")
  description := textOf (raw.get "description")
  type := if textOf (raw.get "type") = "" then "string" else textOf (raw.get "type")
  required := isTrue (raw.get "required")
  default := raw.get "default"
  multiline := isTrue (raw.get "multiline")
  minimum := raw.get "minimum"
  maximum := raw.get "maximum"
  choices := listOf (raw.get "choices")
  randomize := isTrue (raw.get "randomize")
  targets := (raw.get "targets").items.map normalizeTarget

def versionOf : Json → Int
  | .int n => n
  | _ => mappingVersion

/-- The value of a mapping that is given as a text. -/
def parsedText (lib : Libraries) (text : List Char) : Json := (lib.parseJson text).getD (.obj [])

def mappingValue (lib : Libraries) : RawMapping → Json
  | .bytes raw => parsedText lib (utf8Replaced raw)
  | .value (.str s) => parsedText lib s.toList
  | .value v => v

/-- `normalize_mapping`. -/
def normalizeMapping (lib : Libraries) (raw : RawMapping) : Mapping :=
  let src := mappingValue lib raw
  { version := versionOf (src.get "version")
    params := (src.get "params").items.map normalizeParam
    outputs := ((src.get "outputs").items.map idText).filter fun s => s ≠ "" }

/-! Values of the types of parameters. -/

def isStr : Json → Bool
  | .str _ => true
  | _ => false

def isBool : Json → Bool
  | .bool _ => true
  | _ => false

/-- `_matches_type`. -/
def matchesType (fl : Floats) (value : Json) (type : String) : Bool :=
  if type = "string" then isStr value
  else if type = "integer" then fl.isInteger value
  else if type = "number" then fl.isNumber value
  else if type = "boolean" then isBool value
  else false

def isNumeric (type : String) : Bool := type = "integer" || type = "number"

/-! What is wrong with a mapping, for the one who writes it. -/

structure Issue where
  path : String
  code : String
  message : String
  deriving DecidableEq, Repr

def typeKo : List (String × String) :=
  [("string", "문자열"), ("integer", "정수"), ("number", "숫자"), ("boolean", "참/거짓")]

def kindKo : List (String × String) :=
  [("INT", "정수"), ("FLOAT", "숫자"), ("STRING", "문자열"), ("BOOLEAN", "참/거짓"), ("COMBO", "선택지")]

def kindAccepts : List (String × List String) :=
  [("INT", ["integer"]), ("FLOAT", ["number", "integer"]), ("STRING", ["string"]), ("BOOLEAN", ["boolean"]),
    ("COMBO", ["string", "integer", "number"])]

/-- Without a specification: what the value in the workflow accepts. -/
def valueAccepts : List (String × List String) :=
  [("string", ["string"]), ("integer", ["integer", "number"]), ("number", ["number"]), ("boolean", ["boolean"])]

def inKorean (names : List (String × String)) (name : String) : String := (names.lookup name).getD ""

/-- `^[a-z][a-z0-9_]{0,39}`, up to the end. -/
def isNameBody : List Char → Bool
  | [] => false
  | c :: cs => c.isLower && cs.length ≤ 39 && cs.all fun c => c.isLower || c.isDigit || c = '_'

/-- `_NAME_RE.match`; its `$` also stands before a last line break. -/
def isParamName (name : String) : Bool :=
  isNameBody name.toList || (name.toList.getLast? = some '\n' && isNameBody name.toList.dropLast)

def paramPath (i : Nat) : String := "params[" ++ toString i ++ "]"

def labelOf (i : Nat) (p : Param) : String := if p.name = "" then toString (i + 1) ++ "번째" else p.name

/-- The issue, where a check fails. -/
def issueIf (wrong : Bool) (path code message : String) : List Issue := if wrong then [⟨path, code, message⟩] else []

/-- The name of a parameter, and the names seen with it. -/
def checkName (i : Nat) (p : Param) (seen : List String) : List Issue × List String :=
  if !isParamName p.name then
    ([⟨paramPath i ++ ".name", "name_invalid",
      "파라미터 이름은 영어 소문자로 시작하고 소문자, 숫자, 밑줄만 써서 40자 이내로 적어야 합니다."⟩], seen)
  else if seen.contains p.name then
    ([⟨paramPath i ++ ".name", "name_duplicate", p.name ++ " 이름을 쓰는 파라미터가 이미 있습니다."⟩], seen)
  else ([], seen ++ [p.name])

def isParamType (type : String) : Bool := paramTypes.contains type

def boundIssue (fl : Floats) (i : Nat) (p : Param) (key : String) (bound : Json) : List Issue :=
  issueIf (!isNull bound && !fl.isNumber bound) (paramPath i ++ "." ++ key) "type_mismatch"
    (labelOf i p ++ " 파라미터의 최솟값과 최댓값은 숫자여야 합니다.")

/-- The choices, where there is a list of them. -/
def choiceIssues (fl : Floats) (i : Nat) (p : Param) : List Issue :=
  match p.choices with
  | none => []
  | some choices =>
    if p.type = "boolean" then
      [⟨paramPath i ++ ".choices", "type_mismatch", "참/거짓 파라미터에는 선택지를 둘 수 없습니다."⟩]
    else if choices.isEmpty then
      [⟨paramPath i ++ ".choices", "choices_empty", labelOf i p ++ " 파라미터의 선택지가 비어 있습니다."⟩]
    else if isParamType p.type then
      choices.zipIdx.flatMap fun c => issueIf (!matchesType fl c.1 p.type)
        (paramPath i ++ ".choices[" ++ toString c.2 ++ "]") "type_mismatch"
        (labelOf i p ++ " 파라미터의 선택지에 " ++ inKorean typeKo p.type ++ " 형식이 아닌 값이 있습니다.")
    else []

/-- A number outside the bounds that are numbers. -/
def outOfRange (fl : Floats) (p : Param) (value : Json) : Bool := fl.less value p.minimum || fl.less p.maximum value

/-- Whether choices say anything: there are some, and the type is not `boolean`. -/
def hasChoices (p : Param) : Bool := p.choices.any (fun choices => !choices.isEmpty) && p.type ≠ "boolean"

def notInChoices (fl : Floats) (p : Param) (value : Json) : Bool :=
  hasChoices p && !fl.isIn value (p.choices.getD [])

def defaultIssues (fl : Floats) (i : Nat) (p : Param) : List Issue :=
  if isNull p.default then []
  else if !isParamType p.type then []
  else if !matchesType fl p.default p.type then
    [⟨paramPath i ++ ".default", "default_type",
      labelOf i p ++ " 파라미터의 기본값이 " ++ inKorean typeKo p.type ++ " 형식이 아닙니다."⟩]
  else if isNumeric p.type && outOfRange fl p p.default then
    [⟨paramPath i ++ ".default", "default_out_of_range", labelOf i p ++ " 파라미터의 기본값이 허용 범위를 벗어났습니다."⟩]
  else if notInChoices fl p p.default then
    [⟨paramPath i ++ ".default", "default_not_in_choices", labelOf i p ++ " 파라미터의 기본값이 선택지에 없습니다."⟩]
  else []

/-- The checks of a parameter by itself. -/
def fieldIssues (fl : Floats) (i : Nat) (p : Param) : List Issue :=
  issueIf (!isParamType p.type) (paramPath i ++ ".type") "type_mismatch"
      "파라미터 형식은 string, integer, number, boolean 중 하나여야 합니다." ++
    issueIf (p.description.length > maxDescriptionLength) (paramPath i ++ ".description") "description_too_long"
      (labelOf i p ++ " 파라미터의 설명은 " ++ toString maxDescriptionLength ++ "자 이내로 적어야 합니다.") ++
    issueIf (p.randomize && p.type ≠ "integer") (paramPath i ++ ".randomize") "randomize_not_integer"
      (labelOf i p ++ " 파라미터는 정수 형식일 때만 비우면 무작위로 정할 수 있습니다.") ++
    boundIssue fl i p "minimum" p.minimum ++ boundIssue fl i p "maximum" p.maximum ++
    issueIf (fl.less p.maximum p.minimum) (paramPath i ++ ".minimum") "default_out_of_range"
      (labelOf i p ++ " 파라미터의 최솟값이 최댓값보다 큽니다.") ++
    choiceIssues fl i p ++ defaultIssues fl i p ++
    issueIf p.targets.isEmpty (paramPath i ++ ".targets") "targets_empty"
      (labelOf i p ++ " 파라미터가 바꿀 노드 입력을 하나 이상 골라야 합니다.")

/-! The targets. -/

/-- `_target_type_message`. A kind that cannot be looked up, for which the code raises, says nothing here. -/
def targetTypeMessage (fl : Floats) (specs : List (String × Fields)) (type : String) (node : Json) (t : Target) (value : Json) :
    Option String :=
  let kind := ((specs.lookup (node.get "class_type").textOr).bind (Json.lookup t.input)).getD .null
  match kind with
  | .null =>
    match valueAccepts.lookup (inferType value) with
    | none => none
    | some accepts =>
      if accepts.contains type || (type = "integer" && inferType value = "number" && fl.isInteger value) then none
      else some (t.nodeId ++ " 노드의 " ++ t.input ++ " 입력에 적힌 값은 " ++ inKorean typeKo (inferType value) ++
        "인데 파라미터 형식이 " ++ inKorean typeKo type ++ "입니다.")
  | .str kind =>
    match kindAccepts.lookup kind with
    | none => none
    | some accepts =>
      if accepts.contains type then none
      else some (t.nodeId ++ " 노드의 " ++ t.input ++ " 입력은 " ++ inKorean kindKo kind ++
        " 값을 받는데 파라미터 형식이 " ++ inKorean typeKo type ++ "입니다.")
  | _ => none

/-- `graph.get(node_id)` where it is a dict. -/
def nodeAt (graph : Json) (nodeId : String) : Option Json := (Json.lookup nodeId (fieldsOf graph)).filter Json.isObj

def inputOf (node : Json) (name : String) : Option Json := Json.lookup name (fieldsOf (node.get "inputs"))

/-- The value of an input of a workflow. -/
def inputAt (graph : Json) (t : Target) : Option Json := (nodeAt graph t.nodeId).bind fun node => inputOf node t.input

def orChosen (s : String) : String := if s = "" then "선택한" else s

/-- One target of a parameter, and the targets seen with it. -/
def checkTarget (fl : Floats) (specs : List (String × Fields)) (graph : Json) (type path : String) (t : Target)
    (seen : List Target) : List Issue × List Target :=
  match (nodeAt graph t.nodeId).filter fun _ => t.nodeId ≠ "" with
  | none =>
    ([⟨path ++ ".node_id", "target_missing_node", orChosen t.nodeId ++ " 노드가 워크플로우에 없습니다."⟩], seen)
  | some node =>
    match inputOf node t.input with
    | none =>
      ([⟨path ++ ".input", "target_missing_input", t.nodeId ++ " 노드에 " ++ orChosen t.input ++ " 입력이 없습니다."⟩], seen)
    | some value =>
      if isLink value then
        ([⟨path ++ ".input", "target_is_link", t.nodeId ++ " 노드의 " ++ t.input ++
          " 입력은 다른 노드에 연결되어 있어 파라미터로 노출할 수 없습니다."⟩], seen)
      else if seen.contains t then
        ([⟨path, "target_duplicate", t.nodeId ++ " 노드의 " ++ t.input ++ " 입력을 여러 파라미터가 함께 바꾸고 있습니다."⟩], seen)
      else if isParamType type then
        (((targetTypeMessage fl specs type node t value).map fun m => ⟨path, "type_mismatch", m⟩).toList, seen ++ [t])
      else ([], seen ++ [t])

def checkTargets (fl : Floats) (specs : List (String × Fields)) (graph : Json) (type base : String) (j : Nat) :
    List Target → List Target → List Issue × List Target
  | [], seen => ([], seen)
  | t :: targets, seen =>
    let checked := checkTarget fl specs graph type (base ++ ".targets[" ++ toString j ++ "]") t seen
    let rest := checkTargets fl specs graph type base (j + 1) targets checked.2
    (checked.1 ++ rest.1, rest.2)

def checkParams (fl : Floats) (specs : List (String × Fields)) (graph : Json) (i : Nat) :
    List Param → List String → List Target → List Issue
  | [], _, _ => []
  | p :: params, names, targets =>
    let named := checkName i p names
    let aimed := checkTargets fl specs graph p.type (paramPath i) 0 p.targets targets
    named.1 ++ fieldIssues fl i p ++ aimed.1 ++ checkParams fl specs graph (i + 1) params named.2 aimed.2

def outputIssues (graph : Json) (outputs : List String) : List Issue :=
  issueIf outputs.isEmpty "outputs" "outputs_empty" "결과를 받을 출력 노드를 하나 이상 골라야 합니다." ++
    outputs.zipIdx.flatMap fun o => issueIf (!((Json.lookup o.1 (fieldsOf graph)).any Json.isObj))
      ("outputs[" ++ toString o.2 ++ "]") "output_not_found"
      ("출력 노드로 고른 " ++ o.1 ++ " 노드가 워크플로우에 없습니다.")

/-- `validate_entry`. -/
def validateEntry (lib : Libraries) (graph : Json) (mapping : RawMapping) (objectInfo : Json) : List Issue :=
  let m := normalizeMapping lib mapping
  let fl := lib.toFloats
  issueIf (m.params.length > maxParams) "params" "too_many_params"
      ("노출할 수 있는 파라미터는 " ++ toString maxParams ++ "개까지입니다.") ++
    checkParams fl (asNormalized objectInfo) graph 0 m.params [] [] ++ outputIssues graph m.outputs

end XgenSdk.ComfyUi
