import XgenSdk.ComfyUi.Mapping
import XgenSdk.Lib.Raising
import Mathlib.Data.List.Sort

/-! The JSON Schema of the arguments of a tool, and which values such a schema
accepts. -/
namespace XgenSdk.ComfyUi
open XgenSdk.Py

/-! `json.dumps` as the texts for a model use it. -/

/-- A character inside a string, without `ensure_ascii`. -/
def literalChar (c : Char) : List Char :=
  let n := c.toNat
  if c = '"' ∨ c = '\\' then ['\\', c]
  else if n = 0x0A then ['\\', 'n']
  else if n = 0x0D then ['\\', 'r']
  else if n = 0x09 then ['\\', 't']
  else if n = 0x08 then ['\\', 'b']
  else if n = 0x0C then ['\\', 'f']
  else if n < 0x20 then ['\\', 'u', '0', '0', Json.hexDigit (n / 16), Json.hexDigit (n % 16)]
  else [c]

def literalString (s : String) : String := String.ofList ('"' :: s.toList.flatMap literalChar ++ ['"'])

def literalFloat (text : String) : String :=
  if text = "nan" then "NaN" else if text = "inf" then "Infinity" else if text = "-inf" then "-Infinity" else text

mutual

/-- `_json_literal`. -/
def jsonLiteral : Json → String
  | .null => "null"
  | .bool b => if b then "true" else "false"
  | .int n => toString n
  | .float x => literalFloat x.text
  | .str s => literalString s
  | .arr xs => "[" ++ String.intercalate ", " (literalItems xs) ++ "]"
  | .obj fields => "\x7b" ++ String.intercalate ", " (literalFields fields) ++ "\x7d"

def literalItems : List Json → List String
  | [] => []
  | x :: xs => jsonLiteral x :: literalItems xs

def literalFields : List (String × Json) → List String
  | [] => []
  | f :: fs => (literalString f.1 ++ ": " ++ jsonLiteral f.2) :: literalFields fs

end

/-! The schema. -/

/-- The schema of one argument: the members of the dict, where they are set. -/
structure Property where
  type : String
  description : Option String
  minimum : Option Json
  maximum : Option Json
  enum : Option (List Json)

/-- A schema of type `object` without additional properties. -/
structure ToolSchema where
  properties : List (String × Property)
  required : List String

def schemaType (p : Param) : String := if isParamType p.type then p.type else "string"

def hints (p : Param) : List String :=
  if p.randomize && schemaType p = "integer" then ["Leave empty to use a random value."]
  else if isNull p.default then []
  else ["Default: " ++ jsonLiteral p.default ++ "."]

def schemaDescription (p : Param) : String :=
  String.intercalate " " ((strip p.description :: hints p).filter fun part => part ≠ "")

def schemaBound (fl : Floats) (p : Param) (bound : Json) : Option Json :=
  if isNumeric (schemaType p) && fl.isNumber bound then some bound else none

def schemaProperty (fl : Floats) (p : Param) : Property where
  type := schemaType p
  description := orNone (schemaDescription p)
  minimum := schemaBound fl p p.minimum
  maximum := schemaBound fl p p.maximum
  enum := if p.choices.any (fun choices => !choices.isEmpty) && schemaType p ≠ "boolean" then p.choices else none

/-- One parameter more, unless it has no name or its name is there. -/
def addParam (fl : Floats) (schema : ToolSchema) (p : Param) : ToolSchema :=
  if p.name = "" || schema.properties.any fun f => f.1 = p.name then schema
  else
    { properties := schema.properties ++ [(p.name, schemaProperty fl p)]
      required := if p.required then schema.required ++ [p.name] else schema.required }

/-- `tool_input_schema`. -/
def toolInputSchema (lib : Libraries) (mapping : RawMapping) : ToolSchema :=
  (normalizeMapping lib mapping).params.foldl (addParam lib.toFloats) ⟨[], []⟩

/-! What JSON Schema says of these keywords. -/

def acceptsType (fl : Floats) (type : String) (value : Json) : Bool :=
  match type, value with
  | "string", .str _ => true
  | "boolean", .bool _ => true
  | "integer", v => fl.isInteger v
  | "number", v => fl.isNumber v
  | _, _ => false

def Property.accepts (fl : Floats) (p : Property) (value : Json) : Bool :=
  acceptsType fl p.type value &&
    p.minimum.all (fun low => !fl.less value low) && p.maximum.all (fun high => !fl.less high value) &&
    p.enum.all fun choices => choices.any (fl.schemaEq value)

def ToolSchema.accepts (fl : Floats) (schema : ToolSchema) (arguments : Json) : Bool :=
  match arguments with
  | .obj fields =>
    schema.required.all (fun name => (Json.lookup name fields).isSome) &&
      fields.all fun f => (schema.properties.lookup f.1).any fun p => p.accepts fl f.2
  | _ => false

end XgenSdk.ComfyUi

/-! Applying the arguments of a tool call to a copy of a workflow. -/
namespace XgenSdk.ComfyUi
open XgenSdk.Py

structure ArgumentError where
  message : String
  deriving DecidableEq, Repr

def argumentError (name rest : String) : ArgumentError := ⟨"Argument '" ++ name ++ "' " ++ rest⟩

/-- `^[+-]?\d+$` on a text without blanks around it. -/
def isIntText (text : List Char) : Bool :=
  let digits := match text with
    | '+' :: cs => cs
    | '-' :: cs => cs
    | cs => cs
  digits ≠ [] && digits.all fun c => (digitValue c).isSome

/-- `float(text)`, which has to be finite. -/
def floatArgument (fl : Floats) (name text : String) : Except ArgumentError Json :=
  match fl.parse text with
  | none => .error (argumentError name "must be a number.")
  | some x =>
    if fl.isNumber (.float x) then .ok (.float x) else .error (argumentError name "must be a finite number.")

/-- A value in the type of a parameter. -/
def coerceType (fl : Floats) (p : Param) (value : Json) : Except ArgumentError Json :=
  if p.type = "string" then
    match value with
    | .str s => .ok (.str s)
    | v => if fl.isNumber v then .ok (.str v.toStr) else .error (argumentError p.name "must be a string.")
  else if p.type = "integer" then
    if fl.isInteger value then .ok (.int (fl.toInt value))
    else match value with
      | .str s =>
        if isIntText (strip s).toList then .ok (.int ((intOfString s).getD 0))
        else .error (argumentError p.name "must be an integer.")
      | _ => .error (argumentError p.name "must be an integer.")
  else if p.type = "number" then
    if fl.isNumber value then .ok value
    else match value with
      | .str s =>
        if strip s = "" then .error (argumentError p.name "must be a number.")
        else if isIntText (strip s).toList then .ok (.int ((intOfString s).getD 0))
        else floatArgument fl p.name (strip s)
      | _ => .error (argumentError p.name "must be a number.")
  else if p.type = "boolean" then
    match value with
    | .bool b => .ok (.bool b)
    | .str s =>
      if lower (strip s).toList = "true".toList then .ok (.bool true)
      else if lower (strip s).toList = "false".toList then .ok (.bool false)
      else .error (argumentError p.name "must be a boolean (true or false).")
    | .int n =>
      if n = 0 then .ok (.bool false) else if n = 1 then .ok (.bool true)
      else .error (argumentError p.name "must be a boolean (true or false).")
    | _ => .error (argumentError p.name "must be a boolean (true or false).")
  else .error (argumentError p.name "has an unsupported type in the tool configuration.")

def rangeError (fl : Floats) (p : Param) : ArgumentError :=
  if fl.isNumber p.minimum then
    if fl.isNumber p.maximum then
      argumentError p.name ("must be between " ++ p.minimum.toStr ++ " and " ++ p.maximum.toStr ++ ".")
    else argumentError p.name ("must be at least " ++ p.minimum.toStr ++ ".")
  else argumentError p.name ("must be at most " ++ p.maximum.toStr ++ ".")

/-- `_coerce`. -/
def coerce (fl : Floats) (p : Param) (value : Json) : Except ArgumentError Json := do
  let out ← coerceType fl p value
  if isNumeric p.type && outOfRange fl p out then .error (rangeError fl p)
  else if notInChoices fl p out then
    .error (argumentError p.name ("must be one of: " ++ jsonLiteral (.arr (p.choices.getD [])) ++ "."))
  else .ok out

/-- The bounds of `_random_integer`. -/
def randomBounds (fl : Floats) (p : Param) : Int × Int :=
  let low : Rat := (fl.number p.minimum).getD 0
  let high : Rat :=
    ((fl.number p.maximum).map fun q => if (randomMax : Rat) < q then (randomMax : Rat) else q).getD (randomMax : Rat)
  (low.ceil, max low.ceil high.floor)

/-- Whether an argument is left empty. -/
def isEmptyArgument (p : Param) : Json → Bool
  | .null => true
  | .str s => s = "" && p.type ≠ "string"
  | _ => false

/-- The value of a parameter; `none` where that of the workflow stays. -/
def paramValue (fl : Floats) (randint : Int → Int → Int) (p : Param) (raw : Json) : Except ArgumentError (Option Json) :=
  if isEmptyArgument p raw then
    if p.randomize && p.type = "integer" then
      .ok (some (.int (randint (randomBounds fl p).1 (randomBounds fl p).2)))
    else if !isNull p.default then some <$> coerce fl p p.default
    else if p.required then .error ⟨"Missing required argument: " ++ p.name ++ "."⟩
    else .ok none
  else some <$> coerce fl p raw

/-- `inputs[name] = value`. -/
def setInput (graph : Json) (t : Target) (value : Json) : Json :=
  match nodeAt graph t.nodeId with
  | none => graph
  | some node => graph.set t.nodeId (node.set "inputs" ((node.get "inputs").set t.input value))

/-- The graphs in memory; a graph is known by its place. -/
abbrev Memory := List Json

abbrev Applying := Raising Memory ArgumentError

/-- `copy.deepcopy(graph)`. -/
def deepcopy (graph : Nat) : Applying Nat := do
  let memory ← Raising.read
  Raising.write fun memory => memory ++ [memory.getD graph .null]
  return memory.length

/-- One target of a parameter is set in the graph `out`. -/
def setTarget (out : Nat) (name : String) (value : Json) (t : Target) : Applying Unit := do
  let memory ← Raising.read
  if (inputAt (memory.getD out .null) t).all isLink then
    throw (argumentError name ("cannot be applied because the workflow input " ++ t.nodeId ++ "." ++ t.input ++
      " is missing or linked; the tool configuration must be fixed."))
  else Raising.write fun memory => memory.set out (setInput (memory.getD out .null) t value)

def setTargets (out : Nat) (name : String) (value : Json) : List Target → Applying Unit
  | [] => pure ()
  | t :: targets => do
    setTarget out name value t
    setTargets out name value targets

/-- A value, where there is one, is set at all targets. -/
def setParam (out : Nat) (p : Param) : Option Json → Applying Unit
  | none => pure ()
  | some value => setTargets out p.name value p.targets

/-- The loop over the parameters; `randint i` draws for the parameter of index `i`. -/
def applyParams (fl : Floats) (randint : Nat → Int → Int → Int) (arguments : Fields) (out i : Nat) :
    List Param → Applying Unit
  | [] => pure ()
  | p :: params => do
    let value ← Raising.lift (paramValue fl (randint i) p ((Json.lookup p.name arguments).getD .null))
    setParam out p value
    applyParams fl randint arguments out (i + 1) params

/-- The arguments by name; `None` is the empty dict. -/
def checkedArguments (names : List String) (arguments : Json) : Except ArgumentError Fields :=
  match arguments with
  | .null => .ok []
  | .obj fields =>
    let unknown := (fields.map Prod.fst).filter fun name => !names.contains name
    if unknown.isEmpty then .ok fields
    else .error ⟨"Unknown argument(s): " ++ String.intercalate ", " (unknown.insertionSort fun a b => a ≤ b) ++
      ". Allowed arguments: " ++ (if names.isEmpty then "none" else String.intercalate ", " names) ++ "."⟩
  | _ => .error ⟨"Arguments must be a JSON object."⟩

/-- `apply_arguments`; the result is the place of the copy. -/
def applyArguments (lib : Libraries) (randint : Nat → Int → Int → Int) (graph : Nat) (mapping : RawMapping)
    (arguments : Json) : Applying Nat := do
  let m := normalizeMapping lib mapping
  let fields ← Raising.lift (checkedArguments (m.params.map Param.name) arguments)
  let out ← deepcopy graph
  applyParams lib.toFloats randint fields out 0 m.params
  return out

end XgenSdk.ComfyUi
