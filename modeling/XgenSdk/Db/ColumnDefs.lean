import XgenSdk.Db.Migrations
import XgenSdk.Lib.Words
import XgenSdk.Py.Codecs
import Mathlib.Data.List.Sort

/-! Column definitions: how they are written, and what the migrations read from their text. -/
namespace XgenSdk.Migrations
open XgenSdk.Py XgenSdk.Words

/-! What the code reads. -/

/-- `_MODEL_TO_PG_TYPE`. -/
def modelToPgType : List (String × String) :=
  [("integer", "integer"), ("int", "integer"), ("serial", "integer"), ("bigint", "bigint"), ("bigserial", "bigint"),
    ("smallint", "smallint"), ("float", "double precision"), ("double precision", "double precision"), ("real", "real"),
    ("numeric", "numeric"), ("boolean", "boolean"), ("bool", "boolean"), ("text", "text"), ("varchar", "character varying"),
    ("character varying", "character varying"), ("char", "character"), ("character", "character"), ("json", "json"),
    ("jsonb", "jsonb"), ("text[]", "ARRAY"), ("integer[]", "ARRAY"), ("timestamp", "timestamp without time zone"),
    ("timestamp with time zone", "timestamp with time zone"), ("timestamp without time zone", "timestamp without time zone"),
    ("date", "date"), ("time", "time without time zone"), ("bytea", "bytea"), ("uuid", "uuid")]

/-- `sorted(_MODEL_TO_PG_TYPE.items(), key=lambda kv: -len(kv[0]))`. -/
def longestFirst : List (String × String) := modelToPgType.insertionSort fun a b => b.1.length ≤ a.1.length

/-- The text starts with the type, and with nothing that could go on with its name. -/
def startsWithType (text : List Char) (modelType : String) : Bool :=
  modelType.toList.isPrefixOf text &&
    (text.drop modelType.toList.length).head?.all fun c => [' ', '(', '\t', '\n'].contains c

def normalizePgType (modelColumnDef : String) : Option String :=
  let raw := stripChars modelColumnDef.toList
  let text := lower raw
  if raw.isEmpty then none
  else if (find "[]".toList text).isSome then some "ARRAY"
  else match longestFirst.find? fun e => startsWithType text e.1 with
    | some e => some e.2
    | none =>
      -- `raw.split('(')[0].split()[0]`; nothing before the parenthesis is an IndexError
      (words (raw.takeWhile (· ≠ '('))).head?.bind fun firstToken =>
        (modelToPgType.find? fun e => e.1.toList = lower firstToken.toList).map Prod.snd

def typeStopKeywords : List String :=
  ["DEFAULT", "NOT", "NULL", "REFERENCES", "CHECK", "UNIQUE", "PRIMARY", "CONSTRAINT", "ON", "GENERATED"]

def extractTypeSql (upper : String → String) (columnDef : String) : String :=
  let tokens := words columnDef.toList
  let typeParts := tokens.takeWhile fun t => !typeStopKeywords.contains (upper t)
  if typeParts.isEmpty then tokens.headD "" else String.intercalate " " typeParts

def extractDefault (upper : String → String) (columnDef : String) : Option String :=
  (find "DEFAULT".toList (upper columnDef).toList).bind fun i =>
    let valParts := (words (columnDef.toList.drop (i + 7))).takeWhile fun t => !stopKeywords.contains (upper t)
    if valParts.isEmpty then none else some (String.intercalate " " valParts)

def buildUsingClause (columnName fromType toType typeSql : String) : String :=
  if fromType = toType then ""
  else if toType = "jsonb" && ["character varying", "text"].contains fromType then
    " USING CASE WHEN " ++ columnName ++ " IS NULL OR " ++ columnName ++ " = '' THEN '\x7b\x7d'::jsonb WHEN " ++ columnName ++
      "::text ~ '^\\\x7b' THEN " ++ columnName ++ "::jsonb ELSE jsonb_build_object('_default', " ++ columnName ++ "::text) END"
  else if toType = "integer" && fromType = "character varying" then " USING " ++ columnName ++ "::INTEGER"
  else if toType = "boolean" && fromType = "character varying" then " USING (" ++ columnName ++ "::text = 'true')"
  else " USING " ++ columnName ++ "::" ++ typeSql

/-- `str.upper`, character by character. -/
structure Uppercase where
  char : Char → List Char
  ascii : ∀ c, c.toNat < 128 → char c = [c.toUpper]
  quote : ∀ c, '\'' ∈ char c → c = '\''
  nonempty : ∀ c, char c ≠ []

def Uppercase.text (u : Uppercase) (s : String) : String := String.ofList (s.toList.flatMap u.char)

/-! How a definition is written. -/

/-- Blanks between two words. -/
abbrev Gap := { g : List Char // g ≠ [] ∧ ∀ c ∈ g, c ∈ [' ', '\t', '\n'] }

/-- A keyword in any letter case. -/
abbrev Spelled (keyword : String) := { w : List Char // w.map Char.toUpper = keyword.toList }

/-- A type of `_MODEL_TO_PG_TYPE` in any letter case, with what stands in parentheses behind it. -/
structure TypeText where
  key : String
  known : key ∈ modelToPgType.map Prod.fst
  words : List (List Char)
  spelled : words.map lower = pieces isSpace key.toList
  modifier : Option (List Char)
  arguments : ∀ m ∈ modifier, ∀ c ∈ m, c ∈ "0123456789, ".toList

def TypeText.text (t : TypeText) : List Char :=
  [' '].intercalate t.words ++ t.modifier.elim [] fun m => '(' :: m ++ [')']

inductive Flag where
  | notNull (not : Spelled "NOT") (gap : Gap) (null : Spelled "NULL")
  | unique (word : Spelled "UNIQUE")

def Flag.text : Flag → List Char
  | .notNull n g m => n.val ++ g.val ++ m.val
  | .unique w => w.val

def isNumeral (text : List Char) : Bool :=
  (text.head?.any fun c => "0123456789+-.".toList.contains c) && text.all fun c => "0123456789+-.eE".toList.contains c

inductive Literal where
  | number (text : { t : List Char // isNumeral t = true })
  | boolean (text : { t : List Char // t.map Char.toUpper ∈ ["TRUE".toList, "FALSE".toList] })
  /-- What stands between the quotes, and the cast behind them. -/
  | quoted (body : List Char) (cast : { t : List Char // ∀ c ∈ t.getLast?, isSpace c = false })

def Literal.text : Literal → List Char
  | .number t => t.val
  | .boolean t => t.val
  | .quoted body t => '\'' :: body ++ '\'' :: t.val

/-- `DEFAULT` with its literal. -/
structure DefaultClause where
  word : Spelled "DEFAULT"
  gap : Gap
  literal : Literal

def DefaultClause.text (d : DefaultClause) : List Char := d.word.val ++ d.gap.val ++ d.literal.text

def flagsText (fs : List (Gap × Flag)) : List Char := fs.flatMap fun f => f.1.val ++ f.2.text

/-- The type, then the constraints in any order. -/
structure ColumnDef where
  type : TypeText
  before : List (Gap × Flag)
  default : Option (Gap × DefaultClause)
  after : List (Gap × Flag)

def ColumnDef.front (d : ColumnDef) : List Char := d.type.text ++ flagsText d.before

def ColumnDef.defaultText (d : ColumnDef) : List Char := d.default.elim [] fun c => c.1.val ++ c.2.text

def ColumnDef.chars (d : ColumnDef) : List Char := d.front ++ d.defaultText ++ flagsText d.after

def ColumnDef.text (d : ColumnDef) : String := String.ofList d.chars

/-! What it means. -/

def ColumnDef.flags (d : ColumnDef) : List Flag := (d.before ++ d.after).map Prod.snd

def Flag.isUnique : Flag → Bool
  | .unique _ => true
  | .notNull _ _ _ => false

def ColumnDef.unique (d : ColumnDef) : Bool := d.flags.any Flag.isUnique

def ColumnDef.literal (d : ColumnDef) : Option Literal := d.default.map fun c => c.2.literal

/-- The name of a type in `information_schema.columns`. -/
def informationSchemaName (type : String) : String :=
  match type with
  | "int" | "serial" => "integer"
  | "bigserial" => "bigint"
  | "float" => "double precision"
  | "bool" => "boolean"
  | "varchar" => "character varying"
  | "char" => "character"
  | "text[]" | "integer[]" => "ARRAY"
  | "timestamp" => "timestamp without time zone"
  | "time" => "time without time zone"
  | _ => type

def serialTypes : List String := ["serial", "bigserial"]

def ColumnDef.sqlType (d : ColumnDef) : String := informationSchemaName d.type.key

def ColumnDef.serial (d : ColumnDef) : Bool := serialTypes.contains d.type.key

/-- A serial column is never null. -/
def ColumnDef.notNull (d : ColumnDef) : Bool := d.serial || d.flags.any fun f => !f.isUnique

/-- The type that a column is altered to; a serial one is none. -/
def typeNamed (typeSql : String) : Option String :=
  let name := String.ofList ((lower typeSql.toList).takeWhile (· ≠ '('))
  if serialTypes.contains name then none else some (informationSchemaName name)

end XgenSdk.Migrations
