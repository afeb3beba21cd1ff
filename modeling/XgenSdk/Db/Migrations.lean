import XgenSdk.Py.Json

/-! The constraint migrations of the pool manager: what the model declares, what
the catalog of its table holds, and the DDL that brings them together. -/
namespace XgenSdk.Migrations
open XgenSdk.Py

/-! What a model declares. -/

/-- An entry of `get_indexes`; `unique` where the third element is true. -/
structure IndexDef where
  name : String
  columns : String
  unique : Bool

structure Model where
  tableName : String
  schema : List (String × String)
  distinct : (schema.map Prod.fst).Nodup
  indexes : List IndexDef

def isConstraintKey (key : String) : Bool := "UNIQUE_".toList.isPrefixOf key.toList || "CHECK_".toList.isPrefixOf key.toList

def columnNames (schema : List (String × String)) : List String := (schema.map Prod.fst).filter fun k => !isConstraintKey k

/-- `[c.strip() for c in text.split(',') if c.strip()]`. -/
def listed (text : List Char) : List String :=
  ((text.splitOn ',').map fun c => String.ofList (stripChars c)).filter (· ≠ "")

/-- The columns of the unique indexes on one column. -/
def declaredUniqueColumns (indexes : List IndexDef) : List String :=
  (indexes.filter IndexDef.unique).filterMap fun d =>
    match listed d.columns.toList with
    | [column] => some column
    | _ => none

/-- The first non-empty text between parentheses. Blanks around it do not matter to `listed`. -/
def parenthesized : List Char → Option (List Char)
  | [] => none
  | c :: rest =>
    let content := rest.takeWhile (· ≠ ')')
    if c = '(' && rest.contains ')' && !content.isEmpty then some content else parenthesized rest

/-- `c.strip('"')`. -/
def unquoted (c : String) : String :=
  String.ofList ((c.toList.dropWhile (· = '"')).reverse.dropWhile (· = '"')).reverse

def declaredTableUniqueColumns (schema : List (String × String)) : List String :=
  schema.filterMap fun e =>
    if !"UNIQUE_".toList.isPrefixOf e.1.toList then none
    else match (parenthesized e.2.toList).map listed with
      | some [column] => some (unquoted column)
      | _ => none

/-- `text.split()`. -/
def words (text : List Char) : List String :=
  ((text.splitOnP isSpace).filter (· ≠ [])).map String.ofList

/-- `text.find(sub)`. -/
def find (sub text : List Char) : Option Nat := text.tails.findIdx? fun rest => sub.isPrefixOf rest

structure Constraints where
  notNull : Bool
  unique : Bool
  default : Option String

def stopKeywords : List String := ["NOT", "NULL", "REFERENCES", "CHECK", "UNIQUE", "PRIMARY", "CONSTRAINT", "ON"]

/-- `upper` is `str.upper`. -/
def parseColumnConstraints (upper : String → String) (columnDef : String) : Constraints :=
  let tokens := words (upper columnDef).toList
  let rest := (find "DEFAULT".toList (upper columnDef).toList).map fun i =>
    (words (columnDef.toList.drop (i + 7))).takeWhile fun t => !stopKeywords.contains (upper t)
  { notNull := (tokens.zip tokens.tail).contains ("NOT", "NULL")
    unique := tokens.contains "UNIQUE"
    default := rest.bind fun valParts => if valParts.isEmpty then none else some (String.intercalate " " valParts) }

/-! The catalog of the table. -/

/-- What an index stands behind. -/
inductive Kind where
  | index | unique | primary | exclusion
  deriving DecidableEq, Repr

/-- An index with the constraint of the same name that it may stand behind.
An expression is a key without a column. -/
structure Relation where
  name : String
  kind : Kind
  isUnique : Bool
  keys : List (Option String)
  included : List String
  definition : String
  deriving DecidableEq, Repr

def Relation.columns (r : Relation) : List (Option String) := r.keys ++ r.included.map some

structure ColumnInfo where
  name : String
  isNullable : Bool
  columnDefault : Option String

structure Catalog where
  columns : List ColumnInfo
  relations : List Relation
  distinct : (relations.map Relation.name).Nodup

/-- Columns with a unique index that is not primary and on one column. -/
def uniqueColumns (relations : List Relation) : List String :=
  (relations.filter fun r => r.isUnique && r.kind ≠ .primary && r.columns.length = 1).flatMap fun r => r.columns.filterMap id

/-- The unique constraints whose key has the column. -/
def constraintNames (column : String) (relations : List Relation) : List String :=
  (relations.filter fun r => r.kind = .unique && r.keys.contains (some column)).map Relation.name

/-- `text LIKE pattern`. -/
def like : List Char → List Char → Bool
  | [], text => text.isEmpty
  | '%' :: pattern, text => text.tails.any (like pattern)
  | '_' :: pattern, _ :: text => like pattern text
  | '\\' :: c :: pattern, x :: text => c == x && like pattern text
  | c :: pattern, x :: text => c == x && like pattern text
  | _ :: _, [] => false

def uniquePattern (column : String) : List Char := "%UNIQUE%".toList ++ column.toList ++ ['%']

/-- The indexes whose definition is like the pattern. -/
def indexNames (column : String) (relations : List Relation) : List String :=
  (relations.filter fun r => like (uniquePattern column) r.definition.toList).map Relation.name

/-! DDL. -/

inductive Ddl where
  /-- `ALTER TABLE … ALTER COLUMN column action` -/
  | alterColumn (column action : String)
  /-- `ALTER TABLE … ADD CONSTRAINT name UNIQUE (column)` -/
  | addUnique (name column : String)
  /-- `ALTER TABLE … DROP CONSTRAINT IF EXISTS name` -/
  | dropConstraint (name : String)
  /-- `DROP INDEX IF EXISTS name` -/
  | dropIndex (name : String)
  deriving DecidableEq, Repr

/-- An index behind a constraint is not dropped by itself. -/
def Ddl.removes (r : Relation) : Ddl → Bool
  | .dropConstraint name => r.name = name && r.kind ≠ .index
  | .dropIndex name => r.name = name && r.kind = .index
  | _ => false

def uniqueOn (tableName name column : String) : Relation where
  name := name
  kind := .unique
  isUnique := true
  keys := [some column]
  included := []
  definition := "CREATE UNIQUE INDEX " ++ name ++ " ON public." ++ tableName ++ " USING btree (" ++ column ++ ")"

def Ddl.added (tableName : String) (relations : List Relation) : Ddl → List Relation
  | .addUnique name column => if relations.any fun r => r.name = name then [] else [uniqueOn tableName name column]
  | _ => []

/-- The catalog so far, what was dropped from it and what was executed. -/
structure Sync where
  relations : List Relation
  dropped : List Relation := []
  issued : List Ddl := []

/-- `_execute_ddl_strict`; `takes` says which statements the database accepts. -/
def executeDdl (takes : Nat → Bool) (tableName : String) (s : Sync) (d : Ddl) : Sync :=
  if takes s.issued.length then
    { relations := (s.relations.filter fun r => !d.removes r) ++ d.added tableName s.relations
      dropped := s.dropped ++ s.relations.filter fun r => d.removes r
      issued := s.issued ++ [d] }
  else { s with issued := s.issued ++ [d] }

def executeAll (takes : Nat → Bool) (tableName : String) (ds : List Ddl) (s : Sync) : Sync :=
  ds.foldl (executeDdl takes tableName) s

/-! Synchronising one column. -/

def notNullDdl (expected : Constraints) (current : ColumnInfo) : List Ddl :=
  if expected.notNull && current.isNullable then [.alterColumn current.name "SET NOT NULL"]
  else if !expected.notNull && !current.isNullable then [.alterColumn current.name "DROP NOT NULL"]
  else []

def constraintName (tableName columnName : String) : String := "uq_" ++ tableName ++ "_" ++ columnName

def uniqueDdl (tableName columnName : String) (expectedUnique currentIsUnique : Bool) (relations : List Relation) : List Ddl :=
  if expectedUnique && !currentIsUnique then [.addUnique (constraintName tableName columnName) columnName]
  else if !expectedUnique && currentIsUnique then
    let result := constraintNames columnName relations
    if !result.isEmpty then result.map .dropConstraint
    else (indexNames columnName relations).map .dropIndex
  else []

/-- `current_default.split('::')[0].strip().strip("'").upper()`. -/
def normalizedDefault (upper : String → String) (columnDefault : String) : String :=
  let chars := columnDefault.toList
  let first := match find "::".toList chars with
    | some i => chars.take i
    | none => chars
  upper (String.ofList (((stripChars first).dropWhile (· = '\'')).reverse.dropWhile (· = '\'')).reverse)

def defaultDdl (upper : String → String) (expected : Constraints) (current : ColumnInfo) : List Ddl :=
  match expected.default with
  | some value =>
    if current.columnDefault.any fun d => normalizedDefault upper d = upper value then []
    else [.alterColumn current.name ("SET DEFAULT " ++ value)]
  | none =>
    if current.columnDefault.any fun d => d ≠ "" && (find "nextval".toList d.toList).isNone then
      [.alterColumn current.name "DROP DEFAULT"]
    else []

def baseColumns : List String := ["id", "created_at", "updated_at"]

def Model.declaredUnique (m : Model) : List String := declaredUniqueColumns m.indexes ++ declaredTableUniqueColumns m.schema

/-- The column definition, or a declaration outside of it, says unique. -/
def expectedUnique (upper : String → String) (m : Model) (e : String × String) : Bool :=
  (parseColumnConstraints upper e.2).unique || m.declaredUnique.contains e.1

/-- Statements of one column; only the lookups for `UNIQUE` see what the earlier ones did. -/
def syncColumn (upper : String → String) (takes : Nat → Bool) (m : Model) (catalog : Catalog) (s : Sync) (e : String × String) :
    Sync :=
  if !(columnNames m.schema).contains e.1 then s
  else match catalog.columns.find? fun c => c.name = e.1 with
    | none => s
    | some current =>
      if baseColumns.contains e.1 then s
      else
        let expected := parseColumnConstraints upper e.2
        let s := executeAll takes m.tableName (notNullDdl expected current) s
        let currentIsUnique := (uniqueColumns catalog.relations).contains e.1
        let s := executeAll takes m.tableName
          (uniqueDdl m.tableName e.1 (expectedUnique upper m e) currentIsUnique s.relations) s
        executeAll takes m.tableName (defaultDdl upper expected current) s

/-- `_run_constraint_migrations` with what `_run_schema_migrations` hands it. -/
def runConstraintMigrations (upper : String → String) (takes : Nat → Bool) (m : Model) (catalog : Catalog) : Sync :=
  m.schema.foldl (syncColumn upper takes m catalog) { relations := catalog.relations }

end XgenSdk.Migrations
