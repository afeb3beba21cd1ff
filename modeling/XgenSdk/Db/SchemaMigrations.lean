import XgenSdk.Db.ColumnTexts
import XgenSdk.Db.ConstraintDrops
import XgenSdk.Lib.Runs

/-! The schema migrations of one table: the statements that the pool manager executes
at a boot, and what they make of the table. -/
namespace XgenSdk.Migrations
open XgenSdk.Py XgenSdk.Runs

/-! The table. -/

structure Column extends ColumnInfo where
  dataType : String

/-- A table as the catalog reports it. -/
structure Table where
  columns : List Column
  relations : List Relation
  named : (columns.map fun c => c.name).Nodup
  distinct : Distinct relations

def Table.column (t : Table) (name : String) : Option Column := t.columns.find? fun c => c.name = name

def Table.catalog (t : Table) : Catalog where
  columns := t.columns.map Column.toColumnInfo
  relations := t.relations
  distinct := t.distinct

def Table.add (t : Table) (c : Column) : Table :=
  if h : c.name ∈ t.columns.map fun c => c.name then t
  else { t with
    columns := t.columns ++ [c]
    named := by
      rw [List.map_append]
      exact t.named.append (List.nodup_singleton _) (by simpa using h) }

def Table.relate (t : Table) (r : Relation) : Table :=
  if h : r.name ∈ t.relations.map Relation.name then t
  else { t with
    relations := t.relations ++ [r]
    distinct := by
      rw [Distinct, List.map_append]
      exact List.Nodup.append t.distinct (List.nodup_singleton _) (by simpa using h) }

def Table.alter (t : Table) (name : String) (f : Column → Column) : Table where
  columns := t.columns.map fun c => if c.name = name then { f c with name := c.name } else c
  relations := t.relations
  named := by
    have hnames : (t.columns.map fun c => if c.name = name then { f c with name := c.name } else c).map (fun c => c.name) =
        t.columns.map fun c => c.name := by
      rw [List.map_map]
      refine List.map_congr_left fun c _ => ?_
      rw [Function.comp_apply]
      split <;> rfl
    rw [hnames]
    exact t.named
  distinct := t.distinct

def Table.keep (t : Table) (column : Column → Bool) (relation : Relation → Bool) : Table where
  columns := t.columns.filter column
  relations := t.relations.filter relation
  named := (List.filter_sublist.map _).nodup t.named
  distinct := (List.filter_sublist.map _).nodup t.distinct

/-! What the code executes. -/

/-- A model and the definitions that are written in its schema. -/
structure TypedModel extends Model where
  definition : String → ColumnDef
  written : ∀ e ∈ schema, e.1 ∈ columnNames schema → e.2 = (definition e.1).text

inductive Statement where
  /-- `ALTER TABLE … ADD COLUMN IF NOT EXISTS column columnDef` -/
  | addColumn (column columnDef : String)
  /-- `ALTER TABLE … ALTER COLUMN column TYPE typeSql usingClause` -/
  | alterType (column typeSql usingClause : String)
  /-- `ALTER TABLE … DROP COLUMN IF EXISTS column` -/
  | dropColumn (column : String)
  | sync (d : Ddl)
  deriving DecidableEq, Repr

variable (u : Uppercase) (m : TypedModel) (t : Table)

def missingColumns : List (String × String) :=
  m.schema.filter fun e => (columnNames m.schema).contains e.1 && (t.column e.1).isNone

/-- The columns of another type than the model has for them, with that type. -/
def typeMismatchColumns : List ((String × String) × String) :=
  m.schema.filterMap fun e =>
    if (columnNames m.schema).contains e.1 then
      (t.column e.1).bind fun current =>
        (normalizePgType e.2).bind fun expected => if current.dataType ≠ expected then some (e, current.dataType) else none
    else none

def alterColumnType (e : (String × String) × String) : List Statement :=
  match normalizePgType e.1.2 with
  | none => []
  | some expected =>
    let typeSql := extractTypeSql u.text e.1.2
    .alterType e.1.1 typeSql (buildUsingClause e.1.1 e.2 expected typeSql) ::
      ((extractDefault u.text e.1.2).map fun value => Statement.sync (.alterColumn e.1.1 ("SET DEFAULT " ++ value))).toList

def staleColumns : List String :=
  (t.columns.map fun c => c.name).filter fun name => !(columnNames m.schema).contains name && !baseColumns.contains name

/-- Columns added, altered and dropped. -/
def columnStatements : List Statement :=
  (missingColumns m t).map (fun e => .addColumn e.1 e.2) ++ (typeMismatchColumns m t).flatMap (alterColumnType u) ++
    (staleColumns m t).map .dropColumn

/-! What the statements mean. -/

/-- PostgreSQL, as far as the statements leave it open. -/
structure Postgres where
  /-- What the catalog shows for a default on a column of a type. -/
  rendered : String → String → String
  boolean : ∀ dataType value, lower value.toList ∈ ["true".toList, "false".toList] →
    rendered dataType value = String.ofList (lower value.toList)
  /-- The default of a serial column. -/
  sequence : String → String → String
  /-- The name that a constraint gets. -/
  keyName : String → List Relation → String → String
  fresh : ∀ tableName relations column, keyName tableName relations column ∉ relations.map Relation.name
  /-- What a default becomes with the type of its column. -/
  converted : String → String → String
  /-- The expressions and the predicate of an index need the column. -/
  needs : String → Relation → Bool

variable (pg : Postgres)

/-- What is in the way of a column, or goes with it. -/
def Postgres.takes (column : String) (r : Relation) : Bool :=
  r.columns.contains (some column) || (r.kind ≠ .unique && pg.needs column r)

def newColumn (column : String) : Column :=
  let d := m.definition column
  { name := column
    isNullable := !d.notNull
    dataType := d.sqlType
    columnDefault := (d.literal.map fun l => pg.rendered d.sqlType (String.ofList l.text)).or
      (if d.serial then some (pg.sequence m.tableName column) else none) }

def altered (action : String) (c : Column) : Column :=
  if action = "SET NOT NULL" then { c with isNullable := false }
  else if action = "DROP NOT NULL" then { c with isNullable := true }
  else if action = "DROP DEFAULT" then { c with columnDefault := none }
  else if "SET DEFAULT ".toList.isPrefixOf action.toList then
    { c with columnDefault := some (pg.rendered c.dataType (String.ofList (action.toList.drop 12))) }
  else c

def Table.addColumn (column : String) : Table :=
  if (t.column column).isSome then t
  else
    let added := t.add (newColumn m pg column)
    if (m.definition column).unique then
      added.relate (uniqueOn m.tableName (pg.keyName m.tableName t.relations column) column)
    else added

def Table.alterType (column typeSql : String) : Table :=
  match typeNamed typeSql with
  | some dataType => t.alter column fun c => { c with dataType := dataType, columnDefault := c.columnDefault.map (pg.converted dataType) }
  | none => t

def Table.dropColumn (column : String) : Table := t.keep (fun c => c.name ≠ column) fun r => !pg.takes column r

/-- A constraint or an index comes or goes, or a column changes. -/
def Table.sync (d : Ddl) : Table :=
  let related : Table :=
    { t with
      relations := (executeDdl (fun _ => true) m.tableName { relations := t.relations } d).relations
      distinct := executeDdl_distinct t.distinct }
  match d with
  | .alterColumn column action => related.alter column (altered pg action)
  | _ => related

def execute (t : Table) : Statement → Table
  | .addColumn column _ => t.addColumn m pg column
  | .alterType column typeSql _ => t.alterType pg column typeSql
  | .dropColumn column => t.dropColumn pg column
  | .sync d => t.sync m pg d

/-- A name that PostgreSQL keeps as it is written without quotes. -/
def IsPlain (name : String) : Prop := lower name.toList = name.toList ∧ name.utf8ByteSize < 64

/-- Statements that the database executes, with the names that they are written with. -/
def Taken (d : Statement) (t : Table) : Prop :=
  match d with
  | .addColumn column _ => IsPlain column
  | .alterType column typeSql _ => IsPlain column ∧ (typeNamed typeSql).isSome = true
  | .dropColumn column => IsPlain column
  | .sync (.alterColumn column _) => IsPlain column
  | .sync (.addUnique name column) => IsPlain name ∧ IsPlain column ∧ name ∉ t.relations.map Relation.name
  | .sync (.dropConstraint name) => IsPlain name
  | .sync (.dropIndex name) => IsPlain name ∧ ∀ r ∈ t.relations, r.name = name → r.kind = .index

/-- `_run_schema_migrations` for one model, where every statement succeeds: what it executes. -/
def runSchemaMigrations : List Statement :=
  if t.columns.isEmpty then []
  else
    let statements := columnStatements u m t
    statements ++ (runConstraintMigrations u.text (fun _ => true) m.toModel
      (after (execute m pg) statements t).catalog).issued.map .sync

/-- The table after a boot. -/
def booted : Table := after (execute m pg) (runSchemaMigrations u m t pg) t

def Accepted : Prop := Along (execute m pg) Taken (runSchemaMigrations u m t pg) t

/-- The next boot executes nothing. -/
def Converges : Prop := runSchemaMigrations u m (booted u m t pg) pg = []

end XgenSdk.Migrations
