import XgenSdk.Db.Pool
import XgenSdk.Py.Json

/-! The operations of the application database on models and on tables by name. -/
namespace XgenSdk.Records
open XgenSdk.AppDb XgenSdk.Pool

/-- The database behind the operations: its type, the retry limit of the pool
manager, `str`, `json.dumps` and `str.upper`. -/
structure XgenDb where
  dbType : DbType
  retryLimit : Nat
  texts : Texts
  upper : String → String

/-! Recovery around an operation. -/

def retryWords : List String :=
  ["connection", "timeout", "closed", "refused", "reset", "broken", "network", "operational", "interface", "pool", "unavailable"]

def isRetryable (e : DbError) : Bool := retryWords.any e.mentions

def maxRetries : Nat := 3

/-- `_ensure_connection` and `reconnect` between two tries raise nothing, and their answers are not used. -/
def withAutoRecovery {α : Type} (operation : Db α) : Db α := Raising.retry isRetryable operation maxRetries

/-! Statements. -/

def listIndex : DbError := runtimeError "list index out of range"

/-- `xs[i]`. -/
def item {α : Type} (xs : List α) (i : Nat) : Except DbError α :=
  match xs[i]? with
  | some a => .ok a
  | none => .error listIndex

def commaList (xs : List String) : String := String.intercalate ", " xs

/-- A model: its queries, and the attributes that `original_data` collects. -/
structure Model where
  insertQuery : DbType → Except DbError Statement
  updateQuery : DbType → Except DbError Statement
  attributes : List (String × Value)

/-- The list that an attribute holds, else the value at this place. -/
def Model.processed (m : Model) (values : List Value) (column : String) (i : Nat) : Except DbError Value :=
  match m.attributes.lookup column with
  | some (.list vs) => .ok (.list vs)
  | _ => item values i

def Model.insertStatement (m : Model) (db : DbType) : Except DbError Statement := do
  let (query, values) ← m.insertQuery db
  if db = .postgresql then
    let columnsPart := ((← item (query.splitOn "(") 1).splitOn ")").headD ""
    let columns := (columnsPart.splitOn ",").map Py.strip
    let values ← columns.zipIdx.mapM fun c => m.processed values c.1 c.2
    return (query ++ " RETURNING id", values)
  else return (query, values)

def Model.updateStatement (m : Model) (db : DbType) : Except DbError Statement := do
  let (query, values) ← m.updateQuery db
  let setPart := ((← item (query.splitOn "SET") 1).splitOn "WHERE").headD ""
  let setClauses := (Py.strip setPart).splitOn ","
  let columns := setClauses.map fun clause => Py.strip ((clause.splitOn "=").headD "")
  let values' ← columns.zipIdx.mapM fun c =>
    if db = .postgresql then m.processed values c.1 c.2 else item values c.2
  let last ← item values.reverse 0
  return (query, values' ++ [last])

def mark (db : DbType) : String := (placeholder db).text

def assignments (db : DbType) (columns : List String) : String := commaList (columns.map fun k => k ++ " = " ++ mark db)

def insertRecordStatement (x : XgenDb) (tableName : String) (data : List (String × Value)) : Statement :=
  let serializedData := serializeData x.texts data
  let columns := serializedData.map Prod.fst
  let query := "INSERT INTO " ++ tableName ++ " (" ++ commaList columns ++ ") VALUES (" ++
    commaList (columns.map fun _ => mark x.dbType) ++ ")"
  (if x.dbType = .postgresql then query ++ " RETURNING id" else query, serializedData.map Prod.snd)

def updateRecordStatement (x : XgenDb) (tableName : String) (data : List (String × Value)) (recordId : Value) : Statement :=
  let serializedData := serializeData x.texts data
  ("UPDATE " ++ tableName ++ " SET " ++ assignments x.dbType (serializedData.map Prod.fst) ++ " WHERE id = " ++ mark x.dbType,
    serializedData.map Prod.snd ++ [recordId])

def updateByConditionStatement (x : XgenDb) (tableName : String) (updates conditions : List (String × Value)) : Statement :=
  let serializedUpdates := serializeData x.texts updates
  let built := buildWhere x.texts x.dbType conditions
  ("UPDATE " ++ tableName ++ " SET " ++ assignments x.dbType (serializedUpdates.map Prod.fst) ++ " WHERE " ++
      Sql.text (whereClause built.clauses),
    serializedUpdates.map Prod.snd ++ built.values)

def deleteRecordStatement (x : XgenDb) (tableName : String) (recordId : Value) : Statement :=
  ("DELETE FROM " ++ tableName ++ " WHERE id = " ++ mark x.dbType, [recordId])

def deleteByConditionStatement (x : XgenDb) (tableName : String) (conditions : List (String × Value)) : Statement :=
  let built := buildWhere x.texts x.dbType conditions
  ("DELETE FROM " ++ tableName ++ " WHERE " ++ Sql.text (whereClause built.clauses), built.values)

/-! Writes. -/

/-- `{"success": …, "id": …, "error": …}`. -/
structure InsertReport where
  success : Bool
  id : Option Value
  error : Option String := none

/-- `{"success": …, "affected_rows": …, "error": …}`. -/
structure ChangeReport where
  success : Bool
  affectedRows : Int
  error : Option String := none

/-- `{"result": "success", "id": id}`, or `None`. -/
def insert (x : XgenDb) (model : Model) : Db (Option (Option Value)) :=
  Raising.handle (withAutoRecovery do
    let statement ← Raising.lift (model.insertStatement x.dbType)
    let insertId ← executeInsert x.dbType x.retryLimit statement
    return some insertId) fun _ => return none

/-- `{"result": "success"}`, or `False`. -/
def update (x : XgenDb) (model : Model) : Db Bool :=
  Raising.handle (withAutoRecovery do
    let statement ← Raising.lift (model.updateStatement x.dbType)
    let _ ← executeUpdateDelete x.dbType x.retryLimit statement
    return true) fun _ => return false

def insertRecord (x : XgenDb) (tableName : String) (data : List (String × Value)) : Db InsertReport :=
  Raising.handle (withAutoRecovery do
    let insertId ← executeInsert x.dbType x.retryLimit (insertRecordStatement x tableName data)
    return { success := true, id := insertId }) fun e => return { success := false, id := none, error := some e.text }

/-- The four operations that report how many rows they changed. -/
def change (x : XgenDb) (statement : Statement) : Db ChangeReport :=
  Raising.handle (withAutoRecovery do
    let affectedRows ← executeUpdateDelete x.dbType x.retryLimit statement
    return { success := true, affectedRows := affectedRows.getD 0 })
    fun e => return { success := false, affectedRows := 0, error := some e.text }

def updateRecord (x : XgenDb) (tableName : String) (data : List (String × Value)) (recordId : Value) : Db ChangeReport :=
  change x (updateRecordStatement x tableName data recordId)

def updateRecordsByCondition (x : XgenDb) (tableName : String) (updates conditions : List (String × Value)) :
    Db ChangeReport :=
  change x (updateByConditionStatement x tableName updates conditions)

def deleteRecord (x : XgenDb) (tableName : String) (recordId : Value) : Db ChangeReport :=
  change x (deleteRecordStatement x tableName recordId)

def deleteRecordsByCondition (x : XgenDb) (tableName : String) (conditions : List (String × Value)) : Db ChangeReport :=
  change x (deleteByConditionStatement x tableName conditions)

/-! Reads. -/

structure Search where
  tableName : String
  conditions : List (String × Value)
  limit : Int := 500
  offset : Int := 0
  orderby : String := "id"
  orderbyAsc : Bool := false
  selectColumns : List String := []
  ignoreColumns : List String := []
  joinUser : Bool := false

def schemaStatement (db : DbType) (tableName : String) : Statement :=
  if db = .postgresql then
    ("\n                    SELECT column_name, data_type, is_nullable, column_default\n" ++
      "                    FROM information_schema.columns\n" ++
      "                    WHERE table_name = %s\n" ++
      "                    ORDER BY ordinal_position\n                ", [.str tableName])
  else ("PRAGMA table_info(" ++ tableName ++ ")", [])

def getTableSchema (x : XgenDb) (tableName : String) : Db (List Row) := do
  let results ← executeQuery x.dbType x.retryLimit (schemaStatement x.dbType tableName)
  return results.getD []

def noColumnName : DbError := runtimeError "'column_name'"

def notText : DbError := runtimeError "sequence item: expected str instance"

/-- `col['column_name']`, to be joined with others. -/
def columnName (col : Row) : Except DbError String :=
  match col.lookup "column_name" with
  | none => .error noColumnName
  | some (.str name) => .ok name
  | some _ => .error notText

/-- Whether the columns are those of the table less some. -/
def Search.needsSchema (s : Search) : Bool := !s.joinUser && s.selectColumns.isEmpty && !s.ignoreColumns.isEmpty

def Search.columns (s : Search) (schema : List Row) : Except DbError String :=
  if s.joinUser then
    .ok ((if s.selectColumns.isEmpty then "t.*" else commaList (s.selectColumns.map ("t." ++ ·))) ++ ", u.username, u.full_name")
  else if !s.selectColumns.isEmpty then .ok (commaList s.selectColumns)
  else if s.ignoreColumns.isEmpty then .ok "*"
  else do
    let allColumns ← schema.mapM columnName
    let filteredColumns := allColumns.filter fun col => !s.ignoreColumns.contains col
    return if filteredColumns.isEmpty then "*" else commaList filteredColumns

/-- With a join the suffix of a key is cut off and put back behind the prefix. -/
def Search.where (s : Search) (x : XgenDb) : Built :=
  buildWhere x.texts x.dbType (if s.joinUser then s.conditions.map fun c => ("t." ++ c.1, c.2) else s.conditions)

def Search.statement (s : Search) (x : XgenDb) (schema : List Row) : Except DbError Statement := do
  let columns ← s.columns schema
  let fromClause := if s.joinUser then s.tableName ++ " t LEFT JOIN users u ON t.user_id = u.id" else s.tableName
  let orderbyField := if s.joinUser then "t." ++ s.orderby else s.orderby
  let upperOrderby := Py.strip (x.upper orderbyField)
  let effectiveOrderby :=
    if endsWith upperOrderby " DESC" || endsWith upperOrderby " ASC" then orderbyField
    else orderbyField ++ " " ++ (if s.orderbyAsc then "ASC" else "DESC")
  return ("SELECT " ++ columns ++ " FROM " ++ fromClause ++ " WHERE " ++ Sql.text (whereClause (s.where x).clauses) ++
      " ORDER BY " ++ effectiveOrderby ++ " LIMIT " ++ mark x.dbType ++ " OFFSET " ++ mark x.dbType,
    (s.where x).values ++ [.int s.limit, .int s.offset])

/-- The schema, where the columns depend on it. -/
def schemaFor (x : XgenDb) (s : Search) : Db (List Row) :=
  if s.needsSchema then getTableSchema x s.tableName else pure []

def findRecordsByCondition (x : XgenDb) (s : Search) : Db (List Row) :=
  withAutoRecovery do
    let schema ← schemaFor x s
    let statement ← Raising.lift (s.statement x schema)
    let results ← executeQuery x.dbType x.retryLimit statement
    return results.getD []

end XgenSdk.Records
