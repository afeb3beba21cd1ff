import XgenSdk.Db.Conditions
import XgenSdk.Lib.Raising
import XgenSdk.Py.Codecs
import Mathlib.Data.List.Infix

/-! The pool manager: `get_connection`, the retry loop and the three execute
functions. What the database does during one attempt is a record of answers. -/
namespace XgenSdk.Pool
open XgenSdk.AppDb

/-- The classes that the handlers tell apart. -/
inductive Kind where
  | operational | interface | connection | timeout | other
  deriving DecidableEq, Repr

/-- An exception: `str(e)` and `str(e).lower()`. -/
structure DbError where
  kind : Kind
  text : String
  lowered : String
  deriving DecidableEq, Repr

def runtimeError (text : String) : DbError := ⟨.other, text, String.ofList (Py.lower text.toList)⟩

/-- `word in str(e).lower()`. -/
def DbError.mentions (e : DbError) (word : String) : Bool := decide (word.toList <:+: e.lowered.toList)

/-- What `get_connection` catches. -/
def DbError.isConnectionError (e : DbError) : Bool := e.kind = .operational || e.kind = .interface

/-- What `_execute_with_retry` tries again. -/
def DbError.isRetryable (e : DbError) : Bool := e.kind ≠ .other || e.mentions "database is locked"

abbrev Statement := String × List Value
abbrev Row := List (String × Value)

/-- What the cursor knows after a statement. -/
structure Cursor where
  description : Bool
  rowcount : Int
  lastrowid : Option Int

/-- One execution of a statement. A commit may take effect and raise. -/
structure Execution where
  executed : Except DbError Cursor
  fetched : Except DbError (List Row)
  committed : Except DbError Unit
  landed : Bool

/-- The answers during one attempt. `healthy` and `recovered`: the pool at the
beginning, and the recovery if it is not usable. `connection`: what the pool
raises instead of a connection. `recovery`, `again` and `executionAgain`: the
recovery after a connection error, the second connection and what runs on it. -/
structure Attempt where
  healthy : Bool
  recovered : Bool
  connection : Option DbError
  execution : Execution
  recovery : Bool
  again : Option DbError
  executionAgain : Execution

/-- A commit that took effect; `answered` if the caller was told. -/
structure Entry where
  statement : Statement
  rows : List Row
  answered : Bool

structure World where
  attempts : Nat → Attempt
  now : Nat
  log : List Entry

abbrev Db (α : Type) := Raising World DbError α

def nextAttempt : Db Attempt := fun w => (.ok (w.attempts w.now), { w with now := w.now + 1 })

/-! Bodies. -/

def isOk {α : Type} : Except DbError α → Bool
  | .ok _ => true
  | .error _ => false

def Execution.lands (x : Execution) : Bool := isOk x.committed || x.landed

def commit (x : Execution) (statement : Statement) (rows : List Row) : Db Unit := do
  Raising.write fun w =>
    { w with log := if x.lands then w.log ++ [⟨statement, rows, isOk x.committed⟩] else w.log }
  Raising.lift x.committed

/-- Execute, fetch where there is something to fetch, commit. -/
def body {α : Type} (fetches : Cursor → Bool) (value : Cursor → List Row → α) (statement : Statement)
    (x : Execution) : Db α := do
  let cur ← Raising.lift x.executed
  let rows ← if fetches cur then Raising.lift x.fetched else pure []
  commit x statement rows
  return value cur rows

/-! Connections. -/

def poolUnavailable : DbError := runtimeError "Connection pool not available and recovery failed"

/-- What contextlib raises when the generator yields again after an exception. -/
def didNotStop : DbError := runtimeError "generator didn't stop after throw()"

def noCursor : DbError := runtimeError "'NoneType' object has no attribute 'cursor'"

/-- `with self.get_connection() as conn: body`. -/
def getConnection {α : Type} (a : Attempt) (body : Execution → Db α) : Db α :=
  if !(a.healthy || a.recovered) then throw poolUnavailable
  else match a.connection with
    | some e =>
      -- nothing was yielded yet: the second connection is the first one of the body
      if e.isConnectionError && a.recovery then
        match a.again with
        | some e' => throw e'
        | none => body a.executionAgain
      else throw e
    | none => Raising.handle (body a.execution) fun e =>
      if e.isConnectionError && a.recovery then
        match a.again with
        | some e' => throw e'
        | none => throw didNotStop
      else throw e

/-- `with self._sqlite_lock: …`. -/
def sqliteConnection {α : Type} (a : Attempt) (body : Execution → Db α) : Db α :=
  if a.healthy || a.recovered then body a.execution else throw noCursor

def onConnection {α : Type} (db : DbType) (a : Attempt) (body : Execution → Db α) : Db α :=
  match db with
  | .postgresql => getConnection a body
  | .sqlite => sqliteConnection a body

/-! Retries. The recovery between two attempts shows in how the next one finds the pool. -/

def executeWithRetry {α : Type} (limit : Nat) (operation : Attempt → Db α) : Db α :=
  Raising.retry DbError.isRetryable (nextAttempt >>= operation) limit

/-- A failure after all retries is an answer of `None`. -/
def orNone {α : Type} (m : Db α) : Db (Option α) := Raising.handle (some <$> m) fun _ => pure none

def executeQuery (db : DbType) (limit : Nat) (statement : Statement) : Db (Option (List Row)) :=
  orNone (executeWithRetry limit fun a =>
    onConnection db a (body Cursor.description (fun _ rows => rows) statement))

def firstId (rows : List Row) : Option Value := rows.head?.bind fun row => row.lookup "id"

/-- Whether the insert reads its answer with `fetchone`. -/
def returning (db : DbType) : Bool := db = .postgresql

def executeInsert (db : DbType) (limit : Nat) (statement : Statement) : Db (Option Value) := do
  let answer ← orNone (executeWithRetry limit fun a =>
    onConnection db a (body (fun _ => returning db)
      (fun cur rows => if returning db then firstId rows else cur.lastrowid.map Value.int) statement))
  return answer.join

def executeUpdateDelete (db : DbType) (limit : Nat) (statement : Statement) : Db (Option Int) :=
  orNone (executeWithRetry limit fun a =>
    onConnection db a (body (fun _ => false) (fun cur _ => cur.rowcount) statement))

end XgenSdk.Pool
