import XgenSdk.Py.Json
import XgenSdk.Lib.Dict
import XgenSdk.Lib.Interleave

/-! The client of the sessions and of plain keys: its calls as programs over the commands of Redis. -/
namespace XgenSdk.RedisClient
open XgenSdk.Py XgenSdk.Interleave

/-! Redis. -/

inductive Command where
  | get (key : String)
  | set (key data : String)
  | setex (key : String) (ttl : Int) (data : String)
  | delete (key : String)
  | sadd (key member : String)
  | srem (key member : String)
  deriving DecidableEq, Repr

/-- What a command answers: `none` where it raises, and a text where one was asked for and found. -/
abbrev Reply (_ : Command) : Type := Option (Option String)

inductive Entry where
  | text (data : String)
  | members (members : List String)
  deriving DecidableEq, Repr

abbrev Redis : Type := String → Option Entry

/-- A set without members is no key. -/
def ofMembers (members : List String) : Option Entry := if members = [] then none else some (.members members)

/-- One command. -/
def Command.run (r : Redis) : Command → Option (Option String) × Redis
  | .get key =>
    match r key with
    | none => (some none, r)
    | some (.text data) => (some (some data), r)
    | some (.members _) => (none, r)
  | .set key data => (some none, Function.update r key (some (.text data)))
  | .setex key ttl data => if ttl ≤ 0 then (none, r) else (some none, Function.update r key (some (.text data)))
  | .delete key => (some none, Function.update r key none)
  | .sadd key member =>
    match r key with
    | none => (some none, Function.update r key (some (.members [member])))
    | some (.members members) => (some none, Function.update r key (some (.members (members.insert member))))
    | some (.text _) => (none, r)
  | .srem key member =>
    match r key with
    | none => (some none, r)
    | some (.members members) => (some none, Function.update r key (ofMembers (members.erase member)))
    | some (.text _) => (none, r)

/-- A command that is not answered changes nothing. -/
def exec (answered : Command → Bool) (c : Command) (r : Redis) : Reply c × Redis := if answered c then c.run r else (none, r)

/-! Values. -/

/-- What a session may hold; `T` is the type of the datetimes. -/
inductive Data (T : Type) where
  | null
  | bool (b : Bool)
  | int (n : Int)
  | float (x : PyFloat)
  | str (s : String)
  | time (t : T)
  | list (items : List (Data T))
  | dict (fields : List (String × Data T))

abbrev Fields (T : Type) : Type := List (String × Data T)

/-- What `json.loads` gives: a value, `JSONDecodeError` or another exception. -/
inductive Loaded where
  | value (v : Json)
  | decodeError
  | raised

structure Libraries (T : Type) where
  loads : String → Loaded
  /-- `none` where it raises. -/
  dumps : Json → Option String
  isoformat : T → String
  /-- `none` for `ValueError`. -/
  fromisoformat : String → Option T

variable {T : Type} (lib : Libraries T)

mutual

/-- What `json.dumps` takes for a value; a datetime is a `TypeError`. -/
def jsonOf : Data T → Option Json
  | .null => some .null
  | .bool b => some (.bool b)
  | .int n => some (.int n)
  | .float x => some (.float x)
  | .str s => some (.str s)
  | .time _ => none
  | .list items => (jsonOfItems items).map .arr
  | .dict fields => (jsonOfFields fields).map .obj

def jsonOfItems : List (Data T) → Option (List Json)
  | [] => some []
  | x :: xs => (jsonOf x).bind fun v => (jsonOfItems xs).map (v :: ·)

def jsonOfFields : Fields T → Option (List (String × Json))
  | [] => some []
  | (key, x) :: fields => (jsonOf x).bind fun v => (jsonOfFields fields).map ((key, v) :: ·)

end

mutual

/-- A value as `json.loads` gives it. -/
def ofJson : Json → Data T
  | .null => .null
  | .bool b => .bool b
  | .int n => .int n
  | .float x => .float x
  | .str s => .str s
  | .arr items => .list (ofJsonItems items)
  | .obj fields => .dict (ofJsonFields fields)

def ofJsonItems : List Json → List (Data T)
  | [] => []
  | v :: vs => ofJson v :: ofJsonItems vs

def ofJsonFields : List (String × Json) → Fields T
  | [] => []
  | (key, v) :: fields => (key, ofJson v) :: ofJsonFields fields

end

mutual

/-- `_serialize_session_data`. -/
def serializeSessionData : Fields T → Fields T
  | [] => []
  | (key, value) :: fields => (key, serializeValue value) :: serializeSessionData fields

def serializeValue : Data T → Data T
  | .time t => .str (lib.isoformat t)
  | .dict fields => .dict (serializeSessionData fields)
  | value => value

end

def datetimeFields : List String := ["created_at", "updated_at", "started_at", "stopped_at"]

/-- A text under one of the names is a datetime where it can be read as one. -/
def deserializeText (key text : String) : Data T :=
  if key ∈ datetimeFields then (lib.fromisoformat text).elim (.str text) .time else .str text

mutual

/-- `_deserialize_session_data`. -/
def deserializeSessionData : List (String × Json) → Fields T
  | [] => []
  | (key, value) :: fields => (key, deserializeValue key value) :: deserializeSessionData fields

def deserializeValue (key : String) : Json → Data T
  | .str text => deserializeText lib key text
  | .obj fields => .dict (deserializeSessionData fields)
  | value => ofJson value

end

/-! Calls. -/

abbrev Call (α : Type) : Type := Prog Reply Unit α

def call (c : Command) : Call (Option String) := .act c fun r => r.elim (.raise ()) .done

def ofOption {α : Type} (o : Option α) : Call α := o.elim (.raise ()) .done

/-- `try: … except Exception: return fallback`. -/
def orReturn {α : Type} (fallback : α) : Call α → Call α
  | .done a => .done a
  | .raise _ => .done fallback
  | .act c next => .act c fun r => orReturn fallback (next r)

/-- What a client knows: whether it has a connection, and the prefix of its keys. -/
structure Client where
  connectionAvailable : Bool
  keyPrefix : String

variable (client : Client)

/-- `_make_key`. -/
def Client.makeKey (parts : List String) : String := client.keyPrefix ++ ":" ++ String.intercalate ":" parts

def Client.sessionKey (sessionId : String) : String := client.makeKey ["session", sessionId]

def Client.sessionsKey : String := client.makeKey ["sessions"]

/-- A text for a time, where there is one. -/
def store (key data : String) (ttl : Option Int) : Command :=
  match ttl with
  | none => .set key data
  | some seconds => if seconds = 0 then .set key data else .setex key seconds data

/-- `save_session`. -/
def saveSession (sessionId : String) (sessionData : Fields T) (ttl : Option Int) : Call Bool :=
  if client.connectionAvailable then orReturn false do
    let json ← ofOption (jsonOfFields (serializeSessionData lib sessionData))
    let data ← ofOption (lib.dumps (.obj json))
    let _ ← call (store (client.sessionKey sessionId) data ttl)
    let _ ← call (.sadd client.sessionsKey sessionId)
    .done true
  else .done false

/-- A stored session as it is read; `none` where that raises. -/
def readSession (data : String) : Option (Fields T) :=
  match lib.loads data with
  | .value (.obj fields) => some (deserializeSessionData lib fields)
  | _ => none

/-- `get_session`. -/
def getSession (sessionId : String) : Call (Option (Fields T)) :=
  if client.connectionAvailable then orReturn none do
    let found ← call (.get (client.sessionKey sessionId))
    match found with
    | none => .done none
    | some data => if data = "" then .done none else (readSession lib data).elim (.raise ()) fun fields => .done (some fields)
  else .done none

/-- `delete_session`. -/
def deleteSession (sessionId : String) : Call Bool :=
  if client.connectionAvailable then orReturn false do
    let _ ← call (.delete (client.sessionKey sessionId))
    let _ ← call (.srem client.sessionsKey sessionId)
    .done true
  else .done false

/-- `update_session_field`. -/
def updateSessionField (sessionId field : String) (value : Data T) : Call Bool :=
  if client.connectionAvailable then orReturn false do
    let sessionData ← getSession lib client sessionId
    match sessionData with
    | none => .done false
    | some fields => if fields.isEmpty then .done false else saveSession lib client sessionId (Dict.setEntries field value fields) none
  else .done false

/-- The text of a value for a plain key: a text is its own. -/
def encode : Json → Option String
  | .str s => some s
  | value => lib.dumps value

/-- `set`. -/
def set (key : String) (value : Json) (ttl : Option Int) : Call Bool :=
  if client.connectionAvailable then orReturn false do
    let data ← ofOption (encode lib value)
    let _ ← call (store (client.makeKey [key]) data ttl)
    .done true
  else .done false

/-- A stored text as it is read; `none` where that raises. -/
def decode (data : String) : Option Json :=
  match lib.loads data with
  | .value v => some v
  | .decodeError => some (.str data)
  | .raised => none

/-- `get`. -/
def get (key : String) (default : Json) : Call Json :=
  if client.connectionAvailable then orReturn default do
    let found ← call (.get (client.makeKey [key]))
    match found with
    | none => .done default
    | some data => (decode lib data).elim (.raise ()) .done
  else .done default

end XgenSdk.RedisClient
