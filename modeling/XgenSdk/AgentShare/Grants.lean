import Mathlib.Data.List.Dedup
import Mathlib.Data.List.Sort
import XgenSdk.Lib.Checks
import XgenSdk.Lib.Dict
import XgenSdk.Py.Codecs
import XgenSdk.Py.Json

/-! Sharing an agent: who may use it with which permission, as the columns of its row say. -/
namespace XgenSdk.AgentShare
open XgenSdk.Py

abbrev Fields := List (String × Json)

/-- What the language itself raises here: for digits that are too many or not decimal, for a
loop over what is no list, for too deep nesting. -/
inductive Raised where
  | valueError
  | typeError
  | recursionError
  deriving DecidableEq, Repr

abbrev Result := Except Raised

/-- `json.loads`, and whether `str()` of a value nests too deep. -/
structure Interpreter where
  loads : List Char → Result Json
  tooDeep : Json → Bool

/-- `sys.get_int_max_str_digits()`. -/
def maxStrDigits : Nat := 4300

mutual

/-- Some integer in it has too many digits for `str()`. -/
def hasLongInt : Json → Bool
  | .int n => (Nat.toDigits 10 n.natAbs).length > maxStrDigits
  | .arr xs => anyLongInt xs
  | .obj fields => anyLongField fields
  | _ => false

def anyLongInt : List Json → Bool
  | [] => false
  | x :: xs => hasLongInt x || anyLongInt xs

def anyLongField : List (String × Json) → Bool
  | [] => false
  | f :: fields => hasLongInt f.2 || anyLongField fields

end

/-- `str(v)`. -/
def toText (py : Interpreter) : Json → Result String
  | .str s => .ok s
  | v => if py.tooDeep v then .error .recursionError else if hasLongInt v then .error .valueError else .ok v.toStr

/-- `str(v or "")`. -/
def textOr (py : Interpreter) (v : Json) : Result String := if v.truthy then toText py v else .ok ""

def digitCount (s : String) : Nat := (s.toList.filter fun c => (digitValue c).isSome).length

/-- `int(s)`. -/
def intOfText (s : String) : Result Int :=
  if digitCount s > maxStrDigits then .error .valueError
  else match intOfString s with
    | some n => .ok n
    | none => .error .valueError

/-! Permissions and grants. -/

inductive Permission where
  | read
  | readWrite
  deriving DecidableEq, Repr

def Permission.text : Permission → String
  | .read => "read"
  | .readWrite => "read_write"

/-- `_RANK`. -/
def Permission.rank : Permission → Nat
  | .read => 1
  | .readWrite => 2

/-- `_RANK.get(permission, 0)`. -/
def rankOf (permission : Option Permission) : Nat := (permission.map Permission.rank).getD 0

/-- `normalize_permission`. No letter beyond ASCII becomes one of these texts in lower case. -/
def normalizePermission (py : Interpreter) (value : Json) : Result (Option Permission) := do
  let raw ← textOr py value
  let text := lower (stripChars raw.toList)
  return if text = "read".toList ∨ text = "read_only".toList then some .read
    else if text = "read_write".toList then some .readWrite
    else none

/-- `_as_mapping`: a `TypeError` or a `ValueError` of `json.loads` is caught. -/
def asMapping (py : Interpreter) : Json → Result Fields
  | .str s =>
    if strip s = "" then .ok []
    else match py.loads s.toList with
      | .ok (.obj fields) => .ok fields
      | .error .recursionError => .error .recursionError
      | _ => .ok []
  | .obj fields => .ok fields
  | _ => .ok []

/-- Permissions by the names of roles, or by the ids of users. -/
abbrev Shares := Dict String Permission

structure Grants where
  roles : Shares
  users : Shares

def noGrants : Grants := ⟨Dict.empty, Dict.empty⟩

/-- One entry of `share_users`. -/
def addUser (py : Interpreter) (out : Shares) (entry : String × Json) : Result Shares :=
  let text := strip entry.1
  if !isDigits text then .ok out
  else do
    match ← normalizePermission py entry.2 with
    | none => return out
    | some permission =>
      let id ← intOfText text
      return out.set (toString id) permission

/-- `parse_user_grants`. -/
def parseUserGrants (py : Interpreter) (value : Json) : Result Shares := do
  (← asMapping py value).foldlM (addUser py) Dict.empty

/-- `_LEGACY_KEYS`. -/
def legacyKeys : List String := ["_default"]

def isRole (name : String) : Bool := name ≠ "" && !legacyKeys.contains name

/-- One entry of `share_permissions`. -/
def addRole (py : Interpreter) (out : Shares) (entry : String × Json) : Result Shares := do
  let name := strip entry.1
  match ← normalizePermission py entry.2 with
  | none => return out
  | some permission => return if isRole name then out.set name permission else out

/-- One role of an old row. -/
def addOldRole (py : Interpreter) (out : Shares) (role : Json) : Result Shares := do
  let name := strip (← textOr py role)
  return if isRole name then out.set name .read else out

/-- What `for role in share_roles or []` goes over. -/
def rolesIn (shareRoles : Json) : Result (List Json) :=
  if !shareRoles.truthy then .ok []
  else match shareRoles with
    | .arr roles => .ok roles
    | .str s => .ok (s.toList.map fun c => .str (String.ofList [c]))
    | .obj fields => .ok (fields.map fun f => .str f.1)
    | _ => .error .typeError

/-- `parse_role_grants`. -/
def parseRoleGrants (py : Interpreter) (sharePermissions shareRoles : Json) : Result Shares := do
  let perms ← asMapping py sharePermissions
  if perms.isEmpty then (← rolesIn shareRoles).foldlM (addOldRole py) Dict.empty
  else perms.foldlM (addRole py) Dict.empty

/-- `row.get(name)`. -/
def column (row : Fields) (name : String) : Json := (Json.lookup name row).getD .null

/-- `"is_shared" in row and not row.get("is_shared")`. -/
def isTurnedOff (row : Fields) : Bool := (Json.lookup "is_shared" row).any fun value => !value.truthy

/-- `grants_of`. -/
def grantsOf (py : Interpreter) (row : Fields) : Result Grants :=
  if isTurnedOff row then .ok noGrants
  else do
    let roles ← parseRoleGrants py (column row "share_permissions") (column row "share_roles")
    let users ← parseUserGrants py (column row "share_users")
    return ⟨roles, users⟩

def hasTargets (grants : Grants) : Bool := !grants.roles.entries.isEmpty || !grants.users.entries.isEmpty

/-- One more permission beside the best so far. -/
def raise (best permission : Option Permission) : Option Permission :=
  if permission.isSome && (best.isNone || rankOf best < rankOf permission) then permission else best

def higher (permissions : List (Option Permission)) : Option Permission := permissions.foldl raise none

/-! Policies. -/

abbrev Settings := Dict String String

/-- `DEFAULT_SETTINGS`. -/
def defaultSettings : Settings where
  entries := [("policy", "INDEPENDENT"), ("permission_mode", "READ_ONLY"), ("on_undeploy", "SUSPEND")]
  nodup := by decide

/-- `settings or DEFAULT_SETTINGS`. -/
def settingsOr (settings : Option Settings) : Settings := (settings.filter fun s => !s.entries.isEmpty).getD defaultSettings

def shareEffectGated (settings : Option Settings) : Bool :=
  (settingsOr settings).get "policy" = some "DEPLOY_GATED" && (settingsOr settings).get "on_undeploy" ≠ some "RETAIN"

def isShareEffective (isShared : Json) (deploymentStage : Option String) (settings : Option Settings) : Bool :=
  isShared.truthy && (!shareEffectGated settings || strip (deploymentStage.getD "") = "deployed")

def writeAllowed (settings : Option Settings) : Bool :=
  (settingsOr settings).get "permission_mode" = some "READ_WRITE_ALLOWED"

/-- `users.get(str(user_id).strip()) if user_id not in (None, "") else None`. -/
def userPermission (py : Interpreter) (users : Shares) (userId : Json) : Result (Option Permission) :=
  match userId with
  | .null => .ok none
  | .str s => .ok (if s = "" then none else users.get (strip s))
  | v => (toText py v).map fun text => users.get (strip text)

/-- One who looks at an agent, and where. -/
structure Viewer where
  userId : Json
  userRoles : List String
  deploymentStage : Option String
  settings : Option Settings

/-- `effective_permission`. -/
def effectivePermission (py : Interpreter) (row : Fields) (v : Viewer) : Result (Option Permission) :=
  if !isShareEffective (column row "is_shared") v.deploymentStage v.settings then .ok none
  else do
    let grants ← grantsOf py row
    let own ← userPermission py grants.users v.userId
    let best := v.userRoles.dedup.foldl (fun best role => higher [best, grants.roles.get role]) own
    return if best = some .readWrite && !writeAllowed v.settings then some .read else best

/-! Changes. -/

def widenedShares (old new : Shares) : Shares :=
  new.filterMap fun key permission => if rankOf (some permission) > rankOf (old.get key) then some permission else none

def widened (before after : Grants) : Grants :=
  ⟨widenedShares before.roles after.roles, widenedShares before.users after.users⟩

def isWidening (before after : Grants) : Bool := hasTargets (widened before after)

def narrowedShares (old new : Shares) : Shares :=
  new.filterMap fun key permission =>
    (old.get key).map fun held => if permission.rank ≤ held.rank then permission else held

def narrowed (before after : Grants) : Grants :=
  ⟨narrowedShares before.roles after.roles, narrowedShares before.users after.users⟩

/-- Permissions as they are stored. -/
def stored (entries : List (String × Permission)) : Fields := entries.map fun e => (e.1, .str e.2.text)

def byName (roles : Shares) : List (String × Permission) := roles.entries.insertionSort fun a b => a.1 ≤ b.1

/-- `sorted(users.items(), key=lambda kv: int(kv[0]))`. -/
def byId (users : Shares) : Result (List (String × Permission)) := do
  let keyed ← users.entries.mapM fun e => (intOfText e.1).map fun id => (id, e)
  return (keyed.insertionSort fun a b => a.1 ≤ b.1).map Prod.snd

/-- `columns`. -/
def columns (grants : Grants) : Result Fields := do
  let users ← byId grants.users
  return [("is_shared", .bool (hasTargets grants)),
    ("share_roles", .arr ((byName grants.roles).map fun e => .str e.1)),
    ("share_permissions", .obj (stored (byName grants.roles))),
    ("share_users", .obj (stored users))]

end XgenSdk.AgentShare
