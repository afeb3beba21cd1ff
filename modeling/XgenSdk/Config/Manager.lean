import XgenSdk.Config.Stores
import Mathlib.Data.List.Sort

/-! `RedisConfigManager` and the helpers of the database, call by call. -/
namespace XgenSdk.Config
open XgenSdk.Py XgenSdk.Interleave
variable (pr : Process)

/-! Connections. -/

/-- `_connect`, of a process that was connected before. -/
def connect : Call Bool := do
  let now ← ask .clock
  modify fun m => { m with lastConnectAttempt := some now }
  let connected ← ask .connect
  modify fun m => { m with
    recoveryEpoch := if connected && !m.connectionAvailable then m.recoveryEpoch + 1 else m.recoveryEpoch
    connectionAvailable := connected }
  return connected

/-- `_ensure_connection`. -/
def ensureConnection : Call Bool := do
  if (← get).connectionAvailable then return true
  let now ← ask .clock
  if isRecent now pr.intervals.reconnectCooldown (← get).lastConnectAttempt then return false
  connect

/-! The version. -/

/-- `_note_version`. -/
def noteVersion (version : Option Int) : Call Unit := do
  let now ← ask .clock
  modify fun m => { m with vc := { m.vc with
    values := if version.isNone || version ≠ m.vc.version then .empty else m.vc.values
    version := version
    checkedAt := some now } }

/-- `get_config_version`. -/
def getConfigVersion : Call (Int × Counts) := do
  if !(← ensureConnection pr) then return (0, fun _ => 0)
  match ← ask .redisVersion with
  | .failed => return (0, fun _ => 0)
  | .ok (raw, counts) =>
    noteVersion raw
    return (raw.getD 0, counts)

/-- `probe_config_version`; `none` is an error. -/
def probeConfigVersion : Call (Option Int) := do
  if !(← ensureConnection pr) then return none
  match ← ask .redisVersion with
  | .failed => return none
  | .ok (raw, _) =>
    noteVersion raw
    return some (raw.getD 0)

/-- `_invalidate_version_cache`. -/
def invalidateVersionCache : Call Unit := modify fun m => { m with versionCacheTs := none }

/-- `_read_version_cached`. -/
def readVersionCached : Call (Int × Counts) := do
  let now ← ask .clock
  let m ← get
  match m.versionCacheValue, isRecent now pr.intervals.versionCacheTtl m.versionCacheTs with
  | some v, true => return (v, m.versionCounts)
  | _, _ =>
    let (v, counts) ← getConfigVersion pr
    modify fun m => { m with versionCacheValue := some v, versionCacheTs := some now, versionCounts := counts }
    return (v, counts)

/-! The value cache. -/

/-- `forget_cached_values`. -/
def forgetCachedValues : Call Unit :=
  modify fun m => { m with vc := { m.vc with values := .empty, checkedAt := none } }

def Memory.resetEpoch (m : Memory) : Memory :=
  if m.recoveryEpoch ≠ m.vc.epoch then
    { m with vc := { m.vc with values := .empty, epoch := m.recoveryEpoch, checkedAt := none } }
  else m

/-- `max(checked_at, now)`. -/
def laterOf (t : Option Nat) (now : Nat) : Option Nat := some (t.elim now (max now))

/-- `_known_version`. -/
def knownVersion : Call (Option Int) := do
  let now ← ask .clock
  modify Memory.resetEpoch
  let m ← get
  if m.vc.refreshing || isRecent now pr.intervals.versionRecheck m.vc.checkedAt then return m.vc.version
  modify fun m => { m with vc := { m.vc with refreshing := true } }
  let _ ← probeConfigVersion pr
  modify fun m => { m with vc := { m.vc with refreshing := false, checkedAt := laterOf m.vc.checkedAt now } }
  return (← get).vc.version

/-! The database. -/

/-- `execute_query_one`: a failure is logged and gives no row. -/
def executeQueryOne (column : Column) (key : String) : Call (Option Row) := do
  match ← ask (.dbSelect column key) with
  | .failed => return none
  | .ok row => return row

/-- `_is_db_available`. -/
def isDbAvailable (db : Option DbKind) : Call Bool :=
  match db with
  | none => return false
  | some _ => ask .dbAvailable

def firstRow : List (Column × String) → Call (Option Row)
  | [] => return none
  | (column, key) :: rest => do
    match ← executeQueryOne column key with
    | some row => return some row
    | none => firstRow rest

/-- What `probe_db_config_row` reads in a row. -/
structure DbRow where
  value : Json
  dataType : String
  envName : String
  configPath : String

/-- `a or b`. -/
def orText (a b : String) : String := if a = "" then b else a

def readRow (envName configPath : String) (row : Row) : DbRow :=
  let dataType := orText row.dataType "string"
  ⟨Serializer.safeDeserialize pr.lib row.configValue dataType, dataType, orText row.envName (orText envName configPath),
    orText row.configPath (orText configPath envName)⟩

/-- The lookups of `probe_db_config_row`. -/
def lookups (envName configPath : String) : List (Column × String) :=
  (if configPath = "" then [] else [(.configPath, configPath)]) ++ (if envName = "" then [] else [(.envName, envName)])

/-- `_probe_db_row` with `probe_db_config_row`. -/
def probeDbRow (envName configPath : String) : Call (Status × Option DbRow) := do
  if pr.managerDb.isNone then return (.missing, none)
  if !(← isDbAvailable pr.managerDb) then return (.error, none)
  match ← firstRow (lookups envName configPath) with
  | some row => return (.ok, some (readRow pr envName configPath row))
  | none => return (.missing, none)

/-- `set_db_config`. -/
def setDbConfig (db : Option DbKind) (configPath : String) (configValue : Json) (configType envName : String) : Call Bool := do
  if !(← isDbAvailable db) then return false
  -- A failure of the statement is swallowed by `execute_query`.
  let _ ← ask (.dbUpsert ⟨configPath, some (Serializer.safeSerialize pr.lib configValue), configType, orText envName configPath⟩)
  return true

/-- `XgenDB.update_config`. -/
def updateDbConfig (envName configPath : String) (configValue : Json) (dataType : String) : Call Bool := do
  let row : Row := ⟨configPath, some (Serializer.safeSerialize pr.lib configValue), dataType, envName⟩
  match ← executeQueryOne .envName envName with
  | some _ =>
    match ← ask (.dbUpdate row) with
    | .failed => return false
    | .ok count => return count > 0
  | none =>
    match ← ask (.dbInsert row) with
    | .failed => return false
    | .ok _ => return true

/-! The miss memo. -/

/-- `_db_miss_recent`. -/
def dbMissRecent (envName : String) : Call Bool := do
  match (← get).dbMissAt.get envName with
  | none => return false
  | some since =>
    let now ← ask .clock
    if isRecent now pr.intervals.dbMissTtl (some since) then
      ask (.note (.memo envName))
      return true
    return false

/-- The 256 oldest names are dropped. -/
def prune (seen : Dict String Nat) : Dict String Nat :=
  ((seen.entries.mergeSort fun a b => a.2 ≤ b.2).take 256).foldl (fun d e => d.erase e.1) seen

/-- `_remember_db_miss`. -/
def rememberDbMiss (envName : String) (missing : Bool) : Call Unit := do
  if !missing then
    modify fun m => { m with dbMissAt := m.dbMissAt.erase envName }
  else
    let now ← ask .clock
    modify fun m => { m with
      dbMissAt := (if m.dbMissAt.entries.length > 512 then prune m.dbMissAt else m.dbMissAt).set envName now }

/-! The ladder. -/

/-- `_probe_redis_value`. -/
def probeRedisValue (envName : String) : Call (Status × Json × Nat) := do
  if !(← ensureConnection pr) then return (.error, .null, 0)
  match ← ask (.redisGet envName) with
  | .failed => return (.error, .null, 0)
  | .ok (none, stamp) => return (.missing, .null, stamp)
  | .ok (some payload, stamp) =>
    match Json.lookup "value" payload with
    | none => return (.missing, .null, stamp)
    | some value => return (.ok, value, stamp)

/-- `path.split('.')[0]`. -/
def firstSegment (path : String) : String := String.ofList (path.toList.takeWhile (· ≠ '.'))

def categoryOf (path : String) : String := if path.toList.contains '.' then firstSegment path else "unknown"

def payloadOf (value : Json) (dataType category path envName : String) : Fields :=
  [("value", value), ("type", .str dataType), ("category", .str category), ("path", .str path), ("env_name", .str envName)]

/-- `_restore_to_redis`. -/
def restoreToRedis (row : DbRow) : Call Unit := do
  if !(← get).connectionAvailable then return ()
  if row.envName = "" then return ()
  let configPath := orText row.configPath row.envName
  let category := categoryOf configPath
  match ← ask (.redisSet row.envName (payloadOf row.value row.dataType category configPath row.envName) true) with
  | .failed => return ()
  | .ok _ =>
    let _ ← ask (.redisAdd category row.envName)
    return ()

/-- `_probe_value_uncached`. -/
def probeValueUncached (envName configPath : String) : Call Probe := do
  let (redisStatus, value, stamp) ← probeRedisValue pr envName
  if redisStatus = .ok then return ⟨.ok, value, .redis, stamp⟩
  if ← dbMissRecent pr envName then
    return ⟨if redisStatus = .error then .error else .missing, .null, .none, stamp⟩
  let (dbStatus, row) ← probeDbRow pr envName configPath
  rememberDbMiss envName (dbStatus = .missing)
  match dbStatus, row with
  | .ok, some row =>
    if redisStatus = .missing then restoreToRedis row
    return ⟨.ok, row.value, .db, stamp⟩
  | _, _ =>
    return ⟨if redisStatus = .error || dbStatus = .error then .error else .missing, .null, .none, stamp⟩

/-- The value remembered for this version, if it is not too old; one that does not serve is dropped. -/
def remembered (key : String × String) (version : Option Int) : Call (Option Probe) := do
  match version, (← get).vc.values.get key with
  | some v, some hit =>
    if hit.tagged = v then
      let now ← ask .clock
      if isRecent now pr.intervals.valueCacheMaxAge (some hit.storedAt) then
        ask (.note (.served key.1 hit.probe))
        return some hit.probe
    modify fun m => { m with vc := { m.vc with values := m.vc.values.erase key } }
    return none
  | _, _ => return none

def remember (key : String × String) (version : Option Int) (probe : Probe) : Call Unit := do
  match version with
  | none => return ()
  | some v =>
    if probe.status = .error then return ()
    if (← get).vc.version ≠ some v then return ()
    let now ← ask .clock
    modify fun m => { m with vc := { m.vc with
      values := (if m.vc.values.entries.length > 2048 then .empty else m.vc.values).set key ⟨probe, v, now⟩ } }

/-- `probe_value`. -/
def probeValue (envName configPath : String) : Call Probe := do
  if pr.intervals.valueCacheMaxAge = 0 then return ← probeValueUncached pr envName configPath
  let version ← knownVersion pr
  match ← remembered pr (envName, configPath) version with
  | some probe => return probe
  | none =>
    let probe ← probeValueUncached pr envName configPath
    remember (envName, configPath) version probe
    return probe

/-! Saving. -/

/-- The normalisation of `set_config`. -/
def cleaned (value : Json) (dataType : String) : Json :=
  match value with
  | .str s =>
    if dataType = "list" then .arr (Serializer.safeParseJsonList pr.lib s)
    else if dataType = "dict" then .obj (Serializer.safeParseJsonDict pr.lib s)
    else .str s
  | .arr xs => if dataType = "list" then .arr (Serializer.unwrapList pr.lib xs) else .arr xs
  | value => value

/-- The calls of Redis in `set_config`: whether the value and its category are set. -/
def saveToRedis (envName : String) (payload : Fields) (category : String) : Call Bool := do
  modify fun m => { m with writeStamp := 0 }
  if !(← ensureConnection pr) then return false
  match ← ask (.redisSet envName payload false) with
  | .failed =>
    modify fun m => { m with connectionAvailable := false }
    return false
  | .ok stamp =>
    modify fun m => { m with writeStamp := stamp }
    match ← ask (.redisAdd category envName) with
    | .failed =>
      modify fun m => { m with connectionAvailable := false }
      return false
    | .ok _ =>
      match ← ask (.redisIncr envName stamp) with
      | .failed => return true
      | .ok (version, counts) =>
        modify fun m => { m with lastWriteVersion := version, writeCounts := counts }
        return true

def saveToDb (configPath : String) (value : Json) (dataType envName : String) : Call Bool :=
  match pr.managerDb with
  | none => return false
  | some .appDb => updateDbConfig pr envName configPath value dataType
  | some .pool => do
    if !(← isDbAvailable (some .pool)) then return false
    setDbConfig pr (some .pool) configPath value dataType envName

/-- `set_config`. -/
def setConfig (configPath : String) (configValue : Json) (dataType category envName : String) : Call Bool := do
  let category := orText category (firstSegment configPath)
  let envName := orText envName configPath
  let value := cleaned pr configValue dataType
  let redisOk ← saveToRedis pr envName (payloadOf value dataType category configPath envName) category
  rememberDbMiss envName false
  forgetCachedValues
  let dbOk ← saveToDb pr configPath value dataType envName
  return redisOk || dbOk

end XgenSdk.Config
