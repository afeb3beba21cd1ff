import XgenSdk.Config.Manager

/-! `PersistentConfig` and the composer, call by call. -/
namespace XgenSdk.Config
open XgenSdk.Py XgenSdk.Interleave
variable (pr : Process)

/-- The arguments of a `PersistentConfig`. A converter that raises gives `none`. -/
structure Spec where
  envName : String
  named : envName ≠ ""
  configPath : String
  envValue : Json
  typeConverter : Option (Json → Option Json)

def Spec.convert (spec : Spec) (value : Json) : Option Json :=
  match spec.typeConverter with
  | none => some value
  | some f => f value

/-- A value of a store as the setting has it. -/
def Spec.load (spec : Spec) (value : Json) : Option Json :=
  spec.convert (Serializer.normalizeConfigValue pr.lib value (Serializer.inferDataType spec.envValue))

def isNull : Json → Bool
  | .null => true
  | _ => false

/-- `status == "ok" and value is not None`. -/
def Probe.isFound (probe : Probe) : Bool := probe.status = .ok && !isNull probe.value

/-- What `_resolve` returns; the stamp is the set that the value is of. -/
inductive Resolved where
  | error
  | ok (value : Json) (stamp : Nat)

/-- The last branch of `_resolve`: the registered default is written. -/
def writeDefault (spec : Spec) : Call Resolved := do
  ask (.note (.fallback spec.envName))
  let dataType := Serializer.inferDataType spec.envValue
  let _ ← setConfig pr spec.configPath spec.envValue dataType "" spec.envName
  let stamp := (← get).writeStamp
  if ← isDbAvailable pr.configDb then
    let _ ← setDbConfig pr pr.configDb spec.configPath spec.envValue dataType spec.envName
  return .ok spec.envValue stamp

/-- A value that was read from Redis is kept in the database too. -/
def writeThrough (spec : Spec) (source : Source) (value : Json) : Call Unit := do
  if source = .redis then
    if ← isDbAvailable pr.configDb then
      let _ ← setDbConfig pr pr.configDb spec.configPath value (Serializer.inferDataType value) spec.envName

/-- `_resolve` after `_probe`. -/
def settle (spec : Spec) (probe : Probe) : Call Resolved := do
  if probe.isFound then
    writeThrough pr spec probe.source
      (Serializer.normalizeConfigValue pr.lib probe.value (Serializer.inferDataType spec.envValue))
    match spec.load pr probe.value with
    | none => return .error
    | some value => return .ok value probe.stamp
  if probe.status = .error then return .error
  writeDefault pr spec

/-- `_resolve`. -/
def resolve (spec : Spec) : Call Resolved := do
  let probe ← probeValue pr spec.envName spec.configPath
  settle pr spec probe

def Memory.setHeld (m : Memory) (i : Nat) (h : Held) : Memory := { m with held := Function.update m.held i (some h) }

def Memory.updateHeld (m : Memory) (i : Nat) (f : Held → Held) : Memory :=
  match m.held i with
  | none => m
  | some h => m.setHeld i (f h)

/-- `self._last_seen_version = version`. -/
def see (i : Nat) (spec : Spec) (version : Int) (counts : Counts) : Call Unit := do
  match (← get).held i with
  | none => return ()
  | some h =>
    ask (.note (.seen spec.envName h.stamp (counts spec.envName)))
    modify fun m => m.setHeld i { h with lastSeenVersion := version, counted := counts spec.envName }

/-- `_reload`. -/
def reload (i : Nat) (spec : Spec) : Call Bool := do
  match ← resolve pr spec with
  | .error =>
    modify fun m => m.updateHeld i fun h => { h with loadedOk := false }
    return false
  | .ok value stamp =>
    modify fun m => m.updateHeld i fun h => { h with value := value, loadedOk := true, stamp := stamp }
    return true

/-- `self._last_seen_version = _read_version_cached(...)`. -/
def seeVersion (i : Nat) (spec : Spec) : Call Unit := do
  let (version, counts) ← readVersionCached pr
  see i spec version counts

/-- `__init__`: the value first, then the version. -/
def construct (i : Nat) (spec : Spec) : Call Unit := do
  match ← resolve pr spec with
  | .error => modify fun m => m.setHeld i ⟨spec.envValue, 0, false, 0, 0⟩
  | .ok value stamp => modify fun m => m.setHeld i ⟨value, 0, true, stamp, 0⟩
  seeVersion pr i spec

/-- A reload that takes the version after it for seen. -/
def reloadAndSee (i : Nat) (spec : Spec) : Call Unit := do
  if ← reload pr i spec then
    invalidateVersionCache
    seeVersion pr i spec

/-- The checks of the property `value`. -/
def checkValue (i : Nat) (spec : Spec) (h : Held) : Call Unit := do
  if !h.loadedOk then reloadAndSee pr i spec
  else
    let (current, _) ← readVersionCached pr
    if current ≠ h.lastSeenVersion then reloadAndSee pr i spec

/-- The property `value`. -/
def readValue (i : Nat) (spec : Spec) : Call (Option Json) := do
  match (← get).held i with
  | none => return none
  | some h =>
    checkValue pr i spec h
    return ((← get).held i).map Held.value

/-- `refresh`. -/
def refresh (i : Nat) (spec : Spec) : Call Unit := do
  if ← reload pr i spec then seeVersion pr i spec

/-! The composer, with its settings. -/

/-- All settings take this version for seen. -/
def alignAll (version : Int) (counts : Counts) : List (Nat × Spec) → Call Unit
  | [] => return ()
  | c :: configs => do
    see c.1 c.2 version counts
    alignAll version counts configs

/-- `update_config`; `none` where the converter raises. -/
def updateConfig (configs : List (Nat × Spec)) (i : Nat) (spec : Spec) (newValue : Json) : Call (Option Unit) := do
  let _ ← readValue pr i spec
  match spec.convert newValue with
  | none => return none
  | some value =>
    let _ ← setConfig pr spec.configPath value (Serializer.inferDataType value) (categoryOf spec.configPath) spec.envName
    invalidateVersionCache
    match spec.convert value with
    | none => return none
    | some held =>
      modify fun m => m.updateHeld i fun h => { h with value := held, stamp := m.writeStamp }
      let m ← get
      if m.lastWriteVersion > 0 then
        modify fun m => { m with lastKnownVersion := m.lastWriteVersion }
        alignAll m.lastWriteVersion m.writeCounts configs
      else
        let (version, counts) ← readVersionCached pr
        modify fun m => { m with lastKnownVersion := version }
        alignAll version counts configs
      return some ()

def refreshEach : List (Nat × Spec) → Call Unit
  | [] => return ()
  | c :: configs => do
    refresh pr c.1 c.2
    refreshEach configs

/-- `refresh_all`. -/
def refreshAll (configs : List (Nat × Spec)) : Call Unit := do
  invalidateVersionCache
  refreshEach pr configs
  invalidateVersionCache
  let (version, counts) ← readVersionCached pr
  modify fun m => { m with lastKnownVersion := version }
  alignAll version counts configs

inductive Freshness where
  | fresh | refreshed | unknown
  deriving DecidableEq, Repr

/-- `refresh_all_if_stale_status`. -/
def refreshAllIfStaleStatus (configs : List (Nat × Spec)) : Call Freshness := do
  let m ← get
  if m.recoveryEpoch ≠ m.lastRecoveryEpoch then
    modify fun m => { m with lastRecoveryEpoch := m.recoveryEpoch }
    refreshAll pr configs
    return .refreshed
  match ← probeConfigVersion pr with
  | none => return .unknown
  | some current =>
    if current ≠ (← get).lastKnownVersion then
      refreshAll pr configs
      return .refreshed
    return .fresh

end XgenSdk.Config
