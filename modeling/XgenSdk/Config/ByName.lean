import XgenSdk.Config.Manager
import Mathlib.Data.List.Infix
import Mathlib.Logic.Function.Basic

/-! Settings that are read and written by a name, which is an env name, a path, or the last segment of
a path; both stores answer. -/
namespace XgenSdk.Config.ByName
open XgenSdk.Py XgenSdk.Interleave

/-! The stores. -/

/-- Redis and the table: the payloads under `config:<env name>`, the sets under `config:category:<category>`, the counter under
`config:_meta:version`, and the rows. -/
structure Site where
  now : Nat
  redis : String → Option Fields
  members : String → List String
  version : Option Int
  rows : List Row

/-- What follows `config:` in the key of the version. -/
def versionName : String := "_meta:version"

/-- The category whose set has this name. -/
def categoryNamed (name : String) : Option String :=
  if "category:".toList.isPrefixOf name.toList then some (String.ofList (name.toList.drop 9)) else none

/-- `':category:' in key or ':_meta:' in key`. -/
def reserved (name : String) : Bool :=
  ":category:".toList <:+: ':' :: name.toList || ":_meta:".toList <:+: ':' :: name.toList

namespace Site
variable (s : Site)

def columnOf : Column → Row → String
  | .configPath, row => row.configPath
  | .envName, row => row.envName

/-- `SELECT … LIMIT 1`. -/
def select (column : Column) (key : String) : Option Row := s.rows.find? fun row => columnOf column row = key

/-- `ON CONFLICT(config_path) DO UPDATE`. -/
def upserted (row : Row) : List Row :=
  if s.rows.any fun r => r.configPath = row.configPath then s.rows.map fun r => if r.configPath = row.configPath then row else r
  else s.rows ++ [row]

/-- `UPDATE … WHERE env_name`; `config_path` stays unique. -/
def updated (row : Row) : Option (Nat × List Row) :=
  let matched := (s.rows.filter fun r => r.envName = row.envName).length
  if 1 < matched ∨ (matched = 1 ∧ s.rows.any fun r => r.envName ≠ row.envName && r.configPath = row.configPath) then none
  else some (matched, s.rows.map fun r => if r.envName = row.envName then row else r)

/-- The counter or the set of a category stands under this name. -/
def ownKey (name : String) : Bool :=
  name = versionName && s.version.isSome || (categoryNamed name).any fun category => !(s.members category).isEmpty

/-- One call of a store. -/
def exec : (st : Stmt) → Site → Reply st × Site
  | .clock, s => (s.now, s)
  | .connect, s => (true, s)
  | .redisGet envName, s => (if s.ownKey envName then .failed else .ok (s.redis envName, 0), s)
  | .redisVersion, s => (.ok (s.version, fun _ => 0), s)
  | .redisSet envName payload _, s => (.ok 0, { s with redis := Function.update s.redis envName (some payload) })
  | .redisAdd category envName, s =>
    (.ok (), { s with members := Function.update s.members category (if envName ∈ s.members category then s.members category
        else s.members category ++ [envName]) })
  | .redisIncr _ _, s => (.ok (s.version.getD 0 + 1, fun _ => 0), { s with version := some (s.version.getD 0 + 1) })
  | .dbAvailable, s => (true, s)
  | .dbSelect column key, s => (.ok (s.select column key), s)
  | .dbUpsert row, s => (.ok (), { s with rows := s.upserted row })
  | .dbUpdate row, s =>
    match s.updated row with
    | some (count, rows) => (.ok count, { s with rows := rows })
    | none => (.failed, s)
  | .dbInsert row, s =>
    if s.rows.any fun r => r.configPath = row.configPath then (.failed, s) else (.ok (), { s with rows := s.rows ++ [row] })
  | .note _, s => ((), s)

end Site

/-- A part of the code on the stores. -/
def runProg {α : Type} : Prog Reply Empty α → Site → α × Site
  | .done a, s => (a, s)
  | .act st next, s => runProg (next (Site.exec st s).1) (Site.exec st s).2

structure Outcome (α : Type) where
  result : α
  memory : Memory
  site : Site

def run {α : Type} (x : Call α) (m : Memory) (s : Site) : Outcome α :=
  let r := runProg (x m) s
  ⟨r.1.1, r.1.2, r.2⟩

/-! Writing. -/

/-- The text under a key, or the default. -/
def textAt (key : String) (config : Fields) (default : String) : String :=
  match Json.lookup key config with
  | some (.str text) => text
  | _ => default

/-- `path.split('.')[-1]`. -/
def lastSegment (path : String) : String := String.ofList (path.toList.reverse.takeWhile (· ≠ '.')).reverse

/-- What `set_config` is called with. -/
structure Target where
  path : String
  dataType : String
  category : String
  envName : String

def targetOf (config : Fields) (name : String) : Target :=
  ⟨textAt "path" config name, textAt "type" config "string", textAt "category" config "", textAt "env_name" config ""⟩

def targetOfRow (row : DbRow) (name : String) : Target :=
  let path := orText row.configPath name
  ⟨path, row.dataType, if path.toList.contains '.' then firstSegment path else "", orText row.envName name⟩

/-- `get_all_configs` of a connected manager: `SCAN` gives the keys in this order. -/
def getAllConfigs (scan : List String) (s : Site) : List Fields := (scan.filter fun name => !reserved name).filterMap s.redis

/-- A setting that the sweep takes. -/
def takes (name : String) (config : Fields) : Bool :=
  textAt "env_name" config "" = name || textAt "path" config "" = name || lastSegment (textAt "path" config "") = name

section Code
variable (pr : Process)

/-- The setting that `update_config_by_name` writes; none where it raises. -/
def resolve (name : String) (scan : List String) (m : Memory) (s : Site) : Option Target :=
  -- Where a key of the manager's own has the name, `get_config` gives what has no `get`.
  if (s.redis name).isSome || s.ownKey name then (s.redis name).map fun config => targetOf config name
  else match (run (probeDbRow pr name name) m s).result with
    | (.ok, some row) => some (targetOfRow row name)
    | _ => ((getAllConfigs scan s).find? (takes name)).map fun config => targetOf config ""

/-- `update_config_by_name`; what `set_config` returns is not looked at. -/
def updateConfigByName (name : String) (value : Json) (scan : List String) (m : Memory) (s : Site) : Option (Outcome Bool) :=
  (resolve pr name scan m s).map fun t => run (setConfig pr t.path value t.dataType t.category t.envName) m s

/-! Reading. -/

/-- The dicts of `_get_name_index`: env names and paths, and last segments. -/
structure Names where
  exact : Dict String Json
  tail : Dict String Json

def setDefault (d : Dict String Json) (key : String) (value : Json) : Dict String Json := if (d.get key).isSome then d else d.set key value

/-- One round of `_get_name_index`. -/
def Names.add (names : Names) (config : Fields) : Names :=
  let value := Json.get "value" (.obj config)
  let envName := textAt "env_name" config ""
  let path := textAt "path" config ""
  let last := lastSegment path
  let exact := if envName = "" then names.exact else setDefault names.exact envName value
  if path = "" then ⟨exact, names.tail⟩
  else ⟨setDefault exact path value, if last = "" then names.tail else setDefault names.tail last value⟩

def namesOf (configs : List Fields) : Names := configs.foldl Names.add ⟨.empty, .empty⟩

/-- What the manager keeps of `_get_name_index`. -/
structure NameIndex where
  version : Int
  names : Names

/-- `_get_name_index`. -/
def getNameIndex (index : Option NameIndex) (scan : List String) (m : Memory) (s : Site) : Names :=
  let current := (run (getConfigVersion pr) m s).result.1
  match index.filter fun i => i.version = current with
  | some i => i.names
  | none => namesOf (getAllConfigs scan s)

/-- What the value cache serves. -/
def served (name : String) (m : Memory) (s : Site) : Option Probe :=
  if pr.intervals.valueCacheMaxAge = 0 then none
  else (run (do remembered pr (name, name) (← knownVersion pr)) m s).result

/-- The counter is a number, in which `"value" in payload` raises. -/
def raises (name : String) (m : Memory) (s : Site) : Bool := name = versionName && s.version.isSome && (served pr name m s).isNone

inductive LookupError where
  | keyError | typeError
  deriving DecidableEq, Repr

/-- `get_config_by_name`. -/
def getConfigByName (index : Option NameIndex) (name : String) (scan : List String) (m : Memory) (s : Site) : Except LookupError Json :=
  if raises pr name m s then .error .typeError
  else
    let probe := run (probeValue pr name name) m s
    if probe.result.status = .ok then .ok probe.result.value
    else
      let names := getNameIndex pr index scan probe.memory probe.site
      match (names.exact.get name).or (names.tail.get name) with
      | some value => .ok value
      | none => .error .keyError

end Code

/-! Runs. -/
section Runs
variable {α β : Type} (m : Memory) (s : Site)

theorem runProg_bind (p : Prog Reply Empty α) (f : α → Prog Reply Empty β) (s : Site) :
    runProg (p.bind f) s = runProg (f (runProg p s).1) (runProg p s).2 := by
  induction p generalizing s with
  | done a => rfl
  | raise e => exact e.elim
  | act st next ih => exact ih _ _

theorem run_bind (x : Call α) (f : α → Call β) : run (x >>= f) m s = run (f (run x m s).result) (run x m s).memory (run x m s).site := by
  have hbind := runProg_bind (x m) (fun r => f r.1 r.2) s
  unfold run
  exact congrArg (fun r : (β × Memory) × Site => Outcome.mk r.1.1 r.1.2 r.2) hbind

theorem run_pure (a : α) : run (pure a) m s = ⟨a, m, s⟩ := rfl

theorem run_get : run (get : Call Memory) m s = ⟨m, m, s⟩ := rfl

theorem run_modify (f : Memory → Memory) : run (modify f : Call PUnit) m s = ⟨(), f m, s⟩ := rfl

theorem ask_bind (st : Stmt) (f : Reply st → Call β) : run (ask st >>= f) m s = run (f (Site.exec st s).1) m (Site.exec st s).2 := rfl

theorem run_ite {c : Prop} [Decidable c] (x y : Call α) : run (if c then x else y) m s = if c then run x m s else run y m s := by
  split <;> rfl

end Runs

section Connected
variable {pr : Process} {m : Memory} {s : Site}

/-! The calls of a connected manager. -/

theorem ensureConnection_run (hc : m.connectionAvailable = true) : run (ensureConnection pr) m s = ⟨true, m, s⟩ := by
  unfold ensureConnection
  rw [run_bind, run_get, run_ite, if_pos hc, run_pure]

/-- The memory after `_note_version`. -/
def noted (version : Option Int) (now : Nat) (m : Memory) : Memory :=
  { m with vc := { m.vc with
    values := if version.isNone || version ≠ m.vc.version then .empty else m.vc.values
    version := version
    checkedAt := some now } }

theorem probeConfigVersion_run (hc : m.connectionAvailable = true) :
    run (probeConfigVersion pr) m s = ⟨some (s.version.getD 0), noted s.version s.now m, s⟩ := by
  unfold probeConfigVersion
  rw [run_bind, ensureConnection_run hc]
  rfl

theorem getConfigVersion_run (hc : m.connectionAvailable = true) :
    run (getConfigVersion pr) m s = ⟨(s.version.getD 0, fun _ => 0), noted s.version s.now m, s⟩ := by
  unfold getConfigVersion
  rw [run_bind, ensureConnection_run hc]
  rfl

/-- What a look at the version leaves alone. -/
structure Fresh (m m' : Memory) : Prop where
  connected : m'.connectionAvailable = m.connectionAvailable
  missed : m'.dbMissAt = m.dbMissAt
  values : m.vc.values = .empty → m'.vc.values = .empty

theorem knownVersion_run (hc : m.connectionAvailable = true) :
    ∃ version m', run (knownVersion pr) m s = ⟨version, m', s⟩ ∧ Fresh m m' := by
  have hreset : Fresh m m.resetEpoch := by
    unfold Memory.resetEpoch
    split
    · exact ⟨rfl, rfl, fun _ => rfl⟩
    · exact ⟨rfl, rfl, fun h => h⟩
  have hstart : run (knownVersion pr) m s = run (do
      if m.resetEpoch.vc.refreshing || isRecent s.now pr.intervals.versionRecheck m.resetEpoch.vc.checkedAt then
        return m.resetEpoch.vc.version
      modify fun m => { m with vc := { m.vc with refreshing := true } }
      let _ ← probeConfigVersion pr
      modify fun m => { m with vc := { m.vc with refreshing := false, checkedAt := laterOf m.vc.checkedAt s.now } }
      return (← get).vc.version) m.resetEpoch s := rfl
  rw [hstart, run_ite]
  split
  · exact ⟨_, _, rfl, hreset⟩
  · rw [run_bind, run_modify]
    dsimp only
    rw [run_bind, probeConfigVersion_run]
    · refine ⟨_, _, rfl, hreset.connected, hreset.missed, fun h => ?_⟩
      have hempty := hreset.values h
      unfold noted
      dsimp only
      split
      · rfl
      · exact hempty
    · exact hreset.connected.trans hc

theorem remembered_run (key : String × String) (version : Option Int) (hempty : m.vc.values = .empty) :
    run (remembered pr key version) m s = ⟨none, m, s⟩ := by
  unfold remembered
  rw [run_bind, run_get, hempty, Dict.get_empty]
  cases version with
  | none => rfl
  | some v => rfl

/-- What Redis has under a name. -/
def redisValue (s : Site) (name : String) : Option Json := if s.ownKey name then none else (s.redis name).bind (Json.lookup "value")

theorem probeRedisValue_run (name : String) (hc : m.connectionAvailable = true) :
    ∃ result, run (probeRedisValue pr name) m s = ⟨result, m, s⟩ ∧
      match redisValue s name with
      | some v => result.1 = .ok ∧ result.2.1 = v
      | none => result.1 ≠ .ok := by
  unfold probeRedisValue redisValue
  rw [run_bind, ensureConnection_run hc]
  simp only [Bool.not_true, Bool.false_eq_true, if_false]
  have hget := fun f => ask_bind (β := Status × Json × Nat) m s (.redisGet name) f
  simp only [Site.exec] at hget
  rw [hget]
  by_cases hown : s.ownKey name = true
  · rw [if_pos hown, if_pos hown]
    exact ⟨(.error, .null, 0), rfl, fun h => by cases h⟩
  · rw [if_neg hown, if_neg hown]
    cases hget : s.redis name with
    | none => exact ⟨(.missing, .null, 0), rfl, fun h => by cases h⟩
    | some payload =>
      rw [Option.bind_some]
      dsimp only
      cases hvalue : Json.lookup "value" payload with
      | none => exact ⟨(.missing, .null, 0), rfl, fun h => by cases h⟩
      | some v => exact ⟨(.ok, v, 0), rfl, rfl, rfl⟩

/-- The memo answers for the database. -/
def missRecent (pr : Process) (m : Memory) (now : Nat) (name : String) : Bool :=
  isRecent now pr.intervals.dbMissTtl (m.dbMissAt.get name)

theorem dbMissRecent_run (name : String) : run (dbMissRecent pr name) m s = ⟨missRecent pr m s.now name, m, s⟩ := by
  unfold dbMissRecent missRecent
  rw [run_bind, run_get]
  dsimp only
  cases hseen : m.dbMissAt.get name with
  | none => rfl
  | some since =>
    dsimp only
    have hclock := fun f => ask_bind (β := Bool) m s .clock f
    simp only [Site.exec] at hclock
    rw [hclock, run_ite]
    split
    · rename_i hrecent
      rw [hrecent]
      rfl
    · rename_i hrecent
      rw [Bool.not_eq_true] at hrecent
      rw [hrecent]
      rfl

/-- What the database has under a name. -/
def dbRow (pr : Process) (s : Site) (name : String) : Option DbRow :=
  ((lookups name name).findSome? fun l => s.select l.1 l.2).map (readRow pr name name)

theorem firstRow_run (ls : List (Column × String)) : run (firstRow ls) m s = ⟨ls.findSome? fun l => s.select l.1 l.2, m, s⟩ := by
  induction ls with
  | nil => rfl
  | cons l ls ih =>
    have hquery : run (executeQueryOne l.1 l.2) m s = ⟨s.select l.1 l.2, m, s⟩ := rfl
    rw [firstRow, run_bind, hquery, List.findSome?_cons]
    cases s.select l.1 l.2 with
    | some row => rfl
    | none => exact ih

theorem probeDbRow_run (name : String) (hdb : pr.managerDb.isSome = true) :
    run (probeDbRow pr name name) m s = ⟨match dbRow pr s name with | some row => (.ok, some row) | none => (.missing, none), m, s⟩ := by
  obtain ⟨kind, hkind⟩ := Option.isSome_iff_exists.mp hdb
  have havailable : run (isDbAvailable pr.managerDb) m s = ⟨true, m, s⟩ := by
    rw [hkind]
    rfl
  unfold probeDbRow dbRow
  rw [run_ite, if_neg (by rw [hkind]; exact Bool.false_ne_true), run_bind, havailable]
  simp only [Bool.not_true, Bool.false_eq_true, if_false]
  rw [run_bind, firstRow_run]
  dsimp only
  cases (lookups name name).findSome? fun l => s.select l.1 l.2 with
  | some row => rfl
  | none => rfl

theorem rememberDbMiss_run (name : String) (missing : Bool) :
    ∃ m', run (rememberDbMiss name missing) m s = ⟨(), m', s⟩ ∧ m'.connectionAvailable = m.connectionAvailable := by
  unfold rememberDbMiss
  rw [run_ite]
  split
  · exact ⟨_, rfl, rfl⟩
  · exact ⟨_, rfl, rfl⟩

/-- What the ladder finds. -/
def found (pr : Process) (m : Memory) (s : Site) (name : String) : Option Json :=
  match redisValue s name with
  | some v => some v
  | none => if missRecent pr m s.now name then none else (dbRow pr s name).map (·.value)

theorem probeValueUncached_run (name : String) (hc : m.connectionAvailable = true) (hdb : pr.managerDb.isSome = true) :
    let r := run (probeValueUncached pr name name) m s
    match found pr m s name with
    | some v => r.result.status = .ok ∧ r.result.value = v
    | none => r.result.status ≠ .ok ∧ r.site = s ∧ r.memory.connectionAvailable = true := by
  obtain ⟨⟨status, value, stamp⟩, hredis, hvalue⟩ := @probeRedisValue_run pr m s name hc
  unfold probeValueUncached found
  rw [run_bind, hredis]
  dsimp only at hvalue ⊢
  cases hv : redisValue s name with
  | some v =>
    rw [hv] at hvalue
    obtain ⟨rfl, rfl⟩ := hvalue
    exact ⟨rfl, rfl⟩
  | none =>
    rw [hv] at hvalue
    dsimp only at hvalue ⊢
    rw [run_ite, if_neg hvalue, run_bind, dbMissRecent_run, run_ite]
    dsimp only
    by_cases hmiss : missRecent pr m s.now name = true
    · rw [if_pos hmiss, if_pos hmiss]
      refine ⟨fun h => ?_, rfl, hc⟩
      rw [run_pure] at h
      dsimp only at h
      split at h <;> cases h
    · rw [if_neg hmiss, if_neg hmiss, run_bind, probeDbRow_run name hdb]
      obtain ⟨m', hremember, hconnected⟩ := @rememberDbMiss_run m s name
        (decide ((match dbRow pr s name with | some row => (Status.ok, some row) | none => (.missing, none)).1 = .missing))
      dsimp only
      rw [run_bind, hremember]
      cases hrow : dbRow pr s name with
      | some row =>
        dsimp only [Option.map_some]
        rw [run_ite]
        split
        · rw [run_bind]
          exact ⟨rfl, rfl⟩
        · exact ⟨rfl, rfl⟩
      | none =>
        dsimp only [Option.map_none]
        refine ⟨fun h => ?_, rfl, hconnected.trans hc⟩
        rw [run_pure] at h
        dsimp only at h
        split at h <;> cases h

theorem remember_run (key : String × String) (version : Option Int) (probe : Probe) :
    ∃ m', run (remember key version probe) m s = ⟨(), m', s⟩ ∧ m'.connectionAvailable = m.connectionAvailable := by
  unfold remember
  cases version with
  | none => exact ⟨m, rfl, rfl⟩
  | some v =>
    dsimp only
    rw [run_ite]
    split
    · exact ⟨m, rfl, rfl⟩
    · rw [run_bind, run_get, run_ite]
      split
      · exact ⟨m, rfl, rfl⟩
      · exact ⟨_, rfl, rfl⟩

theorem found_fresh {m' : Memory} (h : Fresh m m') (name : String) : found pr m' s name = found pr m s name := by
  unfold found missRecent
  rw [h.missed]

/-- A probe of a manager whose cache is empty. -/
theorem probeValue_run (name : String) (hc : m.connectionAvailable = true) (hdb : pr.managerDb.isSome = true)
    (hempty : m.vc.values = .empty) :
    let r := run (probeValue pr name name) m s
    match found pr m s name with
    | some v => r.result.status = .ok ∧ r.result.value = v
    | none => r.result.status ≠ .ok ∧ r.site = s ∧ r.memory.connectionAvailable = true := by
  unfold probeValue
  rw [run_ite]
  split
  · exact probeValueUncached_run name hc hdb
  · obtain ⟨version, m₁, hversion, hfresh⟩ := @knownVersion_run pr m s hc
    have huncached := @probeValueUncached_run pr m₁ s name (hfresh.connected.trans hc) hdb
    rw [run_bind, hversion, run_bind, remembered_run _ _ (hfresh.values hempty)]
    dsimp only
    rw [run_bind, run_bind]
    obtain ⟨m₂, hremember, hconnected⟩ := @remember_run (run (probeValueUncached pr name name) m₁ s).memory
      (run (probeValueUncached pr name name) m₁ s).site (name, name) version (run (probeValueUncached pr name name) m₁ s).result
    rw [hremember]
    rw [found_fresh hfresh] at huncached
    cases hfound : found pr m s name with
    | some v =>
      rw [hfound] at huncached
      exact huncached
    | none =>
      rw [hfound] at huncached
      exact ⟨huncached.1, huncached.2.1, hconnected.trans huncached.2.2⟩

theorem served_empty (name : String) (hc : m.connectionAvailable = true) (hempty : m.vc.values = .empty) : served pr name m s = none := by
  unfold served
  split
  · rfl
  · obtain ⟨version, m₁, hversion, hfresh⟩ := @knownVersion_run pr m s hc
    rw [run_bind, hversion, remembered_run _ _ (hfresh.values hempty)]

/-- What a name gives where the cache is empty and the index is old. -/
theorem getConfigByName_run {index : Option NameIndex} (name : String) (scan : List String) (hc : m.connectionAvailable = true)
    (hdb : pr.managerDb.isSome = true) (hempty : m.vc.values = .empty) (hindex : ∀ i, index = some i → i.version ≠ s.version.getD 0) :
    getConfigByName pr index name scan m s =
      if name = versionName ∧ s.version.isSome = true then .error .typeError
      else match (found pr m s name).or (((namesOf (getAllConfigs scan s)).exact.get name).or ((namesOf (getAllConfigs scan s)).tail.get name)) with
        | some value => .ok value
        | none => .error .keyError := by
  have hraises : raises pr name m s = true ↔ name = versionName ∧ s.version.isSome = true := by
    simp [raises, served_empty name hc hempty]
  unfold getConfigByName
  simp only [hraises]
  split
  · rfl
  · have hprobe := @probeValue_run pr m s name hc hdb hempty
    cases hfound : found pr m s name with
    | some v =>
      rw [hfound] at hprobe
      rw [if_pos hprobe.1, hprobe.2]
      rfl
    | none =>
      rw [hfound] at hprobe
      rw [if_neg hprobe.1, hprobe.2.1, Option.none_or]
      have hnames : getNameIndex pr index scan (run (probeValue pr name name) m s).memory s = namesOf (getAllConfigs scan s) := by
        unfold getNameIndex
        rw [getConfigVersion_run hprobe.2.2]
        have hold : (index.filter fun i => i.version = s.version.getD 0) = none := by
          cases index with
          | none => rfl
          | some i => simp [Option.filter, hindex i rfl]
        dsimp only
        rw [hold]
      rw [hnames]

/-- The rows after the database's part of `set_config`. -/
def savedRows (kind : DbKind) (s : Site) (row : Row) : List Row :=
  match kind with
  | .pool => s.upserted row
  | .appDb =>
    if (s.select .envName row.envName).isSome then (s.updated row).elim s.rows Prod.snd
    else if s.rows.any fun r => r.configPath = row.configPath then s.rows else s.rows ++ [row]

theorem saveToRedis_run (envName : String) (payload : Fields) (category : String) (hc : m.connectionAvailable = true) :
    ∃ m' members, run (saveToRedis pr envName payload category) m s =
        ⟨true, m', { s with redis := Function.update s.redis envName (some payload), members := members, version := some (s.version.getD 0 + 1) }⟩ ∧
      m'.connectionAvailable = true ∧ m'.dbMissAt = m.dbMissAt := by
  unfold saveToRedis
  rw [run_bind, run_modify]
  dsimp only
  rw [run_bind, ensureConnection_run]
  · exact ⟨_, _, rfl, hc, rfl⟩
  · exact hc

theorem saveToDb_run (path : String) (value : Json) (dataType envName : String) {kind : DbKind} (hkind : pr.managerDb = some kind)
    (hname : orText envName path = envName) :
    ∃ ok, run (saveToDb pr path value dataType envName) m s =
      ⟨ok, m, { s with rows := savedRows kind s ⟨path, some (Serializer.safeSerialize pr.lib value), dataType, envName⟩ }⟩ := by
  unfold saveToDb
  rw [hkind]
  cases kind with
  | pool =>
    have hupsert : run (do
        if !(← isDbAvailable (some .pool)) then return false
        setDbConfig pr (some .pool) path value dataType envName) m s =
          ⟨true, m, { s with rows := s.upserted ⟨path, some (Serializer.safeSerialize pr.lib value), dataType, orText envName path⟩ }⟩ := rfl
    rw [hname] at hupsert
    exact ⟨true, hupsert⟩
  | appDb =>
    unfold savedRows updateDbConfig
    dsimp only
    have hquery : run (executeQueryOne .envName envName) m s = ⟨s.select .envName envName, m, s⟩ := rfl
    rw [run_bind, hquery]
    cases hselect : s.select .envName envName with
    | some row =>
      rw [Option.isSome_some, if_pos rfl]
      dsimp only
      have hupdate := fun f => ask_bind (β := Bool) m s (.dbUpdate ⟨path, some (Serializer.safeSerialize pr.lib value), dataType, envName⟩) f
      simp only [Site.exec] at hupdate
      rw [hupdate]
      cases s.updated ⟨path, some (Serializer.safeSerialize pr.lib value), dataType, envName⟩ with
      | some rows => exact ⟨_, rfl⟩
      | none => exact ⟨_, rfl⟩
    | none =>
      rw [Option.isSome_none, if_neg Bool.false_ne_true]
      dsimp only
      have hinsert := fun f => ask_bind (β := Bool) m s (.dbInsert ⟨path, some (Serializer.safeSerialize pr.lib value), dataType, envName⟩) f
      simp only [Site.exec] at hinsert
      rw [hinsert]
      by_cases htaken : (s.rows.any fun r => r.configPath = path) = true
      · rw [if_pos htaken, if_pos htaken]
        exact ⟨_, rfl⟩
      · rw [if_neg htaken, if_neg htaken]
        exact ⟨_, rfl⟩

/-- `set_config` of a connected manager. -/
structure Saves (pr : Process) (kind : DbKind) (t : Target) (value : Json) (m : Memory) (s : Site) (o : Outcome Bool) : Prop where
  connected : o.memory.connectionAvailable = true
  forgotten : o.memory.vc.values = .empty
  missed : o.memory.dbMissAt = m.dbMissAt.erase (orText t.envName t.path)
  redis : o.site.redis = Function.update s.redis (orText t.envName t.path)
    (some (payloadOf (cleaned pr value t.dataType) t.dataType (orText t.category (firstSegment t.path)) t.path (orText t.envName t.path)))
  version : o.site.version = some (s.version.getD 0 + 1)
  rows : o.site.rows = savedRows kind s
    ⟨t.path, some (Serializer.safeSerialize pr.lib (cleaned pr value t.dataType)), t.dataType, orText t.envName t.path⟩

theorem orText_orText (a b : String) : orText (orText a b) b = orText a b := by
  unfold orText
  split
  · exact ite_self b
  · rfl

theorem setConfig_run (t : Target) (value : Json) {kind : DbKind} (hc : m.connectionAvailable = true) (hkind : pr.managerDb = some kind) :
    Saves pr kind t value m s (run (setConfig pr t.path value t.dataType t.category t.envName) m s) := by
  unfold setConfig
  dsimp only
  obtain ⟨m₁, members, hredis, hconnected, hmissed⟩ := @saveToRedis_run pr m s (orText t.envName t.path)
    (payloadOf (cleaned pr value t.dataType) t.dataType (orText t.category (firstSegment t.path)) t.path (orText t.envName t.path))
    (orText t.category (firstSegment t.path)) hc
  rw [run_bind, hredis, run_bind]
  dsimp only
  have hremember : ∀ s', run (rememberDbMiss (orText t.envName t.path) false) m₁ s' =
      ⟨(), { m₁ with dbMissAt := m₁.dbMissAt.erase (orText t.envName t.path) }, s'⟩ := fun s' => rfl
  rw [hremember, run_bind]
  have hforget : ∀ m' s', run forgetCachedValues m' s' = ⟨(), { m' with vc := { m'.vc with values := .empty, checkedAt := none } }, s'⟩ :=
    fun m' s' => rfl
  rw [hforget, run_bind]
  dsimp only
  obtain ⟨ok, hdb⟩ := @saveToDb_run pr
    { m₁ with
      dbMissAt := m₁.dbMissAt.erase (orText t.envName t.path)
      vc := { m₁.vc with values := .empty, checkedAt := none } }
    { s with
      redis := Function.update s.redis (orText t.envName t.path)
        (some (payloadOf (cleaned pr value t.dataType) t.dataType (orText t.category (firstSegment t.path)) t.path (orText t.envName t.path)))
      members := members
      version := some (s.version.getD 0 + 1) }
    t.path (cleaned pr value t.dataType) t.dataType (orText t.envName t.path) kind hkind (orText_orText _ _)
  rw [hdb, run_pure]
  refine ⟨hconnected, rfl, ?_, rfl, rfl, ?_⟩
  · dsimp only
    rw [hmissed]
  · cases kind with
    | pool => rfl
    | appDb => rfl

end Connected
end XgenSdk.Config.ByName
