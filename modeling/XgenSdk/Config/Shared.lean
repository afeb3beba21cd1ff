import XgenSdk.Config.Manager
import XgenSdk.Lib.Interleave

/-! The stores that the processes share, statement by statement, and the
processes as threads that make one call of their manager after the other. -/
namespace XgenSdk.Config
open XgenSdk.Py XgenSdk.Interleave

/-- A value that `set_config` set in Redis, and the writes that had ended when the call began. -/
structure Write where
  envName : String
  payload : Fields
  ended : List Nat

/-- A write that was counted, and the version that counts it. -/
structure Counted where
  envName : String
  stamp : Nat
  version : Int

/-- What a `probe_value` returned, and the version its manager had noted when it began. -/
structure Probed where
  envName : String
  noted : Option Int
  probe : Probe

/-- Redis and the table `persistent_configs`. A stamp is the number of the
`set_config` that a value is of, and 0 where the value was there from the start or
was restored. From `writes` on the fields record the run and decide nothing: the
writes in order, `ended` those whose call is over, and for every thread the
writes that had ended when its `set_config` began, its last write, and whether
that is not in the table yet. -/
structure World (ι : Type) where
  now : Nat
  redisUp : Bool
  dbUp : Bool
  redis : String → Option (Fields × Nat)
  version : Option Int
  rows : List (Row × Nat)
  writes : List Write
  counted : List Counted
  probed : List Probed
  ended : List Nat
  began : ι → Option (List Nat)
  lastWrite : ι → Nat
  unsaved : ι → Bool

namespace World
variable {ι : Type} [DecidableEq ι] (w : World ι)

def stampOf (envName : String) : Nat := (w.redis envName).elim 0 Prod.snd

/-- The last write of each key that the version counts. -/
def counts : Counts := fun envName => ((w.counted.filter fun c => c.envName = envName).map (·.stamp)).foldl max 0

/-- `ON CONFLICT(config_path) DO UPDATE`. -/
def upserted (row : Row) (stamp : Nat) : List (Row × Nat) :=
  if w.rows.any fun r => r.1.configPath = row.configPath then
    w.rows.map fun r => if r.1.configPath = row.configPath then (row, stamp) else r
  else w.rows ++ [(row, stamp)]

/-- `UPDATE … WHERE env_name`; `config_path` stays unique. -/
def updated (row : Row) (stamp : Nat) : Option (Nat × List (Row × Nat)) :=
  let matched := (w.rows.filter fun r => r.1.envName = row.envName).length
  if 1 < matched ∨ (matched = 1 ∧ w.rows.any fun r => r.1.envName ≠ row.envName && r.1.configPath = row.configPath) then
    none
  else some (matched, w.rows.map fun r => if r.1.envName = row.envName then (row, stamp) else r)

def select : Column → String → Option Row
  | .configPath, key => (w.rows.find? fun r => r.1.configPath = key).map Prod.fst
  | .envName, key => (w.rows.find? fun r => r.1.envName = key).map Prod.fst

/-- `SET`; a restored value is of no write. -/
def set (i : ι) (envName : String) (payload : Fields) (restored : Bool) : World ι :=
  if restored then { w with redis := Function.update w.redis envName (some (payload, 0)) }
  else
    { w with
      redis := Function.update w.redis envName (some (payload, w.writes.length + 1))
      writes := w.writes ++ [⟨envName, payload, (w.began i).getD []⟩]
      lastWrite := Function.update w.lastWrite i (w.writes.length + 1)
      unsaved := Function.update w.unsaved i true }

def nextVersion : Int := w.version.getD 0 + 1

def incr (envName : String) (stamp : Nat) : World ι :=
  { w with version := some w.nextVersion, counted := ⟨envName, stamp, w.nextVersion⟩ :: w.counted }

def save (i : ι) (rows : List (Row × Nat)) : World ι :=
  { w with rows := rows, unsaved := Function.update w.unsaved i false }

def record (i : ι) : Note → World ι
  | .probed envName noted probe => { w with probed := ⟨envName, noted, probe⟩ :: w.probed }
  | .begins => { w with began := Function.update w.began i (some w.ended) }
  | .ends => { w with began := Function.update w.began i none, ended := w.lastWrite i :: w.ended }
  | _ => w

/-- One statement of thread `i`. -/
def exec (i : ι) : (s : Stmt) → World ι → Reply s × World ι
  | .clock, w => (w.now, w)
  | .connect, w => (w.redisUp, w)
  | .redisGet envName, w => if w.redisUp then (.ok ((w.redis envName).map Prod.fst, w.stampOf envName), w) else (.failed, w)
  | .redisVersion, w => if w.redisUp then (.ok (w.version, w.counts), w) else (.failed, w)
  | .redisSet envName payload restored, w =>
    if w.redisUp then (.ok (if restored then 0 else w.writes.length + 1), w.set i envName payload restored) else (.failed, w)
  | .redisAdd .., w => (if w.redisUp then .ok () else .failed, w)
  | .redisIncr envName stamp, w =>
    if w.redisUp then (.ok (w.nextVersion, (w.incr envName stamp).counts), w.incr envName stamp) else (.failed, w)
  | .dbAvailable, w => (w.dbUp, w)
  | .dbSelect column key, w => (if w.dbUp then .ok (w.select column key) else .failed, w)
  | .dbUpsert row, w => if w.dbUp then (.ok (), w.save i (w.upserted row (w.lastWrite i))) else (.failed, w)
  | .dbUpdate row, w =>
    match w.dbUp, w.updated row (w.lastWrite i) with
    | true, some (count, rows) => (.ok count, w.save i rows)
    | _, _ => (.failed, w)
  | .dbInsert row, w =>
    if w.dbUp ∧ ¬ w.rows.any fun r => r.1.configPath = row.configPath then
      (.ok (), w.save i (w.rows ++ [(row, w.lastWrite i)]))
    else (.failed, w)
  | .note n, w => ((), w.record i n)

/-- Time passes. -/
def tick (n : Nat) (w : World ι) : World ι := { w with now := w.now + n }

end World

/-! The processes. -/

/-- A call of the manager. -/
inductive Op where
  | probeValue (envName configPath : String)
  | probeConfigVersion
  | getConfigVersion
  | setConfig (configPath : String) (configValue : Json) (dataType category envName : String)

def Op.call (pr : Process) : Op → Call Unit
  | .probeValue envName configPath => do
    let noted := (← get).vc.version
    let probe ← Config.probeValue pr envName configPath
    ask (.note (.probed envName noted probe))
  | .probeConfigVersion => do
    let _ ← Config.probeConfigVersion pr
    return ()
  | .getConfigVersion => do
    let _ ← Config.getConfigVersion pr
    return ()
  | .setConfig configPath configValue dataType category envName => do
    ask (.note .begins)
    let _ ← Config.setConfig pr configPath configValue dataType category envName
    ask (.note .ends)

/-- The calls of a process, one after the other. -/
def runOps (pr : Process) : List Op → Call Unit
  | [] => return ()
  | op :: ops => do
    op.call pr
    runOps pr ops

def threadOf (pr : Process) (ops : List Op) : Prog Reply Empty Unit := (runOps pr ops freshMemory).bind fun p => .done p.1

abbrev State (ι : Type) := Interleave.Config ι (World ι) Reply Empty Unit

/-- Every process has just started, and is to make its calls. -/
def start {ι : Type} (pr : ι → Process) (ops : ι → List Op) (w : World ι) : State ι :=
  ⟨w, fun i => ⟨[], threadOf (pr i) (ops i)⟩⟩

/-- What `_restore_to_redis` relies on: no write has set the key since it was found missing. -/
def RestoresInTime {ι : Type} (c : State ι) : Move ι Nat → Prop
  | .issue i => match (c.threads i).rest with
    | .act (.redisSet envName _ true) _ => c.shared.stampOf envName = 0
    | _ => True
  | .env _ => True

/-! What a version that was noted says of a value, and which assertions about the
memory of a process the moves of the others keep. -/

/-! What is as new as a version. -/
section Worlds
variable {ι : Type} {w x y : World ι} {envName : String} {status : Status} {value : Json} {noted : Int}

/-- The value is one that this write of the key set, or a later write of it. -/
def World.AsNew (w : World ι) (envName : String) (value : Json) (c : Counted) : Prop :=
  ∃ n write, c.stamp ≤ n + 1 ∧ w.writes[n]? = some write ∧ write.envName = envName ∧ Json.lookup "value" write.payload = some value

/-- A result for the key that is as new as all writes that this version counts. -/
structure World.Current (w : World ι) (envName : String) (noted : Int) (status : Status) (value : Json) : Prop where
  reached : ∃ v, w.version = some v ∧ noted ≤ v
  asNew : ∀ c ∈ w.counted, c.envName = envName → c.version ≤ noted → status = .ok ∧ w.AsNew envName value c

structure World.Sound (w : World ι) : Prop where
  redisUp : w.redisUp = true
  version : ∃ v, w.version = some v ∧ ∀ c ∈ w.counted, c.version ≤ v
  written : ∀ envName payload n, w.redis envName = some (payload, n + 1) →
    ∃ write, w.writes[n]? = some write ∧ write.envName = envName ∧ write.payload = payload
  valued : ∀ write ∈ w.writes, (Json.lookup "value" write.payload).isSome
  counted : ∀ c ∈ w.counted, 1 ≤ c.stamp ∧ c.stamp ≤ w.stampOf c.envName
  probed : ∀ p ∈ w.probed, ∀ noted, p.noted = some noted → w.Current p.envName noted p.probe.status p.probe.value

/-- No key is set back to an older write. -/
def NotOlder (x y : World ι) : Prop := ∀ envName, x.stampOf envName ≤ y.stampOf envName

structure World.Advances (x y : World ι) : Prop where
  version : ∀ v, x.version = some v → ∃ v', y.version = some v' ∧ v ≤ v'
  writes : x.writes <+: y.writes
  counted : ∀ c ∈ y.counted, c ∈ x.counted ∨ ∀ v, x.version = some v → v < c.version
  stamps : NotOlder x y

/-- The assertion survives whatever the processes do. -/
def Persists (frame : World ι → Prop) : Prop := ∀ x y, x.Advances y → frame x → frame y

theorem World.AsNew.advances {c : Counted} (h : x.AsNew envName value c) (hxy : x.Advances y) : y.AsNew envName value c := by
  obtain ⟨n, write, hn, hwrite, hname, hvalue⟩ := h
  obtain ⟨more, hmore⟩ := hxy.writes
  refine ⟨n, write, hn, ?_, hname, hvalue⟩
  rw [← hmore, List.getElem?_append_left (List.getElem?_eq_some_iff.mp hwrite).1]
  exact hwrite

theorem current_persists (envName : String) (noted : Int) (status : Status) (value : Json) :
    Persists fun w : World ι => w.Current envName noted status value := by
  intro x y hxy ⟨⟨v, hv, hnoted⟩, hnew⟩
  obtain ⟨v', hv', hle⟩ := hxy.version v hv
  refine ⟨⟨v', hv', hnoted.trans hle⟩, fun c hc hname hversion => ?_⟩
  obtain hold | hlater := hxy.counted c hc
  · obtain ⟨hok, hasNew⟩ := hnew c hold hname hversion
    exact ⟨hok, hasNew.advances hxy⟩
  · have hlt := hlater v hv
    omega

theorem World.Current.weaken {n : Int} (h : w.Current envName noted status value) (hn : n ≤ noted) : w.Current envName n status value := by
  obtain ⟨⟨v, hv, hle⟩, hnew⟩ := h
  exact ⟨⟨v, hv, hn.trans hle⟩, fun c hc hname hversion => hnew c hc hname (hversion.trans hn)⟩

/-- Where nothing was found, no write is counted. -/
theorem World.Current.of_missing {status' : Status} {value' : Json} (h : w.Current envName noted status value) (hstatus : status ≠ .ok) :
    w.Current envName noted status' value' :=
  ⟨h.reached, fun c hc hname hversion => absurd (h.asNew c hc hname hversion).1 hstatus⟩

theorem World.Sound.stampOf_le (h : w.Sound) (envName : String) : w.stampOf envName ≤ w.writes.length := by
  cases hredis : w.redis envName with
  | none =>
    rw [World.stampOf, hredis]
    exact Nat.zero_le _
  | some found =>
    obtain ⟨payload, stamp⟩ := found
    rw [World.stampOf, hredis]
    change stamp ≤ _
    cases stamp with
    | zero => exact Nat.zero_le _
    | succ n =>
      obtain ⟨write, hwrite, -⟩ := h.written envName payload n hredis
      exact (List.getElem?_eq_some_iff.mp hwrite).1

/-- A result that is as new as this version, if there is one. -/
def CurrentAt (envName : String) (version : Option Int) (status : Status) (value : Json) (w : World ι) : Prop :=
  ∀ v, version = some v → w.Current envName v status value

theorem currentAt_persists (envName : String) (version : Option Int) (status : Status) (value : Json) :
    Persists (CurrentAt (ι := ι) envName version status value) :=
  fun x y hxy hx v hv => current_persists _ _ _ _ x y hxy (hx v hv)

theorem reached_persists (n : Int) : Persists fun w : World ι => ∃ v, w.version = some v ∧ n ≤ v := by
  intro x y hxy ⟨v, hv, hle⟩
  obtain ⟨v', hv', hle'⟩ := hxy.version v hv
  exact ⟨v', hv', hle.trans hle'⟩

/-- The version, if there is one, has been reached. -/
def Reached (version : Option Int) (w : World ι) : Prop := ∀ n, version = some n → ∃ v, w.version = some v ∧ n ≤ v

theorem reachedAt_persists (version : Option Int) : Persists (Reached (ι := ι) version) :=
  fun x y hxy hx n hn => reached_persists n x y hxy (hx n hn)

theorem stamped_persists (envName : String) (stamp : Nat) : Persists fun w : World ι => stamp ≤ w.stampOf envName :=
  fun _ _ hxy hx => hx.trans (hxy.stamps envName)

theorem true_persists : Persists fun _ : World ι => True := fun _ _ _ h => h

/-- Redis is there and has a version, and nothing has been written by the processes. -/
structure World.Untouched (w : World ι) : Prop where
  redisUp : w.redisUp = true
  version : w.version.isSome
  redis : ∀ envName, w.stampOf envName = 0
  writes : w.writes = []
  counted : w.counted = []
  probed : w.probed = []

theorem World.Untouched.sound (h : w.Untouched) : w.Sound where
  redisUp := h.redisUp
  version := by
    obtain ⟨v, hv⟩ := Option.isSome_iff_exists.mp h.version
    exact ⟨v, hv, fun c hc => by rw [h.counted] at hc; cases hc⟩
  written := by
    intro envName payload n hredis
    have hstamp := h.redis envName
    rw [World.stampOf, hredis] at hstamp
    cases hstamp
  valued := by
    intro write hwrite
    rw [h.writes] at hwrite
    cases hwrite
  counted := by
    intro c hc
    rw [h.counted] at hc
    cases hc
  probed := by
    intro p hp
    rw [h.probed] at hp
    cases hp

theorem World.Sound.incr_advances (h : w.Sound) (envName : String) (stamp : Nat) : w.Advances (w.incr envName stamp) := by
  obtain ⟨v, hv, -⟩ := h.version
  have hnext : w.nextVersion = v + 1 := by
    rw [World.nextVersion, hv]
    rfl
  refine ⟨fun v' hv' => ⟨w.nextVersion, rfl, ?_⟩, List.prefix_rfl, fun c hc => ?_, fun _ => le_rfl⟩
  · obtain rfl := Option.some.inj (hv.symm.trans hv')
    omega
  · obtain rfl | hc := List.mem_cons.mp hc
    · refine .inr fun v' hv' => ?_
      obtain rfl := Option.some.inj (hv.symm.trans hv')
      change v < w.nextVersion
      omega
    · exact .inl hc

theorem World.Sound.incr {stamp : Nat} (h : w.Sound) (hpos : 1 ≤ stamp) (hle : stamp ≤ w.stampOf envName) : (w.incr envName stamp).Sound := by
  have hadvances := h.incr_advances envName stamp
  obtain ⟨v, hv, hcounted⟩ := h.version
  have hnext : w.nextVersion = v + 1 := by
    rw [World.nextVersion, hv]
    rfl
  refine ⟨h.redisUp, ⟨w.nextVersion, rfl, fun c hc => ?_⟩, h.written, h.valued, fun c hc => ?_, fun p hp noted hnoted => ?_⟩
  · obtain rfl | hc := List.mem_cons.mp hc
    · exact le_rfl
    · have hle := hcounted c hc
      omega
  · obtain rfl | hc := List.mem_cons.mp hc
    · exact ⟨hpos, hle⟩
    · exact h.counted c hc
  · exact current_persists _ _ _ _ _ _ hadvances (h.probed p hp noted hnoted)

/-- What `_probe_redis_value` makes of the answer of Redis. -/
def readOf : Option Fields → Status × Json
  | none => (.missing, .null)
  | some payload =>
    match Json.lookup "value" payload with
    | none => (.missing, .null)
    | some value => (.ok, value)

theorem World.Sound.current {n : Int} (h : w.Sound) (hreached : ∃ v, w.version = some v ∧ n ≤ v) :
    w.Current envName n (readOf ((w.redis envName).map Prod.fst)).1 (readOf ((w.redis envName).map Prod.fst)).2 := by
  refine ⟨hreached, fun c hc hname _ => ?_⟩
  obtain ⟨hpos, hle⟩ := h.counted c hc
  rw [hname, World.stampOf] at hle
  cases hredis : w.redis envName with
  | none =>
    rw [hredis] at hle
    exact absurd (hpos.trans hle) (by decide)
  | some found =>
    obtain ⟨payload, stamp⟩ := found
    rw [hredis] at hle
    cases stamp with
    | zero => exact absurd (hpos.trans hle) (Nat.not_succ_le_zero 0)
    | succ n =>
      obtain ⟨write, hwrite, hwritten, rfl⟩ := h.written envName payload n hredis
      obtain ⟨value, hvalue⟩ := Option.isSome_iff_exists.mp (h.valued write (List.mem_of_getElem? hwrite))
      rw [Option.map_some, readOf, hvalue]
      exact ⟨rfl, n, write, hle, hwrite, hwritten, hvalue⟩

/-! Statements that leave Redis alone. -/

structure World.SameRedis (x y : World ι) : Prop where
  redisUp : y.redisUp = x.redisUp
  redis : y.redis = x.redis
  version : y.version = x.version
  writes : y.writes = x.writes
  counted : y.counted = x.counted
  probed : y.probed = x.probed

theorem World.SameRedis.notOlder (h : x.SameRedis y) : NotOlder x y := by
  intro envName
  rw [World.stampOf, World.stampOf, h.redis]

theorem World.SameRedis.advances (h : x.SameRedis y) : x.Advances y where
  version v hv := ⟨v, h.version.trans hv, le_rfl⟩
  writes := h.writes ▸ List.prefix_rfl
  counted _ hc := .inl (h.counted ▸ hc)
  stamps := h.notOlder

theorem World.SameRedis.sound (h : x.SameRedis y) (hx : x.Sound) : y.Sound where
  redisUp := h.redisUp.trans hx.redisUp
  version := by
    rw [h.version, h.counted]
    exact hx.version
  written := by
    rw [h.redis, h.writes]
    exact hx.written
  valued := by
    rw [h.writes]
    exact hx.valued
  counted := by
    intro c hc
    rw [h.counted] at hc
    obtain ⟨hpos, hle⟩ := hx.counted c hc
    exact ⟨hpos, hle.trans (h.notOlder c.envName)⟩
  probed := by
    intro p hp noted hnoted
    rw [h.probed] at hp
    exact current_persists _ _ _ _ x y h.advances (hx.probed p hp noted hnoted)

/-- Neither a set nor a count, nor the note of a result. -/
def isQuiet : Stmt → Bool
  | .redisSet .. => false
  | .redisIncr .. => false
  | .note (.probed ..) => false
  | _ => true

theorem World.SameRedis.refl (w : World ι) : w.SameRedis w := ⟨rfl, rfl, rfl, rfl, rfl, rfl⟩

theorem World.save_sameRedis [DecidableEq ι] (w : World ι) (i : ι) (rows : List (Row × Nat)) : w.SameRedis (w.save i rows) :=
  ⟨rfl, rfl, rfl, rfl, rfl, rfl⟩

theorem exec_quiet [DecidableEq ι] (i : ι) {s : Stmt} (h : isQuiet s = true) (w : World ι) : w.SameRedis (World.exec i s w).2 := by
  cases s with
  | redisSet envName payload restored => cases h
  | redisIncr envName stamp => cases h
  | note n =>
    cases n with
    | probed envName noted probe => cases h
    | _ => exact ⟨rfl, rfl, rfl, rfl, rfl, rfl⟩
  | redisGet envName =>
    simp only [World.exec]
    split <;> exact .refl w
  | redisVersion =>
    simp only [World.exec]
    split <;> exact .refl w
  | dbUpsert row =>
    simp only [World.exec]
    split
    · exact w.save_sameRedis i _
    · exact .refl w
  | dbUpdate row =>
    simp only [World.exec]
    split
    · exact w.save_sameRedis i _
    · exact .refl w
  | dbInsert row =>
    simp only [World.exec]
    split
    · exact w.save_sameRedis i _
    · exact .refl w
  | _ => exact .refl w

/-! The memory of a process. -/

def discipline : Discipline ι (World ι) Reply Empty Unit := ⟨World.Sound, fun _ => World.Advances, NotOlder, fun _ _ _ _ => True⟩

theorem Persists.lasting {frame : World ι → Prop} {i : ι} (h : Persists frame) : discipline.Lasting World.tick i frame := by
  intro t x y hothers hx
  obtain ⟨-, -, -, -, ⟨n, rfl⟩ | ⟨j, -, hadvances⟩⟩ := hothers
  · exact h x _ ⟨fun v hv => ⟨v, hv, le_rfl⟩, List.prefix_rfl, fun c hc => .inl hc, fun _ => le_rfl⟩ hx
  · exact h x y hadvances hx

section Kept
variable {frame : World ι → Prop} {m m' : Memory}

/-- What is known of the memory of a process, beside a frame. -/
structure Memory.Kept (frame : World ι → Prop) (m : Memory) (w : World ι) : Prop where
  available : m.connectionAvailable = true
  noted : ∀ n, m.vc.version = some n → ∃ v, w.version = some v ∧ n ≤ v
  cached : ∀ key hit, m.vc.values.get key = some hit → w.Current key.1 hit.tagged hit.probe.status hit.probe.value
  frame : frame w

theorem kept_persists (hframe : Persists frame) (m : Memory) : Persists (m.Kept frame) := fun x y hxy h =>
  ⟨h.available, fun n hn => reached_persists n x y hxy (h.noted n hn),
    fun key hit hhit => current_persists _ _ _ _ x y hxy (h.cached key hit hhit), hframe x y hxy h.frame⟩

theorem Memory.Kept.of_same (h : m.Kept frame w) (havailable : m'.connectionAvailable = m.connectionAvailable)
    (hversion : m'.vc.version = m.vc.version) (hvalues : ∀ key hit, m'.vc.values.get key = some hit → m.vc.values.get key = some hit) :
    m'.Kept frame w :=
  ⟨havailable.trans h.available, fun n hn => h.noted n (hversion ▸ hn), fun key hit hhit => h.cached key hit (hvalues key hit hhit), h.frame⟩

/-- The times of the cache and its mark say nothing of its values. -/
theorem Memory.Kept.timed (h : m.Kept frame w) (checkedAt : Option Nat) (refreshing : Bool) :
    Memory.Kept frame { m with vc := { m.vc with checkedAt := checkedAt, refreshing := refreshing } } w :=
  h.of_same rfl rfl fun _ _ hhit => hhit

theorem Memory.Kept.unframed {assumed : World ι → Prop} (h : m.Kept (fun x => frame x ∧ assumed x) w) : m.Kept frame w :=
  ⟨h.available, h.noted, h.cached, h.frame.1⟩

theorem Memory.Kept.reached (h : m.Kept frame w) : m.Kept (fun x => frame x ∧ Reached m.vc.version x) w :=
  ⟨h.available, h.noted, h.cached, h.frame, h.noted⟩

end Kept

end Worlds

/-! What the processes do to the world. -/
section Threads
variable {ι : Type} [DecidableEq ι] {w : World ι} {i : ι} {envName : String}

theorem World.set_advances {payload : Fields} {restored : Bool} (hold : NotOlder w (w.set i envName payload restored)) :
    w.Advances (w.set i envName payload restored) := by
  cases restored with
  | true => exact ⟨fun v hv => ⟨v, hv, le_rfl⟩, List.prefix_rfl, fun c hc => .inl hc, hold⟩
  | false => exact ⟨fun v hv => ⟨v, hv, le_rfl⟩, List.prefix_append _ _, fun c hc => .inl hc, hold⟩

theorem World.Sound.set {payload : Fields} {restored : Bool} (h : w.Sound) (hvalue : restored = false → (Json.lookup "value" payload).isSome)
    (hold : NotOlder w (w.set i envName payload restored)) : (w.set i envName payload restored).Sound := by
  have hadvances := World.set_advances hold
  have hcounted : (w.set i envName payload restored).counted = w.counted := by
    unfold World.set
    split <;> rfl
  refine ⟨?_, ?_, ?_, ?_, ?_, ?_⟩
  · unfold World.set
    split
    · exact h.redisUp
    · exact h.redisUp
  · rw [hcounted]
    unfold World.set
    split
    · exact h.version
    · exact h.version
  · intro name payload' n hredis
    unfold World.set at hredis ⊢
    by_cases hname : name = envName
    · subst hname
      cases restored with
      | true => simp at hredis
      | false =>
        simp only [Bool.false_eq_true, if_false, Function.update_self, Option.some.injEq, Prod.mk.injEq, Nat.add_right_cancel_iff] at hredis
        obtain ⟨rfl, rfl⟩ := hredis
        exact ⟨_, List.getElem?_concat_length, rfl, rfl⟩
    · cases restored with
      | true =>
        simp only [if_true, Function.update_of_ne hname] at hredis
        exact h.written name payload' n hredis
      | false =>
        simp only [Bool.false_eq_true, if_false, Function.update_of_ne hname] at hredis
        obtain ⟨write, hwrite, hrest⟩ := h.written name payload' n hredis
        refine ⟨write, ?_, hrest⟩
        change (w.writes ++ _)[n]? = some write
        rw [List.getElem?_append_left (List.getElem?_eq_some_iff.mp hwrite).1]
        exact hwrite
  · intro write hwrite
    unfold World.set at hwrite
    cases restored with
    | true => exact h.valued write hwrite
    | false =>
      obtain hwrite | hwrite := List.mem_append.mp hwrite
      · exact h.valued write hwrite
      · rw [List.mem_singleton.mp hwrite]
        exact hvalue rfl
  · intro c hc
    rw [hcounted] at hc
    obtain ⟨hpos, hle⟩ := h.counted c hc
    exact ⟨hpos, hle.trans (hold c.envName)⟩
  · intro p hp noted hnoted
    have hprobed : (w.set i envName payload restored).probed = w.probed := by
      unfold World.set
      split <;> rfl
    rw [hprobed] at hp
    exact current_persists _ _ _ _ _ _ hadvances (h.probed p hp noted hnoted)

theorem World.record_advances (w : World ι) (i : ι) (n : Note) : w.Advances (w.record i n) := by
  cases n <;> exact ⟨fun v hv => ⟨v, hv, le_rfl⟩, List.prefix_rfl, fun c hc => .inl hc, fun _ => le_rfl⟩

theorem World.Sound.probed_result {noted : Option Int} {probe : Probe} (h : w.Sound)
    (hcurrent : ∀ n, noted = some n → w.Current envName n probe.status probe.value) : (w.record i (.probed envName noted probe)).Sound := by
  have hadvances := w.record_advances i (.probed envName noted probe)
  refine ⟨h.redisUp, h.version, h.written, h.valued, h.counted, fun p hp n hn => ?_⟩
  obtain rfl | hp := List.mem_cons.mp hp
  · exact current_persists _ _ _ _ _ _ hadvances (hcurrent n hn)
  · exact current_persists _ _ _ _ _ _ hadvances (h.probed p hp n hn)

/-! Contracts. -/

variable {frame : World ι → Prop} {m m' : Memory} {α β : Type} {noted : Option Int}

/-- From the first assertion the part of process `i` leads to the second, whatever the others do. -/
abbrev Leads (i : ι) (P : Memory → World ι → Prop) (part : Call α) (Q : α → Memory → World ι → Prop) : Prop :=
  discipline.Contract World.exec World.tick i P part Q

abbrev Keeps (i : ι) (frame : World ι → Prop) (part : Call α) : Prop := Leads i (Memory.Kept frame) part fun _ => Memory.Kept frame

theorem leads_quiet {s : Stmt} {P : Memory → World ι → Prop} {Q : Reply s → Memory → World ι → Prop} (hs : isQuiet s = true)
    (hQ : ∀ r m, Persists (Q r m)) (hreply : ∀ m x, x.Sound → P m x → Q (World.exec i s x).1 m x) : Leads i P (ask s) Q := by
  refine Discipline.Contract.ask (fun m x hx hP _ => ?_) fun r m => (hQ r m).lasting
  have hsame := exec_quiet i hs x
  exact ⟨hsame.sound hx, hsame.advances, hQ _ m x _ hsame.advances (hreply m x hx hP)⟩

theorem keeps_quiet {s : Stmt} (hframe : Persists frame) (hs : isQuiet s = true) : Keeps i frame (ask s) :=
  leads_quiet hs (fun _ => kept_persists hframe) fun _ _ _ h => h

theorem keeps_pure (a : α) : Keeps i frame (pure a) := Discipline.Contract.pure fun _ _ h => h

theorem keeps_bind {part : Call α} {next : α → Call β} (hpart : Keeps i frame part) (hnext : ∀ a, Keeps i frame (next a)) :
    Keeps i frame (part >>= next) := Discipline.Contract.bind hpart hnext

theorem keeps_get : Keeps i frame (get : Call Memory) := Discipline.Contract.get fun _ _ h => h

theorem ite_leads {P : Memory → World ι → Prop} {Q : α → Memory → World ι → Prop} {c : Prop} [Decidable c] {part part' : Call α}
    (h : c → Leads i P part Q) (h' : ¬ c → Leads i P part' Q) : Leads i P (if c then part else part') Q := by
  split
  · exact h ‹_›
  · exact h' ‹_›

theorem keeps_ite {c : Prop} [Decidable c] {part part' : Call α} (h : Keeps i frame part) (h' : Keeps i frame part') :
    Keeps i frame (if c then part else part') := ite_leads (fun _ => h) fun _ => h'

theorem keeps_modify {f : Memory → Memory} (havailable : ∀ m, (f m).connectionAvailable = m.connectionAvailable)
    (hvc : ∀ m, (f m).vc = m.vc) : Keeps i frame (modify f) :=
  Discipline.Contract.modify fun m _ h =>
    h.of_same (havailable m) (by rw [hvc]) fun key hit hhit => by rwa [hvc] at hhit

end Threads

end XgenSdk.Config
