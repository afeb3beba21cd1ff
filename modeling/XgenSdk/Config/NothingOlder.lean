import XgenSdk.Config.Shared
import XgenSdk.Config.Saved

/-! A value that `probe_value` returns is as new as the version its manager had noted. -/
namespace XgenSdk.Config
open XgenSdk.Py XgenSdk.Interleave

section Threads
variable {ι : Type} [DecidableEq ι] {w : World ι} {i : ι} {envName : String}
variable {frame : World ι → Prop} {m : Memory} {α : Type} {noted : Option Int}

/-! The version. -/

theorem ensureConnection_leads (pr : Process) {P : Memory → World ι → Prop} (hP : ∀ m x, P m x → m.connectionAvailable = true) :
    Leads i P (ensureConnection pr) fun connected m x => connected = true ∧ P m x := by
  refine Discipline.Contract.bind (Q := fun seen m x => seen.connectionAvailable = true ∧ P m x)
    (Discipline.Contract.get fun m x hx => ⟨hP m x hx, hx⟩) fun seen => ?_
  refine Discipline.Contract.assume (fun m x hx => hx.1) fun havailable => ?_
  rw [if_pos havailable]
  exact Discipline.Contract.pure fun m x hx => ⟨rfl, hx.2⟩

/-- A version that is read is as high as the one that was noted. -/
theorem redisVersion_leads (hframe : Persists frame) :
    Leads i (fun m x => m.Kept frame x ∧ m.vc.version = noted) (ask .redisVersion) fun r m x =>
      (∃ v counts, r = .ok (some v, counts) ∧ ∀ n, noted = some n → n ≤ v) ∧ m.Kept frame x ∧
        ∀ v counts, r = .ok (some v, counts) → ∃ v', x.version = some v' ∧ v ≤ v' := by
  refine leads_quiet rfl (fun r m x y hxy hx => ?_) fun m x hx hP => ?_
  · exact ⟨hx.1, kept_persists hframe m x y hxy hx.2.1, fun v counts hr => reached_persists v x y hxy (hx.2.2 v counts hr)⟩
  · obtain ⟨hkept, rfl⟩ := hP
    obtain ⟨v, hv, -⟩ := hx.version
    have hreply : (World.exec i .redisVersion x).1 = .ok (some v, x.counts) := by
      rw [World.exec, if_pos hx.redisUp, hv]
    refine ⟨⟨v, x.counts, hreply, fun n hn => ?_⟩, hkept, fun v' counts hr => ?_⟩
    · obtain ⟨v', hv', hle⟩ := hkept.noted n hn
      rwa [Option.some.inj (hv.symm.trans hv')]
    · rw [hreply] at hr
      obtain ⟨rfl, -⟩ : v = v' ∧ x.counts = counts := by simpa using hr
      exact ⟨v, hv, le_rfl⟩

theorem noteVersion_leads (hframe : Persists frame) (v : Int) :
    Leads i (fun m x => m.Kept frame x ∧ ∃ v', x.version = some v' ∧ v ≤ v') (noteVersion (some v))
      fun _ m x => m.Kept frame x ∧ m.vc.version = some v := by
  refine Discipline.Contract.bind (leads_quiet rfl (Q := fun _ m x => m.Kept frame x ∧ ∃ v', x.version = some v' ∧ v ≤ v')
    (fun _ m x y hxy hx => ⟨kept_persists hframe m x y hxy hx.1, reached_persists v x y hxy hx.2⟩) fun _ _ _ h => h) fun now => ?_
  refine Discipline.Contract.modify fun m x hx => ?_
  obtain ⟨hkept, hreached⟩ := hx
  refine ⟨⟨hkept.available, fun n hn => ?_, fun key hit hhit => ?_, hkept.frame⟩, rfl⟩
  · obtain rfl := Option.some.inj hn
    exact hreached
  · dsimp only at hhit
    split at hhit
    · rw [Dict.get_empty] at hhit
      cases hhit
    · exact hkept.cached key hit hhit

theorem probeConfigVersion_leads (hframe : Persists frame) (pr : Process) :
    Leads i (fun m x => m.Kept frame x ∧ m.vc.version = noted) (probeConfigVersion pr)
      fun _ m x => m.Kept frame x ∧ ∃ v, m.vc.version = some v ∧ ∀ n, noted = some n → n ≤ v := by
  refine Discipline.Contract.bind (ensureConnection_leads pr fun m x hx => hx.1.available) fun connected => ?_
  refine Discipline.Contract.assume (fun m x hx => hx.1) fun hconnected => ?_
  subst hconnected
  refine Discipline.Contract.bind ((redisVersion_leads hframe).imp (fun m x hx => hx.2) fun r m x h => h) fun r => ?_
  refine Discipline.Contract.assume (fun m x hx => hx.1) fun ⟨v, counts, hr, hle⟩ => ?_
  subst hr
  refine Discipline.Contract.bind ((noteVersion_leads hframe v).imp (fun m x hx => ⟨hx.2.1, hx.2.2 v counts rfl⟩) fun _ m x h => h)
    fun _ => ?_
  exact Discipline.Contract.pure fun m x hx => ⟨hx.1, v, hx.2, hle⟩

/-- What holds whatever version is noted. -/
theorem keeps_of_noted {part : Call α} (h : ∀ noted, Leads i (fun m x => m.Kept frame x ∧ m.vc.version = noted) part fun _ => Memory.Kept frame) :
    Keeps i frame part :=
  Discipline.Contract.of_memory fun m => (h m.vc.version).imp (fun m' x hx => ⟨hx.1 ▸ hx.2, by rw [hx.1]⟩) fun _ _ _ hx => hx

theorem probeConfigVersion_keeps (hframe : Persists frame) (pr : Process) : Keeps i frame (probeConfigVersion pr) :=
  keeps_of_noted fun _ => (probeConfigVersion_leads hframe pr).imp (fun _ _ h => h) fun _ _ _ h => h.1

theorem getConfigVersion_keeps (hframe : Persists frame) (pr : Process) : Keeps i frame (getConfigVersion pr) := by
  refine keeps_of_noted fun noted => ?_
  refine Discipline.Contract.bind (ensureConnection_leads pr fun m x hx => hx.1.available) fun connected => ?_
  refine Discipline.Contract.assume (fun m x hx => hx.1) fun hconnected => ?_
  subst hconnected
  refine Discipline.Contract.bind ((redisVersion_leads hframe).imp (fun m x hx => hx.2) fun r m x h => h) fun r => ?_
  refine Discipline.Contract.assume (fun m x hx => hx.1) fun ⟨v, counts, hr, hle⟩ => ?_
  subst hr
  refine Discipline.Contract.bind ((noteVersion_leads hframe v).imp (fun m x hx => ⟨hx.2.1, hx.2.2 v counts rfl⟩) fun _ m x h => h)
    fun _ => ?_
  exact Discipline.Contract.pure fun m x hx => hx.1

/-- The version that the cache goes by is none below the one that was noted. -/
theorem knownVersion_leads (hframe : Persists frame) (pr : Process) :
    Leads i (fun m x => m.Kept frame x ∧ m.vc.version = noted) (knownVersion pr)
      fun version m x => m.Kept (fun x => frame x ∧ Reached version x) x ∧ ∀ n, noted = some n → ∃ v, version = some v ∧ n ≤ v := by
  refine Discipline.Contract.bind (leads_quiet rfl (Q := fun _ m x => m.Kept frame x ∧ m.vc.version = noted)
    (fun _ m x y hxy hx => ⟨kept_persists hframe m x y hxy hx.1, hx.2⟩) fun _ _ _ h => h) fun now => ?_
  refine Discipline.Contract.bind (Q := fun _ m x => m.Kept frame x ∧ m.vc.version = noted)
    (Discipline.Contract.modify fun m x hx => ?_) fun _ => ?_
  · unfold Memory.resetEpoch
    split
    · exact ⟨hx.1.of_same rfl rfl fun key hit hhit => by simp [Dict.get_empty] at hhit, hx.2⟩
    · exact hx
  refine Discipline.Contract.bind (Q := fun seen m x => seen.vc.version = noted ∧ m.Kept frame x ∧ m.vc.version = noted)
    (Discipline.Contract.get fun m x hx => ⟨hx.2, hx⟩) fun seen => ?_
  refine Discipline.Contract.assume (fun m x hx => hx.1) fun hseen => ?_
  split
  · refine Discipline.Contract.pure fun m x hx => ⟨?_, fun n hn => ⟨n, hseen.trans hn, le_rfl⟩⟩
    rw [hseen, ← hx.2.2]
    exact hx.2.1.reached
  · refine Discipline.Contract.bind (Q := fun _ m x => m.Kept frame x ∧ m.vc.version = noted)
      (Discipline.Contract.modify fun m x hx => ⟨hx.2.1.timed m.vc.checkedAt true, hx.2.2⟩) fun _ => ?_
    refine Discipline.Contract.bind (probeConfigVersion_leads hframe pr) fun _ => ?_
    refine Discipline.Contract.bind (Q := fun _ m x => m.Kept frame x ∧ ∃ v, m.vc.version = some v ∧ ∀ n, noted = some n → n ≤ v)
      (Discipline.Contract.modify fun m x hx => ⟨hx.1.timed _ false, hx.2⟩) fun _ => ?_
    refine Discipline.Contract.bind (Q := fun seen m x => m.Kept (fun x => frame x ∧ Reached seen.vc.version x) x ∧
      ∃ v, seen.vc.version = some v ∧ ∀ n, noted = some n → n ≤ v) (Discipline.Contract.get fun m x hx => ⟨hx.1.reached, hx.2⟩) fun seen' => ?_
    exact Discipline.Contract.pure fun m x ⟨hkept, v, hv, hle⟩ => ⟨hkept, fun n hn => ⟨v, hv, hle n hn⟩⟩

/-! The value cache. -/

/-- What is found in the cache. -/
def Found (key : String × String) (version : Option Int) (frame : World ι → Prop) (found : Option Probe) (m : Memory) (w : World ι) : Prop :=
  m.Kept frame w ∧ ∀ probe, found = some probe → CurrentAt key.1 version probe.status probe.value w

theorem dropped_leads (key : String × String) (version : Option Int) :
    Leads i (Memory.Kept frame) (do
      modify fun m => { m with vc := { m.vc with values := m.vc.values.erase key } }
      return none) (Found key version frame) := by
  refine Discipline.Contract.bind (Q := fun _ => Memory.Kept frame) (Discipline.Contract.modify fun m x hx => ?_) fun _ => ?_
  · refine hx.of_same rfl rfl fun key' hit hhit => ?_
    rw [Dict.get_erase] at hhit
    split at hhit
    · cases hhit
    · exact hhit
  · exact Discipline.Contract.pure fun m x hx => ⟨hx, fun probe hprobe => by cases hprobe⟩

theorem remembered_leads (hframe : Persists frame) (pr : Process) (key : String × String) (version : Option Int) :
    Leads i (Memory.Kept frame) (remembered pr key version) (Found key version frame) := by
  refine Discipline.Contract.bind (Q := fun seen m x => m.Kept (fun x => frame x ∧ ∀ hit, seen.vc.values.get key = some hit →
    x.Current key.1 hit.tagged hit.probe.status hit.probe.value) x) (Discipline.Contract.get fun m x hx =>
      ⟨hx.available, hx.noted, hx.cached, hx.frame, hx.cached key⟩) fun seen => ?_
  have hframe' : Persists fun x : World ι => frame x ∧ ∀ hit, seen.vc.values.get key = some hit →
      x.Current key.1 hit.tagged hit.probe.status hit.probe.value :=
    fun x y hxy hx => ⟨hframe x y hxy hx.1, fun hit hhit => current_persists _ _ _ _ x y hxy (hx.2 hit hhit)⟩
  have hnothing : Leads i (Memory.Kept fun x => frame x ∧ ∀ hit, seen.vc.values.get key = some hit →
      x.Current key.1 hit.tagged hit.probe.status hit.probe.value) (pure none) (Found key version frame) :=
    Discipline.Contract.pure fun m x hx => ⟨hx.unframed, fun probe hprobe => by cases hprobe⟩
  cases version with
  | none => exact hnothing
  | some v =>
    cases hhit : seen.vc.values.get key with
    | none =>
      rw [hhit] at hnothing
      exact hnothing
    | some hit =>
      rw [hhit] at hframe'
      have hkept : Leads i (Memory.Kept frame) _ _ := dropped_leads key (some v)
      have hdropped := hkept.imp
        (fun m x (hx : m.Kept (fun x => frame x ∧ ∀ hit', some hit = some hit' →
          x.Current key.1 hit'.tagged hit'.probe.status hit'.probe.value) x) => hx.unframed) fun _ _ _ h => h
      refine ite_leads (fun htagged => ?_) fun _ => hdropped
      refine Discipline.Contract.bind (keeps_quiet hframe' rfl) fun now => ?_
      refine ite_leads (fun _ => ?_) fun _ => hdropped
      refine Discipline.Contract.bind (keeps_quiet hframe' rfl) fun _ => ?_
      refine Discipline.Contract.pure fun m x hx => ⟨hx.unframed, fun probe hprobe v' hv' => ?_⟩
      obtain rfl := Option.some.inj hprobe
      obtain rfl := Option.some.inj hv'
      rw [← htagged]
      exact hx.frame.2 hit rfl

theorem remember_leads (hframe : Persists frame) (key : String × String) (version : Option Int) (probe : Probe) :
    Leads i (Memory.Kept fun x => frame x ∧ CurrentAt key.1 version probe.status probe.value x) (remember key version probe)
      fun _ => Memory.Kept fun x => frame x ∧ CurrentAt key.1 version probe.status probe.value x := by
  have hframe' : Persists fun x : World ι => frame x ∧ CurrentAt key.1 version probe.status probe.value x :=
    fun x y hxy hx => ⟨hframe x y hxy hx.1, currentAt_persists _ _ _ _ x y hxy hx.2⟩
  cases version with
  | none => exact keeps_pure ()
  | some v =>
    refine ite_leads (fun _ => keeps_pure ()) fun _ => ?_
    refine keeps_bind keeps_get fun seen => ite_leads (fun _ => keeps_pure ()) fun _ => ?_
    refine keeps_bind (keeps_quiet hframe' rfl) fun now => ?_
    refine Discipline.Contract.modify fun m x hx => ⟨hx.available, hx.noted, fun key' hit hhit => ?_, hx.frame⟩
    dsimp only at hhit
    rw [Dict.get_set] at hhit
    split at hhit
    · rename_i hkey
      obtain rfl := Option.some.inj hhit
      rw [← hkey]
      exact hx.frame.2 v rfl
    · split at hhit
      · rw [Dict.get_empty] at hhit
        cases hhit
      · exact hx.cached key' hit hhit

/-! The ladder. -/

theorem probeRedisValue_leads (hframe : Persists frame) (pr : Process) (envName : String) (version : Option Int) :
    Leads i (Memory.Kept fun x => frame x ∧ Reached version x) (probeRedisValue pr envName)
      fun r => Memory.Kept fun x => frame x ∧ CurrentAt envName version r.1 r.2.1 x := by
  refine Discipline.Contract.bind (ensureConnection_leads pr fun m x hx => hx.available) fun connected => ?_
  refine Discipline.Contract.assume (fun m x hx => hx.1) fun hconnected => ?_
  subst hconnected
  refine Discipline.Contract.bind (leads_quiet (s := .redisGet envName) rfl (Q := fun r m x => (∃ found stamp, r = Answer.ok (found, stamp)) ∧
    ∀ found stamp, r = Answer.ok (found, stamp) → m.Kept (fun x => frame x ∧ CurrentAt envName version (readOf found).1 (readOf found).2 x) x)
    (fun r m x y hxy hx => ⟨hx.1, fun found stamp hr => ?_⟩) fun m x hx hP => ?_) fun r => ?_
  · exact kept_persists (fun x y hxy hx => ⟨hframe x y hxy hx.1, currentAt_persists _ _ _ _ x y hxy hx.2⟩) m x y hxy (hx.2 found stamp hr)
  · have hreply : (World.exec i (.redisGet envName) x).1 = .ok ((x.redis envName).map Prod.fst, x.stampOf envName) := by
      rw [World.exec, if_pos hx.redisUp]
    refine ⟨⟨_, _, hreply⟩, fun found stamp hr => ?_⟩
    rw [hreply] at hr
    obtain ⟨rfl, -⟩ : (x.redis envName).map Prod.fst = found ∧ x.stampOf envName = stamp := by simpa using hr
    obtain ⟨-, hkept⟩ := hP
    exact ⟨hkept.available, hkept.noted, hkept.cached, hkept.frame.1, fun v hv => hx.current (hkept.frame.2 v hv)⟩
  · refine Discipline.Contract.assume (fun m x hx => hx.1) fun hfound => ?_
    obtain ⟨found, stamp, rfl⟩ := hfound
    cases found with
    | none => exact Discipline.Contract.pure fun m x hx => hx.2 none stamp rfl
    | some payload =>
      dsimp only
      cases hvalue : Json.lookup "value" payload with
      | none =>
        refine Discipline.Contract.pure fun m x hx => ?_
        have hkept := hx.2 (some payload) stamp rfl
        rwa [readOf, hvalue] at hkept
      | some value =>
        refine Discipline.Contract.pure fun m x hx => ?_
        have hkept := hx.2 (some payload) stamp rfl
        rwa [readOf, hvalue] at hkept

theorem dbMissRecent_keeps (hframe : Persists frame) (pr : Process) (envName : String) : Keeps i frame (dbMissRecent pr envName) := by
  refine keeps_bind keeps_get fun seen => ?_
  cases seen.dbMissAt.get envName with
  | none => exact keeps_pure _
  | some since =>
    refine keeps_bind (keeps_quiet hframe rfl) fun now => keeps_ite ?_ (keeps_pure _)
    exact keeps_bind (keeps_quiet hframe rfl) fun _ => keeps_pure _

theorem isDbAvailable_keeps (hframe : Persists frame) (db : Option DbKind) : Keeps i frame (isDbAvailable db) := by
  cases db with
  | none => exact keeps_pure _
  | some kind => exact keeps_quiet hframe rfl

theorem executeQueryOne_keeps (hframe : Persists frame) (column : Column) (key : String) : Keeps i frame (executeQueryOne column key) := by
  refine keeps_bind (keeps_quiet hframe rfl) fun r => ?_
  cases r with
  | failed => exact keeps_pure _
  | ok row => exact keeps_pure _

theorem firstRow_keeps (hframe : Persists frame) (queries : List (Column × String)) : Keeps i frame (firstRow queries) := by
  induction queries with
  | nil => exact keeps_pure _
  | cons query queries ih =>
    refine keeps_bind (executeQueryOne_keeps hframe _ _) fun row => ?_
    cases row with
    | none => exact ih
    | some row => exact keeps_pure _

theorem probeDbRow_keeps (hframe : Persists frame) (pr : Process) (envName configPath : String) :
    Keeps i frame (probeDbRow pr envName configPath) := by
  refine keeps_ite (keeps_pure _) (keeps_bind (isDbAvailable_keeps hframe _) fun available => keeps_ite (keeps_pure _) ?_)
  refine keeps_bind (firstRow_keeps hframe _) fun row => ?_
  cases row with
  | none => exact keeps_pure _
  | some row => exact keeps_pure _

theorem rememberDbMiss_keeps (hframe : Persists frame) (envName : String) (missing : Bool) : Keeps i frame (rememberDbMiss envName missing) :=
  keeps_ite (keeps_modify (fun _ => rfl) fun _ => rfl)
    (keeps_bind (keeps_quiet hframe rfl) fun _ => keeps_modify (fun _ => rfl) fun _ => rfl)

/-- A set of Redis, that sets no key back. -/
theorem redisSet_leads (hframe : Persists frame) {payload : Fields} {restored : Bool}
    (hvalue : restored = false → (Json.lookup "value" payload).isSome) :
    Leads i (Memory.Kept frame) (ask (.redisSet envName payload restored)) fun r m x =>
      ∃ stamp, r = Answer.ok stamp ∧ (restored = false → 1 ≤ stamp) ∧ m.Kept (fun x => frame x ∧ stamp ≤ x.stampOf envName) x := by
  have hstamped (stamp : Nat) : Persists fun x : World ι => frame x ∧ stamp ≤ x.stampOf envName :=
    fun x y hxy hx => ⟨hframe x y hxy hx.1, stamped_persists envName stamp x y hxy hx.2⟩
  refine Discipline.Contract.ask (fun m x hx hP hold => ?_) fun r m => ?_
  · have hexec : World.exec i (.redisSet envName payload restored) x =
        (.ok (if restored then 0 else x.writes.length + 1), x.set i envName payload restored) := by
      rw [World.exec, if_pos hx.redisUp]
    rw [hexec] at hold ⊢
    have hadvances := World.set_advances hold
    have hkept := kept_persists hframe m x _ hadvances hP
    have hstamp : (if restored then 0 else x.writes.length + 1) ≤ (x.set i envName payload restored).stampOf envName := by
      cases restored with
      | true => exact Nat.zero_le _
      | false => simp [World.stampOf, World.set]
    refine ⟨World.Sound.set hx hvalue hold, hadvances, _, rfl, fun hset => ?_, hkept.available, hkept.noted, hkept.cached, hkept.frame, hstamp⟩
    rw [hset]
    exact Nat.le_add_left 1 _
  · refine Persists.lasting fun x y hxy hx => ?_
    obtain ⟨stamp, hr, hpos, hkept⟩ := hx
    exact ⟨stamp, hr, hpos, kept_persists (hstamped stamp) m x y hxy hkept⟩

theorem restoreToRedis_keeps (hframe : Persists frame) (row : DbRow) : Keeps i frame (restoreToRedis row) := by
  refine keeps_bind keeps_get fun seen => keeps_ite (keeps_pure _) (keeps_ite (keeps_pure _) ?_)
  refine keeps_bind ((redisSet_leads hframe (fun h => by cases h)).imp (fun _ _ h => h) fun _ _ _ ⟨_, _, _, h⟩ => h.unframed) fun r => ?_
  cases r with
  | failed => exact keeps_pure _
  | ok stamp => exact keeps_bind (keeps_quiet hframe rfl) fun _ => keeps_pure _

/-- What `_probe_value_uncached` returns is as new as any version that was reached when it began. -/
theorem probeValueUncached_leads (hframe : Persists frame) (pr : Process) (envName configPath : String) (version : Option Int) :
    Leads i (Memory.Kept fun x => frame x ∧ Reached version x) (probeValueUncached pr envName configPath)
      fun probe => Memory.Kept fun x => frame x ∧ CurrentAt envName version probe.status probe.value x := by
  refine Discipline.Contract.bind (probeRedisValue_leads hframe pr envName version) fun ⟨redisStatus, value, stamp⟩ => ?_
  have hread : Persists fun x : World ι => frame x ∧ CurrentAt envName version redisStatus value x :=
    fun x y hxy hx => ⟨hframe x y hxy hx.1, currentAt_persists _ _ _ _ x y hxy hx.2⟩
  refine ite_leads (fun hok => ?_) fun hstatus => ?_
  · subst hok
    exact Discipline.Contract.pure fun m x hx => hx
  · have hreturned (probe : Probe) : Leads i (Memory.Kept fun x => frame x ∧ CurrentAt envName version redisStatus value x)
        (pure probe : Call Probe) fun probe => Memory.Kept fun x => frame x ∧ CurrentAt envName version probe.status probe.value x :=
      Discipline.Contract.pure fun m x hx => ⟨hx.available, hx.noted, hx.cached, hx.frame.1, fun v hv => (hx.frame.2 v hv).of_missing hstatus⟩
    refine Discipline.Contract.bind (dbMissRecent_keeps hread pr envName) fun recent => ite_leads (fun _ => hreturned _) fun _ => ?_
    refine Discipline.Contract.bind (probeDbRow_keeps hread pr envName configPath) fun ⟨dbStatus, row⟩ => ?_
    refine Discipline.Contract.bind (rememberDbMiss_keeps hread envName _) fun _ => ?_
    cases dbStatus with
    | missing => exact hreturned _
    | error => exact hreturned _
    | ok =>
      cases row with
      | none => exact hreturned _
      | some row =>
        refine ite_leads (fun _ => ?_) fun _ => hreturned _
        exact Discipline.Contract.bind (restoreToRedis_keeps hread row) fun _ => hreturned _

/-- What `probe_value` returns is as new as the version that was noted when it began. -/
theorem probeValue_leads (hframe : Persists frame) (pr : Process) (envName configPath : String) :
    Leads i (fun m x => m.Kept frame x ∧ m.vc.version = noted) (probeValue pr envName configPath)
      fun probe => Memory.Kept fun x => frame x ∧ CurrentAt envName noted probe.status probe.value x := by
  refine ite_leads (fun _ => ?_) fun _ => ?_
  · refine (probeValueUncached_leads hframe pr envName configPath noted).imp (fun m x hx => ?_) fun _ _ _ h => h
    obtain ⟨hkept, rfl⟩ := hx
    exact ⟨hkept.available, hkept.noted, hkept.cached, hkept.frame, hkept.noted⟩
  · refine Discipline.Contract.bind (knownVersion_leads hframe pr) fun version => ?_
    refine Discipline.Contract.assume (fun m x hx => hx.2) fun hlater => ?_
    have hweaken {status : Status} {value : Json} {m : Memory} {x : World ι}
        (h : m.Kept (fun x => frame x ∧ CurrentAt envName version status value x) x) :
        m.Kept (fun x => frame x ∧ CurrentAt envName noted status value x) x := by
      refine ⟨h.available, h.noted, h.cached, h.frame.1, fun n hn => ?_⟩
      obtain ⟨v, hv, hle⟩ := hlater n hn
      exact (h.frame.2 v hv).weaken hle
    have hreached : Persists fun x : World ι => frame x ∧ Reached version x :=
      fun x y hxy hx => ⟨hframe x y hxy hx.1, reachedAt_persists _ x y hxy hx.2⟩
    refine Discipline.Contract.bind ((remembered_leads hreached pr (envName, configPath) version).imp (fun m x hx => hx.1) fun _ _ _ h => h)
      fun found => ?_
    cases found with
    | some probe =>
      exact Discipline.Contract.pure fun m x hx =>
        hweaken ⟨hx.1.available, hx.1.noted, hx.1.cached, hx.1.frame.1, hx.2 probe rfl⟩
    | none =>
      refine Discipline.Contract.bind ((probeValueUncached_leads hframe pr envName configPath version).imp (fun m x hx => hx.1)
        fun _ _ _ h => h) fun probe => ?_
      refine Discipline.Contract.bind (remember_leads hframe (envName, configPath) version probe) fun _ => ?_
      exact Discipline.Contract.pure fun m x hx => hweaken hx

/-! Saving. -/

theorem redisAdd_leads (hframe : Persists frame) (category : String) :
    Leads i (Memory.Kept frame) (ask (.redisAdd category envName)) fun r m x => r = Answer.ok () ∧ m.Kept frame x :=
  leads_quiet rfl (fun _ m x y hxy hx => ⟨hx.1, kept_persists hframe m x y hxy hx.2⟩) fun _ _ hx hkept => ⟨if_pos hx.redisUp, hkept⟩

theorem redisIncr_keeps (hframe : Persists frame) {stamp : Nat} (hpos : 1 ≤ stamp) :
    Keeps i (fun x => frame x ∧ stamp ≤ x.stampOf envName) (ask (.redisIncr envName stamp)) := by
  have hframe' : Persists fun x : World ι => frame x ∧ stamp ≤ x.stampOf envName :=
    fun x y hxy hx => ⟨hframe x y hxy hx.1, stamped_persists envName stamp x y hxy hx.2⟩
  refine Discipline.Contract.ask (fun m x hx hP _ => ?_) fun r m => (kept_persists hframe' m).lasting
  have hexec : World.exec i (.redisIncr envName stamp) x =
      (.ok (x.nextVersion, (x.incr envName stamp).counts), x.incr envName stamp) := by
    rw [World.exec, if_pos hx.redisUp]
  rw [hexec]
  have hadvances := World.Sound.incr_advances hx envName stamp
  exact ⟨World.Sound.incr hx hpos hP.frame.2, hadvances, kept_persists hframe' m x _ hadvances hP⟩

theorem saveToRedis_keeps (hframe : Persists frame) (pr : Process) {payload : Fields} (hvalue : (Json.lookup "value" payload).isSome)
    (envName category : String) : Keeps i frame (saveToRedis pr envName payload category) := by
  refine keeps_bind (keeps_modify (fun _ => rfl) fun _ => rfl) fun _ => ?_
  refine Discipline.Contract.bind (ensureConnection_leads pr fun m x hx => hx.available) fun connected => ?_
  refine Discipline.Contract.assume (fun m x hx => hx.1) fun hconnected => ?_
  subst hconnected
  refine Discipline.Contract.bind ((redisSet_leads hframe fun _ => hvalue).imp (fun m x hx => hx.2) fun _ _ _ h => h) fun r => ?_
  refine Discipline.Contract.assume (p := ∃ stamp, r = Answer.ok stamp ∧ 1 ≤ stamp)
    (fun m x ⟨stamp, hr, hpos, _⟩ => ⟨stamp, hr, hpos rfl⟩) fun ⟨stamp, hr, hpos⟩ => ?_
  subst hr
  have hstamped : Persists fun x : World ι => frame x ∧ stamp ≤ x.stampOf envName :=
    fun x y hxy hx => ⟨hframe x y hxy hx.1, stamped_persists envName stamp x y hxy hx.2⟩
  refine Discipline.Contract.bind (Q := fun _ => Memory.Kept fun x => frame x ∧ stamp ≤ x.stampOf envName)
    (Discipline.Contract.modify fun m x ⟨stamp', hr, _, hkept⟩ => ?_) fun _ => ?_
  · obtain rfl : stamp = stamp' := by simpa using hr
    exact hkept.of_same rfl rfl fun _ _ hhit => hhit
  refine Discipline.Contract.bind (redisAdd_leads hstamped category) fun added => ?_
  refine Discipline.Contract.assume (fun m x hx => hx.1) fun hadded => ?_
  subst hadded
  refine Discipline.Contract.bind ((redisIncr_keeps hframe hpos).imp (fun m x hx => hx.2) fun _ _ _ h => h.unframed) fun counted => ?_
  cases counted with
  | failed => exact keeps_pure _
  | ok answer => exact keeps_bind (keeps_modify (fun _ => rfl) fun _ => rfl) fun _ => keeps_pure _

theorem forgetCachedValues_keeps : Keeps i frame forgetCachedValues :=
  Discipline.Contract.modify fun m x hx => hx.of_same rfl rfl fun key hit hhit => by
    rw [Dict.get_empty] at hhit
    cases hhit

theorem saveToDb_keeps (hframe : Persists frame) (pr : Process) (configPath : String) (value : Json) (dataType envName : String) :
    Keeps i frame (saveToDb pr configPath value dataType envName) := by
  unfold saveToDb
  split
  · exact keeps_pure _
  · refine keeps_bind (executeQueryOne_keeps hframe _ _) fun found => ?_
    cases found with
    | some row =>
      refine keeps_bind (keeps_quiet hframe rfl) fun r => ?_
      cases r with
      | failed => exact keeps_pure _
      | ok count => exact keeps_pure _
    | none =>
      refine keeps_bind (keeps_quiet hframe rfl) fun r => ?_
      cases r with
      | failed => exact keeps_pure _
      | ok done => exact keeps_pure _
  · refine keeps_bind (isDbAvailable_keeps hframe _) fun available => keeps_ite (keeps_pure _) ?_
    refine keeps_bind (isDbAvailable_keeps hframe _) fun available' => keeps_ite (keeps_pure _) ?_
    exact keeps_bind (keeps_quiet hframe rfl) fun _ => keeps_pure _

theorem setConfig_keeps (hframe : Persists frame) (pr : Process) (configPath : String) (configValue : Json)
    (dataType category envName : String) : Keeps i frame (setConfig pr configPath configValue dataType category envName) := by
  refine keeps_bind (saveToRedis_keeps hframe pr rfl _ _) fun redisOk => ?_
  refine keeps_bind (rememberDbMiss_keeps hframe _ _) fun _ => keeps_bind forgetCachedValues_keeps fun _ => ?_
  exact keeps_bind (saveToDb_keeps hframe pr _ _ _ _) fun dbOk => keeps_pure _

/-! Runs. -/

theorem probed_leads (envName : String) (probe : Probe) :
    Leads i (Memory.Kept (CurrentAt envName noted probe.status probe.value)) (ask (.note (.probed envName noted probe)))
      fun _ => Memory.Kept fun _ => True := by
  refine Discipline.Contract.ask (fun m x hx hP _ => ?_) fun r m => (kept_persists (fun _ _ _ h => h) m).lasting
  have hadvances := World.record_advances x i (.probed envName noted probe)
  obtain ⟨havailable, hnoted, hcached, -⟩ := kept_persists (currentAt_persists envName noted probe.status probe.value) m x _ hadvances hP
  exact ⟨World.Sound.probed_result (i := i) hx hP.frame, hadvances, havailable, hnoted, hcached, trivial⟩

theorem call_keeps (pr : Process) (op : Op) : Keeps i (fun _ => True) (op.call pr) := by
  cases op with
  | probeValue envName configPath =>
    refine Discipline.Contract.bind (Q := fun seen m x => m.Kept (fun _ => True) x ∧ m.vc.version = seen.vc.version)
      (Discipline.Contract.get fun m x hx => ⟨hx, rfl⟩) fun seen => ?_
    refine Discipline.Contract.bind (probeValue_leads true_persists pr envName configPath) fun probe => ?_
    exact (probed_leads envName probe).imp (fun m x hx => ⟨hx.available, hx.noted, hx.cached, hx.frame.2⟩) fun _ _ _ h => h
  | probeConfigVersion => exact keeps_bind (probeConfigVersion_keeps true_persists pr) fun _ => keeps_pure _
  | getConfigVersion => exact keeps_bind (getConfigVersion_keeps true_persists pr) fun _ => keeps_pure _
  | setConfig configPath configValue dataType category envName =>
    refine keeps_bind (keeps_quiet true_persists rfl) fun _ => ?_
    exact keeps_bind (setConfig_keeps true_persists pr _ _ _ _ _) fun _ => keeps_quiet true_persists rfl

theorem runOps_keeps (pr : Process) (ops : List Op) : Keeps i (fun _ => True) (runOps pr ops) := by
  induction ops with
  | nil => exact keeps_pure _
  | cons op ops ih => exact keeps_bind (call_keeps pr op) fun _ => ih

theorem start_holds (pr : ι → Process) (ops : ι → List Op) (h : w.Untouched) : discipline.Holds World.exec World.tick (start pr ops w) := by
  refine ⟨h.sound, fun i => ⟨freshMemory.Kept fun _ => True, ⟨rfl, fun n hn => (by cases hn), fun key hit hhit => ?_, trivial⟩,
    (kept_persists true_persists _).lasting _, (runOps_keeps (pr i) (ops i)).outline freshMemory []⟩⟩
  have hempty : (Dict.empty : Dict (String × String) Cached).get key = some hit := hhit
  rw [Dict.get_empty] at hempty
  cases hempty

theorem exec_notOlder (h : w.Sound) {s : Stmt} (hrestored : ∀ envName payload, s = .redisSet envName payload true → w.stampOf envName = 0) :
    NotOlder w (World.exec i s w).2 := by
  cases s with
  | redisSet envName payload restored =>
    rw [World.exec, if_pos h.redisUp]
    intro name
    by_cases hname : name = envName
    · subst hname
      cases restored with
      | true => exact (hrestored name payload rfl).le.trans (Nat.zero_le _)
      | false =>
        refine (h.stampOf_le name).trans ?_
        simp [World.stampOf, World.set]
    · cases restored <;> simp [World.stampOf, World.set, Function.update_of_ne hname]
  | redisIncr envName stamp =>
    rw [World.exec, if_pos h.redisUp]
    exact fun _ => le_rfl
  | note n => exact (World.record_advances w i n).stamps
  | _ => exact (exec_quiet i rfl w).notOlder

theorem restoresInTime_fair {c : State ι} {move : Move ι Nat} (hsound : c.shared.Sound) (h : RestoresInTime c move) :
    discipline.Fair World.exec World.tick c move := by
  refine ⟨?_, fun _ _ => trivial⟩
  cases move with
  | env n => exact fun _ => le_rfl
  | issue i =>
    cases hrest : (c.threads i).rest with
    | done a =>
      have hmove : c.move World.exec World.tick (.issue i) = c := by simp only [Interleave.Config.move, hrest]
      rw [hmove]
      exact fun _ => le_rfl
    | raise e => exact e.elim
    | act s next =>
      have hmove : (c.move World.exec World.tick (.issue i)).shared = (World.exec i s c.shared).2 := by
        simp only [Interleave.Config.move, hrest]
      rw [hmove]
      refine exec_notOlder hsound fun envName payload hs => ?_
      subst hs
      simp only [RestoresInTime, hrest] at h
      exact h

/-- A result is no older than a write that its manager had noted the count of when the call began. -/
def NothingOlder (w : World ι) : Prop :=
  ∀ p ∈ w.probed, ∀ c ∈ w.counted, c.envName = p.envName → ∀ n, p.noted = some n → c.version ≤ n →
    p.probe.status = .ok ∧ w.AsNew p.envName p.probe.value c

theorem nothing_older (pr : ι → Process) (ops : ι → List Op) (h : w.Untouched) {moves : List (Move ι Nat)}
    (hlegal : Legal World.exec World.tick RestoresInTime (start pr ops w) moves) :
    NothingOlder (play World.exec World.tick (start pr ops w) moves).shared := by
  have hend := (start_holds pr ops h).play_allowed (fun x n hx hok => ?_) (fun c m => restoresInTime_fair) hlegal
  · intro p hp c hc hname n hn hversion
    exact (hend.1.probed p hp n hn).asNew c hc hname hversion
  · exact World.SameRedis.sound (x := x) ⟨rfl, rfl, rfl, rfl, rfl, rfl⟩ hx

end Threads

/-! A restored row lands on a newer write. -/

/-- The reader finds the key in the table only, and is slow to restore it. -/
def slowReader : List Op := [.probeValue "THEME" "app.theme", .probeConfigVersion, .probeValue "THEME" "app.theme"]

def themeWriter : List Op := [.setConfig "app.theme" (.str "dark") "string" "app" "THEME"]

def flushed : World Bool where
  now := 100
  redisUp := true
  dbUp := true
  redis _ := none
  version := some 4
  rows := [(⟨"app.theme", some "light", "string", "THEME"⟩, 0)]
  writes := []
  counted := []
  probed := []
  ended := []
  began _ := none
  lastWrite _ := 0
  unsaved _ := false

/-- The reader is `false`. It reads, the writer writes, and the reader restores what it read and reads again. -/
def overtaken : List (Move Bool Nat) :=
  List.replicate 6 (.issue false) ++ List.replicate 8 (.issue true) ++ List.replicate 10 (.issue false)

def overtakenEnd : World Bool :=
  (play World.exec World.tick (start (fun _ => poolProcess) (fun i => if i then themeWriter else slowReader) flushed) overtaken).shared

theorem flushed_untouched : flushed.Untouched := ⟨rfl, rfl, fun _ => rfl, rfl, rfl, rfl⟩

def lateProbe : Probed := ⟨"THEME", some 5, ⟨.ok, .str "light", .redis, 0⟩⟩

theorem overtaken_probed : overtakenEnd.probed = [lateProbe, ⟨"THEME", none, ⟨.ok, .str "light", .db, 0⟩⟩] := by rfl

theorem overtaken_counted : overtakenEnd.counted = [⟨"THEME", 1, 5⟩] := by rfl

theorem overtaken_writes : overtakenEnd.writes = [⟨"THEME", payloadOf (.str "dark") "string" "app" "app.theme" "THEME", []⟩] := by rfl

/-- The reader restores what it read before the writer writes. -/
def restoredFirst : List (Move Bool Nat) :=
  List.replicate 10 (.issue false) ++ List.replicate 8 (.issue true) ++ List.replicate 6 (.issue false)

theorem nothing_older_first : NothingOlder (play World.exec World.tick
    (start (fun _ => poolProcess) (fun i => if i then themeWriter else slowReader) flushed) restoredFirst).shared :=
  nothing_older _ _ flushed_untouched ⟨trivial, trivial, trivial, trivial, trivial, trivial, rfl, trivial, trivial, trivial, trivial, trivial, trivial, trivial, trivial, trivial, trivial, trivial, trivial, trivial, trivial, trivial, trivial, trivial, trivial⟩

theorem older_value_returned : ¬ ∀ (pr : Bool → Process) (ops : Bool → List Op) (w : World Bool) (moves : List (Move Bool Nat)),
    w.Untouched → NothingOlder (play World.exec World.tick (start pr ops w) moves).shared := by
  intro h
  have hnothing : NothingOlder overtakenEnd := h _ _ _ overtaken flushed_untouched
  have hlate := hnothing lateProbe (by rw [overtaken_probed]; exact List.mem_cons_self) ⟨"THEME", 1, 5⟩
    (by rw [overtaken_counted]; exact List.mem_cons_self) rfl 5 rfl le_rfl
  obtain ⟨-, n, write, -, hwrite, -, hvalue⟩ := hlate
  rw [overtaken_writes] at hwrite
  obtain rfl := List.mem_singleton.mp (List.mem_of_getElem? hwrite)
  have hsame : some (Json.str "dark") = some (Json.str "light") := hvalue
  exact absurd (Json.str.inj (Option.some.inj hsame)) (by decide)

end XgenSdk.Config
