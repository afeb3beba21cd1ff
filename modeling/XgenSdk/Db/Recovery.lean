import XgenSdk.Db.Pool
import XgenSdk.Lib.Locks
import XgenSdk.Lib.Runs

/-! The locks of the pool manager: connecting, recovering and disconnecting on one thread. -/
namespace XgenSdk.Recovery
open XgenSdk.AppDb (DbType)
open XgenSdk.Pool (Kind)
open XgenSdk.Locks

/-- `_pool_lock`, `_recovery_lock` and `_sqlite_lock`. -/
inductive Lock where
  | pool | recovery | sqlite
  deriving DecidableEq, Repr

/-- What something outside the manager does: it raises, or gives a truth value. -/
structure Answer where
  raises : Option Kind
  yes : Bool

/-- Whether `_pool`, `_loop_pool` and `_sqlite_connection` are not `None`, and what the outside will answer. -/
structure Manager where
  answers : Nat → Answer
  now : Nat
  dbType : Option DbType
  pool : Bool
  loopPool : Bool
  loopReserve : Nat
  sqliteConnection : Bool
  recovering : Bool

abbrev Action (α : Type) := Locking Manager Lock Kind α

open Locking (raise read write handle ensuring withLock acquire release)

/-- A call of the pool, the driver, the configuration or the file system. -/
def outside : Action Bool := do
  let s ← read
  write fun s => { s with now := s.now + 1 }
  match (s.answers s.now).raises with
  | some k => raise k
  | none => pure (s.answers s.now).yes

/-- `try: … except Exception: pass`. -/
def ignoring (m : Action Unit) : Action Unit := handle m fun _ => pure ()

/-- `try: … except Exception: return False`. -/
def orFalse (m : Action Bool) : Action Bool := handle m fun _ => pure false

def closing : Action Unit := ignoring (do let _ ← outside)

def closeLoopPool : Action Unit := do
  let s ← read
  write fun s => { s with loopPool := false }
  if s.loopPool then closing

def openLoopPool : Action Unit := do
  let s ← read
  if 0 < s.loopReserve then
    handle (do let _ ← outside; write fun s => { s with loopPool := true }) fun _ => write fun s => { s with loopPool := false }

/-- The conninfo, the pool, and the wait for its connections. -/
def connectPostgresqlPool : Action Bool := orFalse (withLock .pool do
  let s ← read
  if s.pool then closing
  closeLoopPool
  let _ ← outside
  let _ ← outside
  write fun s => { s with pool := true }
  let _ ← outside
  openLoopPool
  pure true)

def connectSqlite : Action Bool := orFalse do
  let _ ← outside
  let _ ← outside
  write fun s => { s with sqliteConnection := true }
  pure true

/-- `determine_database_type`. -/
def determineDatabaseType : Action DbType := do
  let yes ← outside
  pure (if yes then .postgresql else .sqlite)

def connect : Action Bool := orFalse do
  let dbType ← determineDatabaseType
  write fun s => { s with dbType := some dbType }
  match dbType with
  | .postgresql => connectPostgresqlPool
  | .sqlite => connectSqlite

/-- Both pools drop their connections. -/
def drainPools : Action Bool := do
  let _ ← outside
  let s ← read
  if s.loopPool then do let _ ← outside
  pure true

def reconnectPool : Action Bool := do
  let s ← read
  if s.pool then drainPools else connectPostgresqlPool

def reconnect : Action Bool := orFalse do
  let s ← read
  match s.dbType with
  | some .postgresql => withLock .pool reconnectPool
  | some .sqlite => withLock .sqlite do
    let s ← read
    if s.sqliteConnection then do
      closing
      write fun s => { s with sqliteConnection := false }
    connectSqlite
  | none => pure false

def isPoolHealthy : Action Bool := do
  let s ← read
  if s.dbType ≠ some .postgresql then pure s.sqliteConnection
  else if !s.pool then pure false
  else orFalse outside

/-- The pools are closed and forgotten. -/
def dropPool : Action Unit := do
  let s ← read
  if s.pool then do
    closing
    write fun s => { s with pool := false }
  closeLoopPool

/-- The recovery itself, once `_recovering` is set. -/
def recoverConnection : Action Bool := orFalse do
  let s ← read
  match s.dbType with
  | some .postgresql => do
    withLock .pool dropPool
    connectPostgresqlPool
  | some .sqlite => connectSqlite
  | none => pure false

def tryRecoverConnection : Action Bool := do
  let early ← withLock .recovery do
    let s ← read
    if s.recovering then some <$> isPoolHealthy
    else do
      write fun s => { s with recovering := true }
      pure none
  match early with
  | some healthy => pure healthy
  | none => ensuring recoverConnection (withLock .recovery (write fun s => { s with recovering := false }))

/-- `_pick_pool`, and a connection of the pool that it gives. -/
def poolConnection : Action Unit := do
  let s ← read
  let onEventLoopThread ← outside
  if s.loopPool && onEventLoopThread || s.pool then do let _ ← outside
  else raise .other

/-- What is there, or what recovery brings, if it may. -/
def usable (there autoRecover : Bool) (recover : Action Bool) : Action Bool :=
  if there then pure true else if autoRecover then recover else pure false

/-- `SELECT 1`. -/
def selectOne : Action Bool := outside

def healthProbe (autoRecover : Bool) : Action Bool := do
  let s ← read
  match s.dbType with
  | some .postgresql => do
    let healthy ← isPoolHealthy
    if ← usable healthy autoRecover tryRecoverConnection then do
      poolConnection
      selectOne
    else pure false
  | some .sqlite => do
    if ← usable s.sqliteConnection autoRecover connectSqlite then selectOne else pure false
  | none => pure false

/-- `health_check`; the check after a recovery does not recover again. -/
def healthCheck (autoRecover : Bool) : Action Bool :=
  handle (healthProbe autoRecover) fun _ => do
    if autoRecover then
      if ← tryRecoverConnection then orFalse (healthProbe false) else pure false
    else pure false

/-- A `with` block of `get_connection` that is not left yet. `retries`: a connection error in it is caught. -/
inductive Context where
  | postgresql (retries : Bool)
  | sqlite
  deriving DecidableEq, Repr

/-- Except-clause of a connection error: recover, and take a second connection. -/
def secondConnection (autoRecover : Bool) (k : Kind) : Action Unit := do
  if autoRecover && (k = .operational || k = .interface) then
    if ← tryRecoverConnection then poolConnection else raise k
  else raise k

/-- Whether an exception in the `with` block is caught. -/
def getPostgresqlConnection (autoRecover : Bool) : Action Bool := do
  let healthy ← isPoolHealthy
  if ← usable healthy autoRecover tryRecoverConnection then
    handle (do poolConnection; pure autoRecover) fun k => do
      secondConnection autoRecover k
      pure false
  else raise .other

def sqliteReady (autoRecover : Bool) : Action Unit := do
  let s ← read
  if ← usable s.sqliteConnection autoRecover connectSqlite then pure () else raise .other

def getSqliteConnection (autoRecover : Bool) : Action Unit := do
  acquire .sqlite
  handle (sqliteReady autoRecover) fun k => do
    release .sqlite
    raise k

/-- `get_connection` as far as its `yield`. -/
def getConnection (autoRecover : Bool) : Action Context := do
  let s ← read
  match s.dbType with
  | some .postgresql => do
    let retries ← getPostgresqlConnection autoRecover
    pure (.postgresql retries)
  | some .sqlite => do
    getSqliteConnection autoRecover
    pure .sqlite
  | none => raise .other

/-- The end of the `with` block, where an exception may come out of it. A second `yield` is an error of contextlib. -/
def leave (exception : Option Kind) : Context → Action Unit
  | .postgresql retries =>
    handle (do
      let _ ← outside
      match exception with
      | some k => raise k
      | none => pure ()) fun k => do
        secondConnection retries k
        raise .other
  | .sqlite => do
    release .sqlite
    match exception with
    | some k => raise k
    | none => pure ()

def disconnect : Action Unit := do
  let s ← read
  match s.dbType with
  | some .postgresql => withLock .pool dropPool
  | some .sqlite => withLock .sqlite do
    let s ← read
    if s.sqliteConnection then do
      closing
      write fun s => { s with sqliteConnection := false }
  | none => pure ()

/-! Calls on one thread. -/

inductive Call where
  | connect
  | reconnect
  | healthCheck (autoRecover : Bool)
  | getConnection (autoRecover : Bool)
  | leave (exception : Option Kind)
  | recover
  | disconnect
  deriving DecidableEq, Repr

/-- The thread, and its open `with` blocks, the innermost first. -/
structure Session where
  thread : Thread Manager Lock
  contexts : List Context

/-- A call, with the blocks that are open when it returns and when it does not. -/
def Session.calls {α : Type} (s : Session) (m : Action α) (returned : α → List Context) (otherwise : List Context) :
    Finish Lock Kind Unit × Session :=
  match m.on s.thread with
  | (.returned a, t) => (.returned (), ⟨t, returned a⟩)
  | (.raised k, t) => (.raised k, ⟨t, otherwise⟩)
  | (.stuck l, t) => (.stuck l, ⟨t, otherwise⟩)

def Call.run (s : Session) : Call → Finish Lock Kind Unit × Session
  | connect => s.calls Recovery.connect (fun _ => s.contexts) s.contexts
  | reconnect => s.calls Recovery.reconnect (fun _ => s.contexts) s.contexts
  | healthCheck autoRecover => s.calls (Recovery.healthCheck autoRecover) (fun _ => s.contexts) s.contexts
  | getConnection autoRecover => s.calls (Recovery.getConnection autoRecover) (fun c => c :: s.contexts) s.contexts
  | leave exception => match s.contexts with
    | [] => (.returned (), s)
    | c :: contexts => s.calls (Recovery.leave exception c) (fun _ => contexts) contexts
  | recover => s.calls tryRecoverConnection (fun _ => s.contexts) s.contexts
  | disconnect => s.calls Recovery.disconnect (fun _ => s.contexts) s.contexts

/-- The manager as constructed. -/
def start (answers : Nat → Answer) (loopReserve : Nat) : Session :=
  ⟨⟨⟨answers, 0, none, false, false, loopReserve, false, false⟩, []⟩, []⟩

def Session.next (s : Session) (c : Call) : Session := (c.run s).2

/-- The call does not wait for a lock that its thread holds. -/
def Call.Returns (c : Call) (s : Session) : Prop := ∀ l, (c.run s).1 ≠ .stuck l

/-- No reconnection without a pool, and nothing that needs the SQLite lock in a `with` block that has it. -/
def Call.Unobstructed (c : Call) (s : Session) : Prop :=
  (c = reconnect → s.thread.state.dbType = some .postgresql → s.thread.state.pool = true) ∧
    ((c = reconnect ∨ c = disconnect ∨ ∃ autoRecover, c = getConnection autoRecover) →
      s.thread.state.dbType = some .sqlite → .sqlite ∉ s.contexts)

/-! What is not stuck. -/

section Secure
open Locking
variable {held : List Lock}

theorem secure_outside : Secure held outside := by
  refine safe_bind safe_read fun s => safe_bind (safe_write _) fun _ => ?_
  cases (s.answers s.now).raises with
  | some k => exact safe_raise k
  | none => exact safe_pure _

theorem secure_ignoring {m : Action Unit} (h : Secure held m) : Secure held (ignoring m) := safe_handle h fun _ => safe_pure ()

theorem secure_orFalse {m : Action Bool} (h : Secure held m) : Secure held (orFalse m) := safe_handle h fun _ => safe_pure false

theorem secure_closing : Secure held closing := secure_ignoring (safe_bind secure_outside fun _ => safe_pure ())

theorem secure_closeLoopPool : Secure held closeLoopPool :=
  safe_bind safe_read fun _ => safe_bind (safe_write _) fun _ => safe_ite (fun _ => secure_closing) fun _ => safe_pure ()

theorem secure_openLoopPool : Secure held openLoopPool :=
  safe_bind safe_read fun _ => safe_ite
    (fun _ => safe_handle (safe_bind secure_outside fun _ => safe_write _) fun _ => safe_write _) fun _ => safe_pure ()

theorem secure_connectPostgresqlPool (h : .pool ∉ held) : Secure held connectPostgresqlPool := by
  have hrest : ∀ u : PUnit, Secure (.pool :: held) (do
      closeLoopPool
      let _ ← outside
      let _ ← outside
      write fun s => { s with pool := true }
      let _ ← outside
      openLoopPool
      pure true : Action Bool) := fun _ =>
    safe_bind secure_closeLoopPool fun _ => safe_bind secure_outside fun _ => safe_bind secure_outside fun _ =>
      safe_bind (safe_write _) fun _ => safe_bind secure_outside fun _ => safe_bind secure_openLoopPool fun _ => safe_pure true
  exact secure_orFalse (safe_withLock h (safe_bind safe_read fun _ =>
    safe_ite (fun _ => safe_bind secure_closing hrest) fun _ => hrest ⟨⟩))

theorem secure_connectSqlite : Secure held connectSqlite :=
  secure_orFalse (safe_bind secure_outside fun _ => safe_bind secure_outside fun _ => safe_bind (safe_write _) fun _ => safe_pure true)

theorem secure_determineDatabaseType : Secure held determineDatabaseType := safe_bind secure_outside fun _ => safe_pure _

theorem secure_connect (h : .pool ∉ held) : Secure held connect := by
  refine secure_orFalse (safe_bind secure_determineDatabaseType fun db => safe_bind (safe_write _) fun _ => ?_)
  cases db with
  | postgresql => exact secure_connectPostgresqlPool h
  | sqlite => exact secure_connectSqlite

theorem secure_isPoolHealthy : Secure held isPoolHealthy :=
  safe_bind safe_read fun _ => safe_ite (fun _ => safe_pure _) fun _ => safe_ite (fun _ => safe_pure false) fun _ =>
    secure_orFalse secure_outside

theorem secure_dropPool : Secure held dropPool :=
  safe_bind safe_read fun _ => safe_ite
    (fun _ => safe_bind secure_closing fun _ => safe_bind (safe_write _) fun _ => secure_closeLoopPool) fun _ => secure_closeLoopPool

theorem secure_recoverConnection (h : .pool ∉ held) : Secure held recoverConnection := by
  refine secure_orFalse (safe_bind safe_read fun s => ?_)
  cases s.dbType with
  | none => exact safe_pure false
  | some db =>
    cases db with
    | postgresql => exact safe_bind (safe_withLock h secure_dropPool) fun _ => secure_connectPostgresqlPool h
    | sqlite => exact secure_connectSqlite

/-- Recovery takes its two locks one after the other. -/
theorem secure_tryRecoverConnection (hpool : .pool ∉ held) (hrecovery : .recovery ∉ held) : Secure held tryRecoverConnection := by
  refine safe_bind (safe_withLock hrecovery (safe_bind safe_read fun s => safe_ite (fun _ => ?_) fun _ => ?_)) fun early => ?_
  · exact safe_bind secure_isPoolHealthy fun _ => safe_pure _
  · exact safe_bind (safe_write _) fun _ => safe_pure none
  · cases early with
    | some healthy => exact safe_pure healthy
    | none => exact safe_ensuring (secure_recoverConnection hpool) (safe_withLock hrecovery (safe_write _))

theorem secure_poolConnection : Secure held poolConnection :=
  safe_bind safe_read fun _ => safe_bind secure_outside fun _ =>
    safe_ite (fun _ => safe_bind secure_outside fun _ => safe_pure ()) fun _ => safe_raise _

theorem secure_usable {m : Action Bool} (h : Secure held m) (there autoRecover : Bool) : Secure held (usable there autoRecover m) :=
  safe_ite (fun _ => safe_pure true) fun _ => safe_ite (fun _ => h) fun _ => safe_pure false

theorem secure_healthProbe (hpool : .pool ∉ held) (hrecovery : .recovery ∉ held) (autoRecover : Bool) :
    Secure held (healthProbe autoRecover) := by
  refine safe_bind safe_read fun s => ?_
  cases s.dbType with
  | none => exact safe_pure false
  | some db =>
    cases db with
    | postgresql =>
      refine safe_bind secure_isPoolHealthy fun healthy => safe_bind
        (secure_usable (secure_tryRecoverConnection hpool hrecovery) healthy autoRecover) fun usable => ?_
      exact safe_ite (fun _ => safe_bind secure_poolConnection fun _ => secure_outside) fun _ => safe_pure false
    | sqlite =>
      refine safe_bind (secure_usable secure_connectSqlite s.sqliteConnection autoRecover) fun usable => ?_
      exact safe_ite (fun _ => secure_outside) fun _ => safe_pure false

theorem secure_healthCheck (hpool : .pool ∉ held) (hrecovery : .recovery ∉ held) (autoRecover : Bool) :
    Secure held (healthCheck autoRecover) := by
  refine safe_handle (secure_healthProbe hpool hrecovery autoRecover) fun _ => safe_ite (fun _ => ?_) fun _ => safe_pure false
  exact safe_bind (secure_tryRecoverConnection hpool hrecovery) fun recovered =>
    safe_ite (fun _ => secure_orFalse (secure_healthProbe hpool hrecovery false)) fun _ => safe_pure false

theorem secure_secondConnection (hpool : .pool ∉ held) (hrecovery : .recovery ∉ held) (autoRecover : Bool) (k : Kind) :
    Secure held (secondConnection autoRecover k) := by
  refine safe_ite (fun _ => ?_) fun _ => safe_raise k
  exact safe_bind (secure_tryRecoverConnection hpool hrecovery) fun _ => safe_ite (fun _ => secure_poolConnection) fun _ => safe_raise k

theorem secure_getPostgresqlConnection (hpool : .pool ∉ held) (hrecovery : .recovery ∉ held) (autoRecover : Bool) :
    Secure held (getPostgresqlConnection autoRecover) := by
  refine safe_bind secure_isPoolHealthy fun healthy => safe_bind
    (secure_usable (secure_tryRecoverConnection hpool hrecovery) healthy autoRecover) fun _ => safe_ite (fun _ => ?_) fun _ => safe_raise _
  exact safe_handle (safe_bind secure_poolConnection fun _ => safe_pure autoRecover) fun k =>
    safe_bind (secure_secondConnection hpool hrecovery autoRecover k) fun _ => safe_pure false

theorem secure_sqliteReady (autoRecover : Bool) : Secure held (sqliteReady autoRecover) :=
  safe_bind safe_read fun s => safe_bind (secure_usable secure_connectSqlite s.sqliteConnection autoRecover) fun _ =>
    safe_ite (fun _ => safe_pure ()) fun _ => safe_raise _

/-- The lock stays with the block that was entered, and only with it. -/
theorem getSqliteConnection_on (h : .sqlite ∉ held) (autoRecover : Bool) (s : Manager) : ∃ t,
    (getSqliteConnection autoRecover).on ⟨s, held⟩ = (.returned (), ⟨t, .sqlite :: held⟩) ∨
      ∃ k, (getSqliteConnection autoRecover).on ⟨s, held⟩ = (.raised k, ⟨t, held⟩) := by
  have hready : Secure (.sqlite :: held) (sqliteReady autoRecover) := secure_sqliteReady autoRecover
  obtain ⟨hheld, hstuck⟩ := hready s trivial
  unfold getSqliteConnection
  rw [on_bind, acquire_free h]
  dsimp only
  rw [on, handle]
  cases hon : (sqliteReady autoRecover).on ⟨s, .sqlite :: held⟩ with
  | mk r t =>
    rw [hon] at hheld hstuck
    cases t with
    | mk t held' =>
      cases hheld
      cases r with
      | returned a => exact ⟨t, .inl rfl⟩
      | raised k =>
        have herase := List.erase_cons_head Lock.sqlite held
        exact ⟨t, .inr ⟨k, congrArg (fun h => (Finish.raised k, Thread.mk t h)) herase⟩⟩
      | stuck l => exact absurd rfl (hstuck l)

theorem secure_leave_postgresql (hpool : .pool ∉ held) (hrecovery : .recovery ∉ held) (exception : Option Kind) (retries : Bool) :
    Secure held (leave exception (.postgresql retries)) := by
  refine safe_handle (safe_bind secure_outside fun _ => ?_) fun k =>
    safe_bind (secure_secondConnection hpool hrecovery retries k) fun _ => safe_raise _
  cases exception with
  | some k => exact safe_raise k
  | none => exact safe_pure ()

theorem secure_drainPools : Secure held drainPools :=
  safe_bind secure_outside fun _ => safe_bind safe_read fun _ =>
    safe_ite (fun _ => safe_bind secure_outside fun _ => safe_pure true) fun _ => safe_pure true

theorem safe_reconnect (hpool : .pool ∉ held) :
    Safe (fun s => (s.dbType = some .postgresql → s.pool = true) ∧ (s.dbType = some .sqlite → .sqlite ∉ held)) held reconnect := by
  refine safe_handle (safe_read_bind fun s hs => ?_) fun _ => safe_pure false
  cases hdb : s.dbType with
  | none => exact safe_pure false
  | some db =>
    cases db with
    | postgresql =>
      have hthere := hs.1 hdb
      refine safe_withLock hpool (safe_read_bind fun s' hs' => ?_)
      obtain rfl : s' = s := hs'
      rw [if_pos hthere]
      exact secure_drainPools.safe
    | sqlite =>
      refine safe_withLock (hs.2 hdb) (safe_bind safe_read fun _ => safe_ite (fun _ => ?_) fun _ => ?_)
      · exact safe_bind secure_closing fun _ => safe_bind (safe_write _) fun _ => secure_connectSqlite
      · exact secure_connectSqlite

/-- Without a pool, `reconnect` takes the lock of the pool and calls a method that takes it again. -/
theorem reconnect_stuck {s : Manager} (hdb : s.dbType = some .postgresql) (hnone : s.pool = false) (hpool : .pool ∉ held) :
    reconnect.on ⟨s, held⟩ = (.stuck .pool, ⟨s, .pool :: held⟩) := by
  have hread (h : List Lock) : (read : Action Manager).on ⟨s, h⟩ = (.returned s, ⟨s, h⟩) := rfl
  refine handle_stuck ?_
  rw [on_bind, hread]
  dsimp only
  rw [hdb]
  refine withLock_stuck hpool ?_
  rw [reconnectPool, on_bind, hread]
  dsimp only
  rw [hnone, if_neg Bool.false_ne_true]
  exact handle_stuck (withLock_held List.mem_cons_self s)

theorem secure_disconnect (hpool : .pool ∉ held) :
    Safe (fun s => s.dbType = some .sqlite → .sqlite ∉ held) held disconnect := by
  refine safe_read_bind fun s hs => ?_
  cases hdb : s.dbType with
  | none => exact safe_pure ()
  | some db =>
    cases db with
    | postgresql => exact safe_withLock hpool secure_dropPool.safe
    | sqlite =>
      refine safe_withLock (hs hdb) (safe_bind safe_read fun _ => safe_ite (fun _ => ?_) fun _ => safe_pure ())
      exact safe_bind secure_closing fun _ => safe_write _

end Secure

/-! A call. -/

section Step
open Locking
variable {s : Session}

def Context.locks : Context → List Lock
  | postgresql _ => []
  | sqlite => [.sqlite]

/-- The thread holds the lock of its open blocks, and nothing else. -/
def Session.Consistent (s : Session) : Prop := s.thread.held = s.contexts.flatMap Context.locks

theorem pool_not_mem (contexts : List Context) : .pool ∉ contexts.flatMap Context.locks := by
  rw [List.mem_flatMap]
  rintro ⟨c, -, hc⟩
  cases c with
  | postgresql _ => cases hc
  | sqlite => cases List.mem_singleton.mp hc

theorem recovery_not_mem (contexts : List Context) : .recovery ∉ contexts.flatMap Context.locks := by
  rw [List.mem_flatMap]
  rintro ⟨c, -, hc⟩
  cases c with
  | postgresql _ => cases hc
  | sqlite => cases List.mem_singleton.mp hc

theorem sqlite_mem_iff {contexts : List Context} : .sqlite ∈ contexts.flatMap Context.locks ↔ .sqlite ∈ contexts := by
  rw [List.mem_flatMap]
  constructor
  · rintro ⟨c, hc, hlock⟩
    cases c with
    | postgresql _ => cases hlock
    | sqlite => exact hc
  · exact fun h => ⟨.sqlite, h, List.mem_singleton.mpr rfl⟩

/-- A call that keeps the blocks and gives its locks back. -/
theorem calls_safe {α : Type} {m : Action α} {P : Manager → Prop} {contexts : List Context} (returned : α → List Context)
    (hheld : s.thread.held = contexts.flatMap Context.locks) (hm : Safe P (contexts.flatMap Context.locks) m) (hP : P s.thread.state)
    (hreturned : ∀ a, (returned a).flatMap Context.locks = contexts.flatMap Context.locks) :
    (∀ l, (s.calls m returned contexts).1 ≠ .stuck l) ∧ (s.calls m returned contexts).2.Consistent := by
  obtain ⟨hkept, hstuck⟩ := hm s.thread.state hP
  rw [← hheld] at hkept hstuck
  unfold Session.calls
  cases hon : m.on s.thread with
  | mk r t =>
    rw [show Thread.mk s.thread.state s.thread.held = s.thread from rfl, hon] at hkept hstuck
    cases r with
    | returned a => exact ⟨Finish.returned_ne (), hkept.trans (hheld.trans (hreturned a).symm)⟩
    | raised k => exact ⟨Finish.raised_ne k, hkept.trans hheld⟩
    | stuck l => exact absurd rfl (hstuck l)

theorem read_on (t : Thread Manager Lock) : (read : Action Manager).on t = (.returned t.state, t) := rfl

theorem run_getConnection (hs : s.Consistent) (autoRecover : Bool) (h : s.thread.state.dbType = some .sqlite → .sqlite ∉ s.contexts) :
    (Call.getConnection autoRecover).Returns s ∧ ((Call.getConnection autoRecover).run s).2.Consistent := by
  have hheld : s.thread.held = s.contexts.flatMap Context.locks := hs
  unfold Call.Returns Call.run
  dsimp only
  cases hdb : s.thread.state.dbType with
  | none =>
    have hon : (getConnection autoRecover).on s.thread = (.raised .other, s.thread) := by
      rw [getConnection, on_bind, read_on]
      dsimp only
      rw [hdb]
      rfl
    unfold Session.calls
    rw [hon]
    exact ⟨Finish.raised_ne _, hs⟩
  | some db =>
    cases db with
    | postgresql =>
      have hon : s.calls (getConnection autoRecover) (fun c => c :: s.contexts) s.contexts =
          s.calls (getPostgresqlConnection autoRecover) (fun retries => .postgresql retries :: s.contexts) s.contexts := by
        unfold Session.calls
        rw [getConnection, on_bind, read_on]
        dsimp only
        rw [hdb]
        dsimp only
        rw [on_bind]
        cases (getPostgresqlConnection autoRecover).on s.thread with
        | mk r t => cases r <;> rfl
      rw [hon]
      exact calls_safe _ hs (secure_getPostgresqlConnection (pool_not_mem _) (recovery_not_mem _) autoRecover) trivial fun _ => rfl
    | sqlite =>
      have hfree : .sqlite ∉ s.thread.held := by
        rw [hheld, sqlite_mem_iff]
        exact h hdb
      obtain ⟨t, hon | ⟨k, hon⟩⟩ := getSqliteConnection_on hfree autoRecover s.thread.state
      · have hget : (getConnection autoRecover).on s.thread = (.returned .sqlite, ⟨t, .sqlite :: s.thread.held⟩) := by
          rw [getConnection, on_bind, read_on]
          dsimp only
          rw [hdb]
          dsimp only
          rw [on_bind, hon]
          rfl
        unfold Session.calls
        rw [hget]
        exact ⟨Finish.returned_ne _, congrArg (List.cons Lock.sqlite) hheld⟩
      · have hget : (getConnection autoRecover).on s.thread = (.raised k, ⟨t, s.thread.held⟩) := by
          rw [getConnection, on_bind, read_on]
          dsimp only
          rw [hdb]
          dsimp only
          rw [on_bind, hon]
        unfold Session.calls
        rw [hget]
        exact ⟨Finish.raised_ne _, hheld⟩

theorem run_leave (hs : s.Consistent) (exception : Option Kind) :
    (Call.leave exception).Returns s ∧ ((Call.leave exception).run s).2.Consistent := by
  obtain ⟨⟨state, held⟩, contexts⟩ := s
  have hheld : held = contexts.flatMap Context.locks := hs
  cases contexts with
  | nil => exact ⟨Finish.returned_ne (), hs⟩
  | cons c contexts =>
    cases c with
    | postgresql retries =>
      exact calls_safe (fun _ => contexts) hheld (secure_leave_postgresql (pool_not_mem _) (recovery_not_mem _) exception retries)
        trivial fun _ => rfl
    | sqlite =>
      have herase : held.erase .sqlite = contexts.flatMap Context.locks := by
        rw [hheld]
        exact List.erase_cons_head Lock.sqlite _
      cases exception with
      | none => exact ⟨Finish.returned_ne (), herase⟩
      | some k => exact ⟨Finish.raised_ne k, herase⟩

/-- An unobstructed call returns or raises, and the locks are again those of the open blocks. -/
theorem run_unobstructed (hs : s.Consistent) {c : Call} (h : c.Unobstructed s) : c.Returns s ∧ (c.run s).2.Consistent := by
  have hpool := pool_not_mem s.contexts
  have hrecovery := recovery_not_mem s.contexts
  cases c with
  | connect => exact calls_safe (fun _ => s.contexts) hs (secure_connect hpool) trivial fun _ => rfl
  | reconnect =>
    exact calls_safe (fun _ => s.contexts) hs (safe_reconnect hpool)
      ⟨h.1 rfl, fun hdb => fun hmem => h.2 (.inl rfl) hdb (sqlite_mem_iff.mp hmem)⟩ fun _ => rfl
  | healthCheck autoRecover =>
    exact calls_safe (fun _ => s.contexts) hs (secure_healthCheck hpool hrecovery autoRecover) trivial fun _ => rfl
  | getConnection autoRecover => exact run_getConnection hs autoRecover (h.2 (.inr (.inr ⟨autoRecover, rfl⟩)))
  | leave exception => exact run_leave hs exception
  | recover => exact calls_safe (fun _ => s.contexts) hs (secure_tryRecoverConnection hpool hrecovery) trivial fun _ => rfl
  | disconnect =>
    exact calls_safe (fun _ => s.contexts) hs (secure_disconnect hpool)
      (fun hdb => fun hmem => h.2 (.inr (.inl rfl)) hdb (sqlite_mem_iff.mp hmem)) fun _ => rfl

theorem calls_stuck {α : Type} {m : Action α} {returned : α → List Context} {otherwise : List Context} {l : Lock}
    {t : Thread Manager Lock} (h : m.on s.thread = (.stuck l, t)) : (s.calls m returned otherwise).1 = .stuck l := by
  unfold Session.calls
  rw [h]

theorem run_obstructed (hs : s.Consistent) {c : Call} (h : ¬ c.Unobstructed s) : ¬ c.Returns s := by
  have hheld : s.thread.held = s.contexts.flatMap Context.locks := hs
  intro hreturns
  rw [Call.Unobstructed, not_and_or] at h
  obtain h | h := h
  · simp only [Classical.not_imp, Bool.not_eq_true] at h
    obtain ⟨rfl, hdb, hnone⟩ := h
    have hpool : .pool ∉ s.thread.held := hheld ▸ pool_not_mem s.contexts
    exact hreturns _ (calls_stuck (reconnect_stuck hdb hnone hpool))
  · simp only [Classical.not_imp, not_not] at h
    obtain ⟨hcall, hdb, hmem⟩ := h
    have hlock : .sqlite ∈ s.thread.held := by
      rw [hheld, sqlite_mem_iff]
      exact hmem
    obtain rfl | rfl | ⟨autoRecover, rfl⟩ := hcall
    · refine hreturns .sqlite (calls_stuck (t := s.thread) (handle_stuck ?_))
      rw [on_bind, read_on]
      dsimp only
      rw [hdb]
      exact withLock_held hlock _
    · refine hreturns .sqlite (calls_stuck (t := s.thread) ?_)
      rw [disconnect, on_bind, read_on]
      dsimp only
      rw [hdb]
      exact withLock_held hlock _
    · refine hreturns .sqlite (calls_stuck (t := s.thread) ?_)
      rw [getConnection, on_bind, read_on]
      dsimp only
      rw [hdb]
      dsimp only
      rw [getSqliteConnection, on_bind, on_bind, acquire_held hlock]

end Step

/-! A sequence of calls. -/

/-- No call of the sequence waits for a lock of its own thread, exactly if none is obstructed. -/
theorem never_stuck_iff (answers : Nat → Answer) (loopReserve : Nat) (calls : List Call) :
    Runs.Along Session.next Call.Returns calls (start answers loopReserve) ↔
      Runs.Along Session.next Call.Unobstructed calls (start answers loopReserve) := by
  refine Runs.along_iff Session.Consistent (fun c s hs => ⟨fun h => ?_, fun h => (run_unobstructed hs h).1⟩)
    (fun c s hs h => (run_unobstructed hs h).2) rfl
  by_contra hobstructed
  exact run_obstructed hs hobstructed h

def allWell : Nat → Answer := fun _ => ⟨none, true⟩

/-- After a disconnection, the reconnection waits for itself. -/
theorem reconnect_after_disconnect : ¬ ∀ (answers : Nat → Answer) (loopReserve : Nat) (calls : List Call),
    Runs.Along Session.next Call.Returns calls (start answers loopReserve) := by
  intro h
  exact h allWell 2 [.connect, .disconnect, .reconnect] [.connect, .disconnect] .reconnect [] rfl .pool rfl

end XgenSdk.Recovery
