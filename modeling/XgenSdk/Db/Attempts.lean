import XgenSdk.Db.Pool

/-! What the attempts of a statement do, from the answers of the database alone. -/
namespace XgenSdk.Pool
open XgenSdk.AppDb

/-! One execution. -/

/-- What the body has read before it commits. -/
def Execution.reading (fetches : Cursor → Bool) (x : Execution) : Except DbError (Cursor × List Row) :=
  match x.executed with
  | .error e => .error e
  | .ok cur =>
    if fetches cur then
      match x.fetched with
      | .error e => .error e
      | .ok rows => .ok (cur, rows)
    else .ok (cur, [])

def Execution.answer (fetches : Cursor → Bool) (x : Execution) : Except DbError (Cursor × List Row) :=
  match x.reading fetches with
  | .error e => .error e
  | .ok r =>
    match x.committed with
    | .error e => .error e
    | .ok _ => .ok r

def Execution.entries (fetches : Cursor → Bool) (statement : Statement) (x : Execution) : List Entry :=
  match x.reading fetches with
  | .error _ => []
  | .ok r => if x.lands then [⟨statement, r.2, isOk x.committed⟩] else []

/-- The statement was executed, and its commit took effect. -/
def Execution.Lands (fetches : Cursor → Bool) (x : Execution) : Prop :=
  (∃ r, x.reading fetches = .ok r) ∧ x.lands = true

def World.logging (w : World) (entries : List Entry) : World := { w with log := w.log ++ entries }

section Body
variable {α : Type} (fetches : Cursor → Bool) (value : Cursor → List Row → α) (statement : Statement)
  (x : Execution) (w : World)

theorem logging_nil (w : World) : w.logging [] = w := by
  simp [World.logging]

theorem commit_on (rows : List Row) : (commit x statement rows).on w =
    (x.committed, w.logging (if x.lands then [⟨statement, rows, isOk x.committed⟩] else [])) := by
  simp only [commit, Raising.on_bind, Raising.on_write, Raising.on_lift, World.logging]
  split <;> simp

/-- After the reads: commit, and give the value. -/
theorem body_read {cur : Cursor} {rows : List Row} (h : x.reading fetches = .ok (cur, rows)) :
    (do commit x statement rows; return value cur rows : Db α).on w =
      ((x.answer fetches).map fun r => value r.1 r.2, w.logging (x.entries fetches statement)) := by
  rw [Raising.on_bind, commit_on, Execution.answer, Execution.entries, h]
  cases x.committed <;> rfl

theorem body_on : (body fetches value statement x).on w =
    ((x.answer fetches).map fun r => value r.1 r.2, w.logging (x.entries fetches statement)) := by
  have hraised {e : DbError} (h : x.reading fetches = .error e) :
      ((.error e : Except DbError α), w) =
        ((x.answer fetches).map fun r => value r.1 r.2, w.logging (x.entries fetches statement)) := by
    simp [Execution.answer, Execution.entries, h, logging_nil, Except.map]
  rw [body, Raising.on_bind, Raising.on_lift]
  cases hexec : x.executed with
  | error e => exact hraised (by rw [Execution.reading, hexec])
  | ok cur =>
    dsimp only
    cases hf : fetches cur with
    | false =>
      rw [if_neg Bool.false_ne_true]
      have hread : x.reading fetches = .ok (cur, []) := by simp [Execution.reading, hexec, hf]
      exact body_read fetches value statement x w hread
    | true =>
      rw [if_pos rfl, Raising.on_bind, Raising.on_lift]
      cases hrows : x.fetched with
      | error e => exact hraised (by simp [Execution.reading, hexec, hf, hrows])
      | ok rows =>
        have hread : x.reading fetches = .ok (cur, rows) := by simp [Execution.reading, hexec, hf, hrows]
        exact body_read fetches value statement x w hread

end Body

/-! One attempt. -/

def Attempt.usable (a : Attempt) : Bool := a.healthy || a.recovered

/-- The execution that takes place, if any. -/
def Attempt.ran (db : DbType) (a : Attempt) : Option Execution :=
  if !a.usable then none
  else match db with
    | .sqlite => some a.execution
    | .postgresql =>
      match a.connection with
      | none => some a.execution
      | some e => if e.isConnectionError && a.recovery && a.again.isNone then some a.executionAgain else none

/-- The exception that replaces a connection error, or the error itself. -/
def Attempt.rethrown (a : Attempt) (yielded : Bool) (e : DbError) : Option DbError :=
  if e.isConnectionError && a.recovery then
    match a.again with
    | some e' => some e'
    | none => if yielded then some didNotStop else none
  else some e

def Attempt.answer (db : DbType) (fetches : Cursor → Bool) (a : Attempt) :
    Except DbError (Cursor × List Row) :=
  if !a.usable then .error (if db = .postgresql then poolUnavailable else noCursor)
  else match db with
    | .sqlite => a.execution.answer fetches
    | .postgresql =>
      match a.connection with
      | some e =>
        match a.rethrown false e with
        | some e' => .error e'
        | none => a.executionAgain.answer fetches
      | none =>
        match a.execution.answer fetches with
        | .ok r => .ok r
        | .error e => .error ((a.rethrown true e).getD e)

def Attempt.entries (db : DbType) (fetches : Cursor → Bool) (statement : Statement) (a : Attempt) : List Entry :=
  match a.ran db with
  | none => []
  | some x => x.entries fetches statement

theorem onConnection_on {α : Type} (db : DbType) (a : Attempt) (fetches : Cursor → Bool)
    (value : Cursor → List Row → α) (statement : Statement) (w : World) :
    (onConnection db a (body fetches value statement)).on w =
      ((a.answer db fetches).map fun r => value r.1 r.2, w.logging (a.entries db fetches statement)) := by
  cases husable : a.usable with
  | false =>
    have hpool : (a.healthy || a.recovered) = false := husable
    cases db with
    | postgresql =>
      simp [onConnection, getConnection, hpool, Attempt.answer, Attempt.entries, Attempt.ran, husable, logging_nil, Except.map]
    | sqlite =>
      simp [onConnection, sqliteConnection, hpool, Attempt.answer, Attempt.entries, Attempt.ran, husable, logging_nil, Except.map]
  | true =>
    have hpool : (a.healthy || a.recovered) = true := husable
    cases db with
    | sqlite =>
      simp only [onConnection, sqliteConnection, hpool, if_true, body_on, Attempt.answer, Attempt.entries, Attempt.ran, husable,
        Bool.not_true, Bool.false_eq_true, if_false]
    | postgresql =>
      simp only [onConnection, getConnection, hpool, Attempt.answer, Attempt.entries, Attempt.ran, husable,
        Bool.not_true, Bool.false_eq_true, if_false]
      cases hconn : a.connection with
      | some e =>
        by_cases hrec : (e.isConnectionError && a.recovery) = true
        · cases hagain : a.again with
          | some e' => simp [Attempt.rethrown, hrec, hagain, logging_nil, Except.map]
          | none => simp [Attempt.rethrown, hrec, hagain, body_on]
        · simp [Attempt.rethrown, hrec, logging_nil, Except.map]
      | none =>
        simp only [Raising.on_handle, body_on]
        cases a.execution.answer fetches with
        | ok r => rfl
        | error e =>
          by_cases hrec : (e.isConnectionError && a.recovery) = true
          · cases hagain : a.again <;> simp [Attempt.rethrown, hrec, hagain, Except.map]
          · simp [Attempt.rethrown, hrec, Except.map]

/-- The statement was executed in this attempt, and its commit took effect. -/
def Attempt.Lands (db : DbType) (fetches : Cursor → Bool) (a : Attempt) : Prop :=
  ∃ x, a.ran db = some x ∧ x.Lands fetches

/-- An exception that the loop tries again. After a connection error it is the
error itself only if the recovery fails; a recovery that succeeds replaces it by
what the second connection raises, or by contextlib's own error. -/
inductive Attempt.Retried (fetches : Cursor → Bool) (a : Attempt) : DbType → Prop where
  | sqlite {e : DbError} (husable : a.usable = true) (h : a.execution.answer fetches = .error e)
      (he : e.isRetryable = true) : Retried fetches a .sqlite
  | execution {e : DbError} (husable : a.usable = true) (hconn : a.connection = none)
      (h : a.execution.answer fetches = .error e) (he : e.isRetryable = true)
      (hrec : e.isConnectionError = true → a.recovery = false) : Retried fetches a .postgresql
  | noConnection {e : DbError} (husable : a.usable = true) (hconn : a.connection = some e) (he : e.isRetryable = true)
      (hrec : e.isConnectionError = true → a.recovery = false) : Retried fetches a .postgresql
  | noSecond {e : DbError} (husable : a.usable = true)
      (hfirst : a.connection = none ∧ a.execution.answer fetches = .error e ∨ a.connection = some e)
      (he : e.isConnectionError = true) (hrec : a.recovery = true) {e' : DbError} (hagain : a.again = some e')
      (he' : e'.isRetryable = true) : Retried fetches a .postgresql
  | second {e : DbError} (husable : a.usable = true) (hconn : a.connection = some e) (he : e.isConnectionError = true)
      (hrec : a.recovery = true) (hagain : a.again = none) {e' : DbError}
      (h : a.executionAgain.answer fetches = .error e') (he' : e'.isRetryable = true) : Retried fetches a .postgresql

theorem poolUnavailable_not_retryable : poolUnavailable.isRetryable = false := by decide

theorem didNotStop_not_retryable : didNotStop.isRetryable = false := by decide

theorem noCursor_not_retryable : noCursor.isRetryable = false := by decide

section Rethrown
variable {a : Attempt} {yielded : Bool} {e : DbError}

theorem rethrown_kept (h : e.isConnectionError = true → a.recovery = false) : a.rethrown yielded e = some e := by
  have hno : (e.isConnectionError && a.recovery) = false := by
    cases hconn : e.isConnectionError with
    | false => rfl
    | true => rw [h hconn, Bool.and_false]
  rw [Attempt.rethrown, hno]
  rfl

theorem rethrown_replaced (h : e.isConnectionError = true) (hrec : a.recovery = true) :
    a.rethrown yielded e = (a.again <|> if yielded then some didNotStop else none) := by
  rw [Attempt.rethrown, h, hrec]
  cases a.again <;> rfl

end Rethrown

theorem Attempt.Retried.error {db : DbType} {fetches : Cursor → Bool} {a : Attempt} (h : a.Retried fetches db) :
    ∃ e, a.answer db fetches = .error e ∧ e.isRetryable = true := by
  cases h with
  | sqlite husable h he => exact ⟨_, by simp [Attempt.answer, husable, h], he⟩
  | execution husable hconn h he hrec =>
    exact ⟨_, by simp [Attempt.answer, husable, hconn, h, rethrown_kept hrec], he⟩
  | noConnection husable hconn he hrec =>
    exact ⟨_, by simp [Attempt.answer, husable, hconn, rethrown_kept hrec], he⟩
  | noSecond husable hfirst he hrec hagain he' =>
    refine ⟨_, ?_, he'⟩
    obtain ⟨hconn, h⟩ | hconn := hfirst
    · simp [Attempt.answer, husable, hconn, h, rethrown_replaced he hrec, hagain]
    · simp [Attempt.answer, husable, hconn, rethrown_replaced he hrec, hagain]
  | second husable hconn he hrec hagain h he' =>
    exact ⟨_, by simp [Attempt.answer, husable, hconn, rethrown_replaced he hrec, hagain, h], he'⟩

theorem retried_of_error {db : DbType} {fetches : Cursor → Bool} {a : Attempt} {e' : DbError}
    (h : a.answer db fetches = .error e') (he' : e'.isRetryable = true) : a.Retried fetches db := by
  cases husable : a.usable with
  | false =>
    simp only [Attempt.answer, husable, Bool.not_false, if_true] at h
    cases h
    cases db with
    | postgresql => exact absurd he' (by decide)
    | sqlite => exact absurd he' (by decide)
  | true =>
    simp only [Attempt.answer, husable, Bool.not_true, Bool.false_eq_true, if_false] at h
    cases db with
    | sqlite => exact .sqlite husable h he'
    | postgresql =>
      dsimp only at h
      by_cases hfails : ∃ e, a.connection = some e ∨ a.connection = none ∧ a.execution.answer fetches = .error e
      · obtain ⟨e, hfirst⟩ := hfails
        by_cases hrec : e.isConnectionError = true → a.recovery = false
        · obtain hconn | ⟨hconn, hexec⟩ := hfirst
          · simp only [hconn, rethrown_kept hrec] at h
            cases h
            exact .noConnection husable hconn he' hrec
          · simp only [hconn, hexec, rethrown_kept hrec] at h
            cases h
            exact .execution husable hconn hexec he' hrec
        · simp only [Classical.not_imp, Bool.not_eq_false] at hrec
          obtain ⟨he, hrec⟩ := hrec
          cases hagain : a.again with
          | some e'' =>
            have hsame : e'' = e' := by
              obtain hconn | ⟨hconn, hexec⟩ := hfirst
              · simpa [hconn, rethrown_replaced he hrec, hagain] using h
              · simpa [hconn, hexec, rethrown_replaced he hrec, hagain] using h
            exact .noSecond husable hfirst.symm he hrec hagain (hsame ▸ he')
          | none =>
            obtain hconn | ⟨hconn, hexec⟩ := hfirst
            · simp only [hconn, rethrown_replaced he hrec, hagain] at h
              exact .second husable hconn he hrec hagain h he'
            · have hraised : didNotStop = e' := by
                simpa [hconn, hexec, rethrown_replaced he hrec, hagain] using h
              rw [← hraised] at he'
              exact absurd he' (by decide)
      · cases hconn : a.connection with
        | some e => exact absurd ⟨e, .inl hconn⟩ hfails
        | none =>
          cases hexec : a.execution.answer fetches with
          | error e => exact absurd ⟨e, .inr ⟨hconn, hexec⟩⟩ hfails
          | ok r =>
            rw [hconn, hexec] at h
            cases h

theorem retried_iff {db : DbType} {fetches : Cursor → Bool} {a : Attempt} :
    a.Retried fetches db ↔ ∃ e, a.answer db fetches = .error e ∧ e.isRetryable = true :=
  ⟨Attempt.Retried.error, fun ⟨_, h, he⟩ => retried_of_error h he⟩

/-! The loop. -/

/-- The `k`-th attempt from here. -/
def World.attempt (w : World) (k : Nat) : Attempt := w.attempts (w.now + k)

/-- The world after `k` attempts. -/
def World.after (db : DbType) (fetches : Cursor → Bool) (statement : Statement) (w : World) (k : Nat) : World :=
  { w with
    now := w.now + k
    log := w.log ++ (List.range k).flatMap fun j => (w.attempt j).entries db fetches statement }

section Loop
variable {α : Type} {db : DbType} {fetches : Cursor → Bool} {value : Cursor → List Row → α} {statement : Statement}
  {w w' : World} {k limit : Nat}

/-- One turn of the loop. -/
def turn (db : DbType) (fetches : Cursor → Bool) (value : Cursor → List Row → α) (statement : Statement) : Db α :=
  nextAttempt >>= fun a => onConnection db a (body fetches value statement)

theorem turn_on : (turn db fetches value statement).on w =
    (((w.attempt 0).answer db fetches).map fun r => value r.1 r.2, w.after db fetches statement 1) := by
  rw [turn, Raising.on_bind]
  change (onConnection db (w.attempt 0) (body fetches value statement)).on { w with now := w.now + 1 } = _
  rw [onConnection_on]
  simp [World.logging, World.after]

theorem attempt_after (j : Nat) : (w.after db fetches statement k).attempt j = w.attempt (k + j) := by
  rw [World.attempt, World.attempt, World.after, Nat.add_assoc]

theorem after_after (k' : Nat) : (w.after db fetches statement k).after db fetches statement k' =
    w.after db fetches statement (k + k') := by
  simp only [World.after, World.attempt, List.range_add, List.flatMap_append, List.flatMap_map, Nat.add_assoc,
    List.append_assoc]

theorem after_zero : w.after db fetches statement 0 = w := by
  simp [World.after]

theorem turn_retried (h : (w.attempt 0).Retried fetches db) : ∃ e,
    (turn db fetches value statement).on w = (.error e, w.after db fetches statement 1) ∧ e.isRetryable = true := by
  obtain ⟨e, he, hretry⟩ := h.error
  exact ⟨e, by rw [turn_on, he]; rfl, hretry⟩

theorem tries_after (h : ∀ j < k, (w.attempt j).Retried fetches db) :
    Raising.Tries DbError.isRetryable (turn db fetches value statement) k w (w.after db fetches statement k) := by
  induction k generalizing w with
  | zero =>
    rw [after_zero]
    exact .none w
  | succ k ih =>
    obtain ⟨e, he, hretry⟩ := turn_retried (h 0 (Nat.succ_pos k))
    have hrest := ih (w := w.after db fetches statement 1) fun j hj => by
      rw [attempt_after, Nat.add_comm]
      exact h (j+1) (by omega)
    rw [after_after, Nat.add_comm] at hrest
    exact .more he hretry hrest

theorem after_of_tries (h : Raising.Tries DbError.isRetryable (turn db fetches value statement) k w w') :
    w' = w.after db fetches statement k ∧ ∀ j < k, (w.attempt j).Retried fetches db := by
  induction h with
  | none w => exact ⟨after_zero.symm, fun j hj => absurd hj (Nat.not_lt_zero j)⟩
  | @more k w u w' e hturn he _ ih =>
    rw [turn_on] at hturn
    obtain ⟨hanswer, rfl⟩ := Prod.ext_iff.mp hturn
    obtain ⟨rfl, hretried⟩ := ih
    refine ⟨by rw [after_after, Nat.add_comm], fun j hj => ?_⟩
    cases j with
    | zero =>
      refine retried_iff.mpr ⟨e, ?_, he⟩
      cases hfirst : (w.attempt 0).answer db fetches with
      | ok r => simp [hfirst, Except.map] at hanswer
      | error e' =>
        simp only [hfirst, Except.map, Except.error.injEq] at hanswer
        rw [hanswer]
    | succ j =>
      have hj' := hretried j (by omega)
      rwa [attempt_after, Nat.add_comm] at hj'

/-- Attempt `k` is the last one of the loop. -/
structure Last (db : DbType) (fetches : Cursor → Bool) (limit : Nat) (w : World) (k : Nat) : Prop where
  le : k ≤ limit
  before : ∀ j < k, (w.attempt j).Retried fetches db
  ends : k = limit ∨ ¬ (w.attempt k).Retried fetches db

/-- What the loop gives is what its last attempt gives. -/
theorem executeWithRetry_on (h : Last db fetches limit w k) :
    (executeWithRetry limit fun a => onConnection db a (body fetches value statement)).on w =
      (((w.attempt k).answer db fetches).map fun r => value r.1 r.2, w.after db fetches statement (k+1)) := by
  have hend : (turn db fetches value statement).on (w.after db fetches statement k) =
      (((w.attempt k).answer db fetches).map fun r => value r.1 r.2, w.after db fetches statement (k+1)) := by
    rw [turn_on, attempt_after, Nat.add_zero, after_after]
  rw [← hend]
  refine Raising.retry_result (tries_after h.before) h.le (h.ends.imp id fun hno e he => ?_)
  by_contra hretry
  have hraised : ((turn db fetches value statement).on (w.after db fetches statement k)).1 = .error e := he
  rw [hend] at hraised
  refine hno (retried_iff.mpr ⟨e, ?_, by simpa using hretry⟩)
  cases hlast : (w.attempt k).answer db fetches with
  | ok r => simp [hlast, Except.map] at hraised
  | error e' =>
    simp only [hlast, Except.map, Except.error.injEq] at hraised
    rw [hraised]

theorem exists_last (db : DbType) (fetches : Cursor → Bool) (limit : Nat) (w : World) : ∃ k, Last db fetches limit w k := by
  obtain ⟨k, t, hk, htries, hend⟩ := Raising.retry_ends DbError.isRetryable
    (turn db fetches (fun _ rows => rows) ("", [])) limit w
  obtain ⟨rfl, hbefore⟩ := after_of_tries htries
  refine ⟨k, hk, hbefore, hend.imp id fun hstop hretried => ?_⟩
  obtain ⟨e, he, hretry⟩ := turn_retried (w := w.after db fetches ("", []) k)
    (by rwa [attempt_after, Nat.add_zero])
  rw [hstop e (by rw [he])] at hretry
  cases hretry

theorem Last.le_of {k' : Nat} (h : Last db fetches limit w k) (hle : k' ≤ limit)
    (hbefore : ∀ j < k', (w.attempt j).Retried fetches db) : k' ≤ k := by
  by_contra hlt
  obtain rfl | hno := h.ends
  · omega
  · exact hno (hbefore k (by omega))

/-! The execute functions give the value of the last attempt, and `None` for an exception. -/

theorem orNone_on {m : Db α} {r : Except DbError α} (h : m.on w = (r, w')) : (orNone m).on w = (.ok r.toOption, w') := by
  rw [orNone, Raising.on_handle, Raising.on_map, h]
  cases r <;> rfl

theorem executeQuery_on (h : Last db Cursor.description limit w k) : (executeQuery db limit statement).on w =
    (.ok (((w.attempt k).answer db Cursor.description).map Prod.snd).toOption,
      w.after db Cursor.description statement (k+1)) := orNone_on (executeWithRetry_on h)

theorem executeUpdateDelete_on (h : Last db (fun _ => false) limit w k) : (executeUpdateDelete db limit statement).on w =
    (.ok (((w.attempt k).answer db fun _ => false).map fun r => r.1.rowcount).toOption,
      w.after db (fun _ => false) statement (k+1)) := orNone_on (executeWithRetry_on h)

/-- The id that an insert reads. -/
def insertedId (db : DbType) (r : Cursor × List Row) : Option Value :=
  if returning db then firstId r.2 else r.1.lastrowid.map Value.int

theorem executeInsert_on (h : Last db (fun _ => returning db) limit w k) : (executeInsert db limit statement).on w =
    (.ok (((w.attempt k).answer db fun _ => returning db).map (insertedId db)).toOption.join,
      w.after db (fun _ => returning db) statement (k+1)) := by
  rw [executeInsert, Raising.on_bind, orNone_on (executeWithRetry_on h)]
  rfl

end Loop

/-! Statements whose first executions fail with a connection error. -/
section Transient
variable {fetches : Cursor → Bool} {a : Attempt} {w : World} {k limit : Nat} {r : Cursor × List Row}

/-- There is a connection whenever one is asked for. -/
structure Connected (a : Attempt) : Prop where
  usable : a.usable = true
  connection : a.connection = none
  again : a.again = none

structure FailsInside (fetches : Cursor → Bool) (a : Attempt) : Prop extends Connected a where
  fails : ∃ e, a.execution.answer fetches = .error e ∧ e.isConnectionError = true

/-- The first `k` executions fail with an error of the connection, the next one succeeds. -/
structure Transient (fetches : Cursor → Bool) (w : World) (k : Nat) (r : Cursor × List Row) : Prop where
  fails : ∀ j < k, FailsInside fetches (w.attempt j)
  connected : Connected (w.attempt k)
  succeeds : (w.attempt k).execution.answer fetches = .ok r

theorem isRetryable_of_connection {e : DbError} (h : e.isConnectionError = true) : e.isRetryable = true := by
  have hkind : e.kind ≠ .other := by
    intro hother
    simp [DbError.isConnectionError, hother] at h
  simp [DbError.isRetryable, hkind]

/-- A recovery that succeeds hides the error from the loop. -/
theorem FailsInside.retried_iff (h : FailsInside fetches a) : a.Retried fetches .postgresql ↔ a.recovery = false := by
  obtain ⟨e, hexec, he⟩ := h.fails
  constructor
  · intro hretried
    by_contra hrec
    obtain ⟨e', hanswer, hretry⟩ := hretried.error
    have hhidden : didNotStop = e' := by
      simpa [Attempt.answer, h.usable, h.connection, hexec, rethrown_replaced he (by simpa using hrec), h.again] using hanswer
    rw [← hhidden, didNotStop_not_retryable] at hretry
    cases hretry
  · intro hrec
    exact .execution h.usable h.connection hexec (isRetryable_of_connection he) fun _ => hrec

theorem FailsInside.answer_error (h : FailsInside fetches a) : ∃ e, a.answer .postgresql fetches = .error e := by
  obtain ⟨e, hexec, _⟩ := h.fails
  exact ⟨_, by simp only [Attempt.answer, h.usable, h.connection, hexec, Bool.not_true, Bool.false_eq_true, if_false]; rfl⟩

theorem Transient.answer (h : Transient fetches w k r) : (w.attempt k).answer .postgresql fetches = .ok r := by
  simp [Attempt.answer, h.connected.usable, h.connected.connection, h.succeeds]

theorem Transient.last (h : Transient fetches w k r) (hk : k ≤ limit) (hrec : ∀ j < k, (w.attempt j).recovery = false) :
    Last .postgresql fetches limit w k := by
  refine ⟨hk, fun j hj => (h.fails j hj).retried_iff.mpr (hrec j hj), .inr fun hretried => ?_⟩
  obtain ⟨e, he, _⟩ := hretried.error
  rw [h.answer] at he
  cases he

theorem Transient.hidden (h : Transient fetches w k r) (limit : Nat) (hrec : ¬ ∀ j < k, (w.attempt j).recovery = false) :
    ∃ j e, Last .postgresql fetches limit w j ∧ (w.attempt j).answer .postgresql fetches = .error e := by
  obtain ⟨j, hlast⟩ := exists_last .postgresql fetches limit w
  have hj : j < k := by
    by_contra hle
    exact hrec fun i hi => (h.fails i hi).retried_iff.mp (hlast.before i (by omega))
  obtain ⟨e, he⟩ := (h.fails j hj).answer_error
  exact ⟨j, e, hlast, he⟩

theorem insert_value (statement : Statement) {n : Nat} (h : Last .postgresql (fun _ => true) limit w n) :
    ((executeInsert .postgresql limit statement).on w).1 =
      .ok (((w.attempt n).answer .postgresql fun _ => true).map fun r => firstId r.2).toOption.join :=
  congrArg Prod.fst (executeInsert_on h)

/-- The result arrives where no recovery inside `get_connection` succeeds. An
insert without an id gives `None` in any case. -/
theorem transient_failures_retried_iff (limit k : Nat) (w : World) (statement : Statement) (hk : k ≤ limit) :
    (∀ r, Transient Cursor.description w k r →
      (((executeQuery .postgresql limit statement).on w).1 = .ok (some r.2) ↔
        ∀ j < k, (w.attempt j).recovery = false)) ∧
    (∀ r, Transient (fun _ => true) w k r →
      (((executeInsert .postgresql limit statement).on w).1 = .ok (firstId r.2) ↔
        (∀ j < k, (w.attempt j).recovery = false) ∨ firstId r.2 = none)) ∧
    ∀ r, Transient (fun _ => false) w k r →
      (((executeUpdateDelete .postgresql limit statement).on w).1 = .ok (some r.1.rowcount) ↔
        ∀ j < k, (w.attempt j).recovery = false) := by
  refine ⟨fun r h => ?_, fun r h => ?_, fun r h => ?_⟩
  · by_cases hrec : ∀ j < k, (w.attempt j).recovery = false
    · refine iff_of_true ?_ hrec
      rw [executeQuery_on (h.last hk hrec), h.answer]
      rfl
    · refine iff_of_false (fun hsome => ?_) hrec
      obtain ⟨j, e, hlast, he⟩ := h.hidden limit hrec
      rw [executeQuery_on hlast, he] at hsome
      cases hsome
  · by_cases hrec : ∀ j < k, (w.attempt j).recovery = false
    · refine iff_of_true ?_ (.inl hrec)
      rw [insert_value statement (h.last hk hrec), h.answer]
      rfl
    · obtain ⟨j, e, hlast, he⟩ := h.hidden limit hrec
      have hnone : ((executeInsert .postgresql limit statement).on w).1 = .ok none := by
        rw [insert_value statement hlast, he]
        rfl
      rw [hnone, Except.ok.injEq, or_iff_right hrec, eq_comm]
  · by_cases hrec : ∀ j < k, (w.attempt j).recovery = false
    · refine iff_of_true ?_ hrec
      rw [executeUpdateDelete_on (h.last hk hrec), h.answer]
      rfl
    · refine iff_of_false (fun hsome => ?_) hrec
      obtain ⟨j, e, hlast, he⟩ := h.hidden limit hrec
      rw [executeUpdateDelete_on hlast, he] at hsome
      cases hsome

/-! A server that closes the first connection. -/

def closed : DbError := ⟨.operational, "server closed the connection", "server closed the connection"⟩

def oneRow : Cursor := ⟨true, 1, none⟩

def works : Execution := ⟨.ok oneRow, .ok [[("id", .int 7)]], .ok (), false⟩

def flaky (recovery : Bool) : World where
  attempts n := ⟨true, true, none, if n = 0 then ⟨.error closed, .error closed, .error closed, false⟩ else works, recovery, none, works⟩
  now := 0
  log := []

theorem flaky_connected (recovery : Bool) (j : Nat) : Connected ((flaky recovery).attempt j) := ⟨rfl, rfl, rfl⟩

theorem flaky_transient (recovery : Bool) : Transient (fun _ => true) (flaky recovery) 1 (oneRow, [[("id", .int 7)]]) := by
  refine ⟨fun j hj => ?_, flaky_connected recovery 1, rfl⟩
  obtain rfl : j = 0 := by omega
  exact ⟨flaky_connected recovery 0, closed, rfl, rfl⟩

theorem transient_failures_retried_flaky :
    ((executeInsert .postgresql 3 ("", [])).on (flaky false)).1 = .ok (some (.int 7)) :=
  ((transient_failures_retried_iff 3 1 (flaky false) ("", []) (by decide)).2.1 _ (flaky_transient false)).mpr
    (.inl fun _ _ => rfl)

/-- The recovery succeeds, and the insert is not tried again. -/
theorem transient_failure_given_up :
    ¬ ∀ (limit k : Nat) (w : World) (statement : Statement) (r : Cursor × List Row), k ≤ limit →
      Transient (fun _ => true) w k r → ((executeInsert .postgresql limit statement).on w).1 = .ok (firstId r.2) := by
  intro h
  have hsome := h 3 1 (flaky true) ("", []) _ (by decide) (flaky_transient true)
  have hnone : ((executeInsert .postgresql 3 ("", [])).on (flaky true)).1 = .ok none := rfl
  rw [hnone] at hsome
  cases hsome

end Transient

end XgenSdk.Pool
