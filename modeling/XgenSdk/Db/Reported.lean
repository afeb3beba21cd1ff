import XgenSdk.Db.Attempts
import XgenSdk.Db.Records
import XgenSdk.Lib.Checks

/-! What the operations report, and what happened to their statements. -/
namespace XgenSdk.Records
open XgenSdk.AppDb XgenSdk.Pool
variable {x : XgenDb} {w w' : World}

inductive Write where
  | insert (model : Model)
  | update (model : Model)
  | insertRecord (tableName : String) (data : List (String × Value))
  | updateRecord (tableName : String) (data : List (String × Value)) (recordId : Value)
  | updateRecordsByCondition (tableName : String) (updates conditions : List (String × Value))
  | deleteRecord (tableName : String) (recordId : Value)
  | deleteRecordsByCondition (tableName : String) (conditions : List (String × Value))

namespace Write

/-- The statement of a write, unless it cannot be built. -/
def statement (x : XgenDb) : Write → Except DbError Statement
  | insert model => model.insertStatement x.dbType
  | update model => model.updateStatement x.dbType
  | insertRecord tableName data => .ok (insertRecordStatement x tableName data)
  | updateRecord tableName data recordId => .ok (updateRecordStatement x tableName data recordId)
  | updateRecordsByCondition tableName updates conditions => .ok (updateByConditionStatement x tableName updates conditions)
  | deleteRecord tableName recordId => .ok (deleteRecordStatement x tableName recordId)
  | deleteRecordsByCondition tableName conditions => .ok (deleteByConditionStatement x tableName conditions)

/-- Whether the execution reads a row before it commits. -/
def fetches (x : XgenDb) : Write → Cursor → Bool
  | insert _, _ => returning x.dbType
  | insertRecord _ _, _ => returning x.dbType
  | _, _ => false

/-- The write, with whether its result is marked success. -/
def reports (x : XgenDb) : Write → Db Bool
  | insert model => Option.isSome <$> Records.insert x model
  | update model => Records.update x model
  | insertRecord tableName data => InsertReport.success <$> Records.insertRecord x tableName data
  | updateRecord tableName data recordId => ChangeReport.success <$> Records.updateRecord x tableName data recordId
  | updateRecordsByCondition tableName updates conditions =>
    ChangeReport.success <$> Records.updateRecordsByCondition x tableName updates conditions
  | deleteRecord tableName recordId => ChangeReport.success <$> Records.deleteRecord x tableName recordId
  | deleteRecordsByCondition tableName conditions =>
    ChangeReport.success <$> Records.deleteRecordsByCondition x tableName conditions

end Write

/-! The layer of recoveries around an operation. -/

section Recovery
variable {α : Type} {operation : Db α} {report : DbError → Db α} {a : α} {e : DbError}

theorem withAutoRecovery_ok (h : operation.on w = (.ok a, w')) : (withAutoRecovery operation).on w = (.ok a, w') := by
  rw [withAutoRecovery, Raising.retry_stop, h]
  intro e he
  rw [h] at he
  cases he

theorem withAutoRecovery_final (h : operation.on w = (.error e, w')) (he : isRetryable e = false) :
    (withAutoRecovery operation).on w = (.error e, w') := by
  rw [withAutoRecovery, Raising.retry_stop, h]
  intro e' he'
  rw [h] at he'
  cases he'
  exact he

theorem withAutoRecovery_stuck (h : operation.on w = (.error e, w)) : (withAutoRecovery operation).on w = (.error e, w) :=
  Raising.retry_stuck h

theorem handled_ok (h : operation.on w = (.ok a, w')) :
    (Raising.handle (withAutoRecovery operation) report).on w = (.ok a, w') := by
  rw [Raising.on_handle, withAutoRecovery_ok h]

theorem handled_stuck (h : operation.on w = (.error e, w)) :
    (Raising.handle (withAutoRecovery operation) report).on w = (report e).on w := by
  rw [Raising.on_handle, withAutoRecovery_stuck h]

end Recovery

/-! Writes. -/

section Writes
variable {model : Model} {statement : Statement}

/-- A statement that cannot be built is a failure that the caller is told. -/
theorem reports_unbuilt {write : Write} {e : DbError} (h : write.statement x = .error e) :
    (write.reports x).on w = (.ok false, w) := by
  cases write with
  | insert model =>
    have hbuild : model.insertStatement x.dbType = .error e := h
    have hrun : (insert x model).on w = (.ok none, w) :=
      handled_stuck (e := e) (by simp only [Raising.on_bind, Raising.on_lift, hbuild])
    rw [Write.reports, Raising.on_map, hrun]
    rfl
  | update model =>
    have hbuild : model.updateStatement x.dbType = .error e := h
    exact handled_stuck (e := e) (by simp only [Raising.on_bind, Raising.on_lift, hbuild])
  | _ => cases h

theorem insert_on (hbuild : model.insertStatement x.dbType = .ok statement) {insertId : Option Value}
    (h : (executeInsert x.dbType x.retryLimit statement).on w = (.ok insertId, w')) :
    (Option.isSome <$> insert x model).on w = (.ok true, w') := by
  have hrun : (insert x model).on w = (.ok (some insertId), w') :=
    handled_ok (by simp only [Raising.on_bind, Raising.on_lift, hbuild, h, Raising.on_pure])
  rw [Raising.on_map, hrun]
  rfl

theorem update_on (hbuild : model.updateStatement x.dbType = .ok statement) {count : Option Int}
    (h : (executeUpdateDelete x.dbType x.retryLimit statement).on w = (.ok count, w')) :
    (update x model).on w = (.ok true, w') :=
  handled_ok (by simp only [Raising.on_bind, Raising.on_lift, hbuild, h, Raising.on_pure])

theorem insertRecord_on {tableName : String} {data : List (String × Value)} {insertId : Option Value}
    (h : (executeInsert x.dbType x.retryLimit (insertRecordStatement x tableName data)).on w = (.ok insertId, w')) :
    (InsertReport.success <$> insertRecord x tableName data).on w = (.ok true, w') := by
  have hrun : (insertRecord x tableName data).on w = (.ok { success := true, id := insertId }, w') :=
    handled_ok (by simp only [Raising.on_bind, h, Raising.on_pure])
  rw [Raising.on_map, hrun]
  rfl

theorem change_on {count : Option Int}
    (h : (executeUpdateDelete x.dbType x.retryLimit statement).on w = (.ok count, w')) :
    (ChangeReport.success <$> change x statement).on w = (.ok true, w') := by
  have hrun : (change x statement).on w = (.ok { success := true, affectedRows := count.getD 0 }, w') :=
    handled_ok (by simp only [Raising.on_bind, h, Raising.on_pure])
  rw [Raising.on_map, hrun]
  rfl

/-- Once the statement is built, the report says success whatever becomes of it. -/
theorem reports_built {write : Write} (h : write.statement x = .ok statement) {k : Nat}
    (hlast : Last x.dbType (write.fetches x) x.retryLimit w k) :
    (write.reports x).on w = (.ok true, w.after x.dbType (write.fetches x) statement (k+1)) := by
  cases write with
  | insert model => exact insert_on h (executeInsert_on hlast)
  | update model => exact update_on h (executeUpdateDelete_on hlast)
  | insertRecord tableName data =>
    cases h
    exact insertRecord_on (executeInsert_on hlast)
  | _ =>
    cases h
    exact change_on (executeUpdateDelete_on hlast)

end Writes

/-! Honest reports. -/

/-- Some attempt that is made executes the statement, and the commit takes effect. -/
def LandsInTime (db : DbType) (fetches : Cursor → Bool) (limit : Nat) (w : World) : Prop :=
  ∃ j ≤ limit, (∀ i < j, (w.attempt i).Retried fetches db) ∧ (w.attempt j).Lands db fetches

/-- The statement was executed and committed between two worlds. -/
def Committed (w w' : World) (statement : Statement) : Prop :=
  ∃ entries, w'.log = w.log ++ entries ∧ ∃ entry ∈ entries, entry.statement = statement

/-- A reported success happened. -/
def WriteHonest (x : XgenDb) (write : Write) (w : World) : Prop :=
  ∀ w', (write.reports x).on w = (.ok true, w') → ∃ statement, write.statement x = .ok statement ∧ Committed w w' statement

section Honest
variable {db : DbType} {fetches : Cursor → Bool} {limit k : Nat} {statement : Statement} {entry : Entry}

theorem mem_entries {a : Attempt} (h : entry ∈ a.entries db fetches statement) :
    entry.statement = statement ∧ a.Lands db fetches := by
  unfold Attempt.entries at h
  cases hran : a.ran db with
  | none =>
    rw [hran] at h
    cases h
  | some x =>
    simp only [hran, Execution.entries] at h
    cases hread : x.reading fetches with
    | error e => simp [hread] at h
    | ok r =>
      rw [hread] at h
      cases hlands : x.lands with
      | false => simp [hlands] at h
      | true =>
        simp only [hlands, if_true, List.mem_singleton] at h
        exact ⟨congrArg Entry.statement h, x, hran, ⟨r, hread⟩, hlands⟩

theorem entries_of_lands {a : Attempt} (h : a.Lands db fetches) (statement : Statement) :
    ∃ entry ∈ a.entries db fetches statement, entry.statement = statement := by
  obtain ⟨x, hran, ⟨r, hread⟩, hlands⟩ := h
  exact ⟨⟨statement, r.2, isOk x.committed⟩, by simp [Attempt.entries, hran, Execution.entries, hread, hlands], rfl⟩

theorem committed_after_iff : Committed w (w.after db fetches statement k) statement ↔
    ∃ j < k, (w.attempt j).Lands db fetches := by
  constructor
  · rintro ⟨entries, hlog, entry, hmem, _⟩
    obtain rfl := List.append_cancel_left hlog
    obtain ⟨j, hj, hentry⟩ := List.mem_flatMap.mp hmem
    exact ⟨j, List.mem_range.mp hj, (mem_entries hentry).2⟩
  · rintro ⟨j, hj, hlands⟩
    obtain ⟨entry, hentry, hstatement⟩ := entries_of_lands hlands statement
    exact ⟨_, rfl, entry, List.mem_flatMap.mpr ⟨j, List.mem_range.mpr hj, hentry⟩, hstatement⟩

/-- The attempts up to the last one are those that are made. -/
theorem landsInTime_iff (hlast : Last db fetches limit w k) :
    LandsInTime db fetches limit w ↔ ∃ j < k + 1, (w.attempt j).Lands db fetches := by
  constructor
  · rintro ⟨j, hj, hbefore, hlands⟩
    exact ⟨j, Nat.lt_succ_of_le (hlast.le_of hj hbefore), hlands⟩
  · rintro ⟨j, hj, hlands⟩
    have hle := hlast.le
    exact ⟨j, by omega, fun i hi => hlast.before i (by omega), hlands⟩

theorem writeHonest_iff (x : XgenDb) (write : Write) (w : World) :
    WriteHonest x write w ↔
      (∃ e, write.statement x = .error e) ∨ LandsInTime x.dbType (write.fetches x) x.retryLimit w := by
  cases hstatement : write.statement x with
  | error e =>
    refine iff_of_true (fun w' hrun => ?_) (.inl ⟨e, rfl⟩)
    rw [reports_unbuilt hstatement] at hrun
    cases hrun
  | ok statement =>
    obtain ⟨k, hlast⟩ := exists_last x.dbType (write.fetches x) x.retryLimit w
    have hrun := reports_built hstatement hlast
    rw [landsInTime_iff hlast, ← committed_after_iff]
    constructor
    · intro honest
      obtain ⟨built, hbuilt, hcommitted⟩ := honest _ hrun
      rw [hstatement] at hbuilt
      cases hbuilt
      exact .inr hcommitted
    · rintro (⟨e, he⟩ | hcommitted) w' hw'
      · cases he
      · rw [hrun] at hw'
        cases hw'
        exact ⟨statement, hstatement, hcommitted⟩

end Honest

/-! Searches. -/

/-- The execution of this attempt is answered. -/
def Answers (db : DbType) (fetches : Cursor → Bool) (a : Attempt) : Prop :=
  ∃ x r, a.ran db = some x ∧ x.answer fetches = .ok r

def AnsweredInTime (db : DbType) (limit : Nat) (w : World) : Prop :=
  ∃ j ≤ limit, (∀ i < j, (w.attempt i).Retried Cursor.description db) ∧ Answers db Cursor.description (w.attempt j)

/-- The world in which the search itself begins, and the schema that was looked up for it. -/
inductive Prepared (x : XgenDb) (s : Search) (w : World) : World → List Row → Prop where
  | plain (h : s.needsSchema = false) : Prepared x s w w []
  | schema {k : Nat} (h : s.needsSchema = true) (hlast : Last x.dbType Cursor.description x.retryLimit w k) :
      Prepared x s w (w.after x.dbType Cursor.description (schemaStatement x.dbType s.tableName) (k+1))
        ((((w.attempt k).answer x.dbType Cursor.description).map Prod.snd).toOption.getD [])

/-- A list is the answer to the search; otherwise an exception comes out. -/
def SearchHonest (x : XgenDb) (s : Search) (w : World) : Prop :=
  ∀ rows w', (findRecordsByCondition x s).on w = (.ok rows, w') → ∀ w₁ schema, Prepared x s w w₁ schema →
    ∃ statement entries, s.statement x schema = .ok statement ∧ w'.log = w₁.log ++ entries ∧
      ⟨statement, rows, true⟩ ∈ entries

section Search
variable {db : DbType} {fetches : Cursor → Bool} {limit k : Nat} {statement : Statement} {s : Search} {w₁ : World}
  {schema : List Row} {e : DbError} {r : Cursor × List Row} {a : Attempt}

/-- An attempt that gives a value ran an execution that gives it. -/
theorem answer_ok_iff : a.answer db fetches = .ok r ↔ ∃ x, a.ran db = some x ∧ x.answer fetches = .ok r := by
  cases husable : a.usable with
  | false => simp [Attempt.answer, Attempt.ran, husable]
  | true =>
    cases db with
    | sqlite => simp [Attempt.answer, Attempt.ran, husable]
    | postgresql =>
      cases hconn : a.connection with
      | none => cases hexec : a.execution.answer fetches <;> simp [Attempt.answer, Attempt.ran, husable, hconn, hexec]
      | some e =>
        by_cases hrec : (e.isConnectionError && a.recovery) = true
        · cases hagain : a.again <;> simp [Attempt.answer, Attempt.ran, Attempt.rethrown, husable, hconn, hrec, hagain]
        · simp [Attempt.answer, Attempt.ran, Attempt.rethrown, husable, hconn, hrec]

theorem mem_entries_answered {entry : Entry} (h : entry ∈ a.entries db fetches statement) (hanswered : entry.answered = true) :
    Answers db fetches a := by
  unfold Attempt.entries at h
  cases hran : a.ran db with
  | none =>
    rw [hran] at h
    cases h
  | some x =>
    simp only [hran, Execution.entries] at h
    cases hread : x.reading fetches with
    | error e => simp [hread] at h
    | ok r =>
      cases hcommit : x.committed with
      | ok _ => exact ⟨x, r, hran, by simp [Execution.answer, hread, hcommit]⟩
      | error e =>
        rw [hread] at h
        cases hlands : x.lands with
        | false => simp [hlands] at h
        | true =>
          simp only [hlands, if_true, List.mem_singleton] at h
          rw [h] at hanswered
          simp [isOk, hcommit] at hanswered

theorem entry_of_answer (h : a.answer db fetches = .ok r) (statement : Statement) :
    ⟨statement, r.2, true⟩ ∈ a.entries db fetches statement := by
  obtain ⟨x, hran, hx⟩ := answer_ok_iff.mp h
  unfold Execution.answer at hx
  cases hread : x.reading fetches with
  | error e => simp [hread] at hx
  | ok r' =>
    cases hcommit : x.committed with
    | error e => simp [hread, hcommit] at hx
    | ok _ =>
      simp only [hread, hcommit, Except.ok.injEq] at hx
      simp [Attempt.entries, hran, Execution.entries, hread, Execution.lands, isOk, hcommit, hx]

/-- What keeps a search from being built is not tried again. -/
theorem statement_error (h : s.statement x schema = .error e) : isRetryable e = false := by
  have hcolumns : s.columns schema = .error e := by
    obtain hcolumns | ⟨_, _, h⟩ := Checks.bind_error h
    · exact hcolumns
    · cases h
  unfold Search.columns at hcolumns
  split at hcolumns
  · cases hcolumns
  split at hcolumns
  · cases hcolumns
  split at hcolumns
  · cases hcolumns
  obtain hnames | ⟨_, _, h⟩ := Checks.bind_error hcolumns
  · obtain ⟨col, _, hcol⟩ := Checks.mapM_error hnames
    unfold columnName at hcol
    split at hcol
    · cases hcol
      decide
    · cases hcol
    · cases hcol
      decide
  · cases h

theorem schema_on (hprep : Prepared x s w w₁ schema) : (schemaFor x s).on w = (.ok schema, w₁) := by
  cases hprep with
  | plain h => simp only [schemaFor, h, Bool.false_eq_true, if_false, Raising.on_pure]
  | schema h hlast =>
    simp only [schemaFor, h, if_true, getTableSchema, Raising.on_bind, executeQuery_on hlast, Raising.on_pure]

theorem find_unbuilt (hprep : Prepared x s w w₁ schema) (h : s.statement x schema = .error e) :
    (findRecordsByCondition x s).on w = (.error e, w₁) :=
  withAutoRecovery_final (by simp only [Raising.on_bind, schema_on hprep, Raising.on_lift, h])
    (statement_error h)

theorem find_built (hprep : Prepared x s w w₁ schema) (h : s.statement x schema = .ok statement)
    (hlast : Last x.dbType Cursor.description x.retryLimit w₁ k) :
    (findRecordsByCondition x s).on w =
      (.ok ((((w₁.attempt k).answer x.dbType Cursor.description).map Prod.snd).toOption.getD []),
        w₁.after x.dbType Cursor.description statement (k+1)) :=
  withAutoRecovery_ok (by
    simp only [Raising.on_bind, schema_on hprep, Raising.on_lift, h, executeQuery_on hlast, Raising.on_pure])

theorem answers_iff : Answers db fetches a ↔ ∃ r, a.answer db fetches = .ok r := by
  simp only [answer_ok_iff]
  exact exists_comm

/-- An answered attempt is the last one. -/
theorem last_of_answers {j : Nat} (hlast : Last db fetches limit w k) (hj : j ≤ limit)
    (hbefore : ∀ i < j, (w.attempt i).Retried fetches db) (hanswers : Answers db fetches (w.attempt j)) : j = k := by
  have hle := hlast.le_of hj hbefore
  by_contra hne
  obtain ⟨r, hr⟩ := answers_iff.mp hanswers
  obtain ⟨e, he, _⟩ := (hlast.before j (by omega)).error
  rw [hr] at he
  cases he

theorem searchHonest_iff (x : XgenDb) (s : Search) (w : World) :
    SearchHonest x s w ↔ ∀ w₁ schema, Prepared x s w w₁ schema →
      (∃ e, s.statement x schema = .error e) ∨ AnsweredInTime x.dbType x.retryLimit w₁ := by
  constructor
  · intro honest w₁ schema hprep
    cases hstatement : s.statement x schema with
    | error e => exact .inl ⟨e, rfl⟩
    | ok statement =>
      obtain ⟨k, hlast⟩ := exists_last x.dbType Cursor.description x.retryLimit w₁
      obtain ⟨built, entries, _, hlog, hentry⟩ := honest _ _ (find_built hprep hstatement hlast) w₁ schema hprep
      obtain rfl := List.append_cancel_left hlog
      obtain ⟨j, hj, hmem⟩ := List.mem_flatMap.mp hentry
      have hle := List.mem_range.mp hj
      have hk := hlast.le
      exact .inr ⟨j, by omega, fun i hi => hlast.before i (by omega), mem_entries_answered hmem rfl⟩
  · intro h rows w' hrun w₁ schema hprep
    cases hstatement : s.statement x schema with
    | error e =>
      rw [find_unbuilt hprep hstatement] at hrun
      cases hrun
    | ok statement =>
      obtain ⟨e, he⟩ | ⟨j, hj, hbefore, hanswers⟩ := h w₁ schema hprep
      · rw [hstatement] at he
        cases he
      · obtain ⟨k, hlast⟩ := exists_last x.dbType Cursor.description x.retryLimit w₁
        obtain rfl := last_of_answers hlast hj hbefore hanswers
        obtain ⟨r, hr⟩ := answers_iff.mp hanswers
        rw [find_built hprep hstatement hlast, hr] at hrun
        cases hrun
        exact ⟨statement, _, rfl, rfl, List.mem_flatMap.mpr ⟨j, List.mem_range.mpr (Nat.lt_succ_self j),
          entry_of_answer hr statement⟩⟩

end Search

/-- A write that says success happened, and a list of records is an answer,
exactly where the statement cannot be built or an attempt that is made succeeds. -/
theorem reports_honest_iff (x : XgenDb) (w : World) :
    (∀ write : Write, WriteHonest x write w ↔
      (∃ e, write.statement x = .error e) ∨ LandsInTime x.dbType (write.fetches x) x.retryLimit w) ∧
    ∀ s : Search, SearchHonest x s w ↔ ∀ w₁ schema, Prepared x s w w₁ schema →
      (∃ e, s.statement x schema = .error e) ∨ AnsweredInTime x.dbType x.retryLimit w₁ :=
  ⟨fun write => writeHonest_iff x write w, fun s => searchHonest_iff x s w⟩

/-! A delete that the database refuses. -/

def referenced : DbError := ⟨.other, "violates foreign key constraint", "violates foreign key constraint"⟩

def refuses : World where
  attempts _ := ⟨true, true, none, ⟨.error referenced, .ok [], .ok (), false⟩, true, none, ⟨.error referenced, .ok [], .ok (), false⟩⟩
  now := 0
  log := []

def postgres : XgenDb := ⟨.postgresql, 3, ⟨fun _ => "", fun _ => ""⟩, id⟩

theorem refused_delete_reports_success :
    ¬ ∀ (x : XgenDb) (write : Write) (w : World), WriteHonest x write w := by
  intro h
  obtain ⟨_, _, entries, hlog, entry, hentry, _⟩ :=
    h postgres (.deleteRecord "users" (.int 1)) refuses { refuses with now := 1 } rfl
  have hnone : entries = [] := (List.nil_append entries).symm.trans hlog.symm
  rw [hnone] at hentry
  cases hentry

end XgenSdk.Records
