import XgenSdk.Db.Reported
import XgenSdk.Db.Migrations
import XgenSdk.Lib.Runs

/-! `create_tables` and the unique indexes that it could not make. -/
namespace XgenSdk.UniqueIndexes
open XgenSdk.AppDb XgenSdk.Pool XgenSdk.Records
open XgenSdk.Migrations (IndexDef)

/-! What the database holds. -/

inductive Relation where
  | table (name : String)
  | index (name table columns : String) (unique : Bool)
  deriving DecidableEq, Repr

def Relation.name : Relation → String
  | table name => name
  | index name _ _ _ => name

/-- A registered model. `constraints`: the relations that its `CREATE TABLE` makes besides the table. -/
structure Model where
  className : String
  tableName : String
  createTableQuery : DbType → Except DbError String
  constraints : List Relation
  indexes : List IndexDef

inductive Ddl where
  | createTable (query name : String) (constraints : List Relation)
  | createIndex (tableName : String) (d : IndexDef)

def Ddl.text : Ddl → String
  | createTable query _ _ => query
  | createIndex tableName d =>
    "CREATE " ++ (if d.unique then "UNIQUE INDEX" else "INDEX") ++ " IF NOT EXISTS " ++ d.name ++ " ON " ++ tableName ++
      "(" ++ d.columns ++ ")"

/-- The name that `IF NOT EXISTS` looks for. -/
def Ddl.name : Ddl → String
  | createTable _ name _ => name
  | createIndex _ d => d.name

def Ddl.creates : Ddl → List Relation
  | createTable _ name constraints => .table name :: constraints
  | createIndex tableName d => [.index d.name tableName d.columns d.unique]

/-- An entry of `_unenforced_unique_indexes`. -/
structure Unenforced where
  table : String
  index : String
  columns : String
  reason : DbError

/-- The database manager's world, the relations of the database, whether the rows of
a table have duplicates in some columns, and what the manager remembers. -/
structure Site where
  world : World
  relations : List Relation
  duplicated : String → String → Bool
  unenforced : List Unenforced

def undefinedTable (tableName : String) : DbError := runtimeError ("relation \"" ++ tableName ++ "\" does not exist")

def uniqueViolation (index : String) : DbError := runtimeError ("could not create unique index \"" ++ index ++ "\"")

/-- The database's own reason to refuse the statement. -/
def Ddl.refusal (s : Site) : Ddl → Option DbError
  | createTable _ _ _ => none
  | createIndex tableName d =>
    if .table tableName ∉ s.relations then some (undefinedTable tableName)
    else if d.name ∉ s.relations.map Relation.name ∧ d.unique ∧ s.duplicated tableName d.columns then some (uniqueViolation d.name)
    else none

/-- The relations after the statement took effect. -/
def Ddl.applied (d : Ddl) (relations : List Relation) : List Relation :=
  if d.name ∈ relations.map Relation.name then relations else relations ++ d.creates

/-- An execution that the database refuses, unless it fails before. -/
def refusing (refusal : Option DbError) (x : Execution) : Execution :=
  match refusal, x.executed with
  | some e, .ok _ => { x with executed := .error e }
  | _, _ => x

def refusingAttempt (refusal : Option DbError) (a : Attempt) : Attempt :=
  { a with execution := refusing refusal a.execution, executionAgain := refusing refusal a.executionAgain }

def refusingWorld (refusal : Option DbError) (w : World) : World :=
  { w with attempts := fun n => refusingAttempt refusal (w.attempts n) }

/-! `create_tables`. -/

/-- `execute_query` of a statement on the database. -/
def execute (x : XgenDb) (d : Ddl) : Raising Site DbError (Option (List Row)) := fun s =>
  let (r, w) := (executeQuery x.dbType x.retryLimit (d.text, [])).on (refusingWorld (d.refusal s) s.world)
  (r, { s with
    world := { w with attempts := s.world.attempts }
    relations := if s.world.log.length < w.log.length then d.applied s.relations else s.relations })

def createIndex (x : XgenDb) (tableName : String) (d : IndexDef) : Raising Site DbError Unit :=
  Raising.handle (do let _ ← execute x (.createIndex tableName d)) fun e =>
    if d.unique then Raising.write fun s => { s with unenforced := s.unenforced ++ [⟨tableName, d.name, d.columns, e⟩] }
    else pure ()

def configPathIndex : IndexDef := ⟨"idx_config_path", "config_path", false⟩

def createModel (x : XgenDb) (m : Model) : Raising Site DbError Unit := do
  let query ← Raising.lift (m.createTableQuery x.dbType)
  let _ ← execute x (.createTable query m.tableName m.constraints)
  m.indexes.forM (createIndex x m.tableName)
  if m.className = "PersistentConfigModel" then
    Raising.handle (do let _ ← execute x (.createIndex "persistent_configs" configPathIndex)) fun _ => pure ()

def createTables (x : XgenDb) (models : List Model) : Raising Site DbError Bool :=
  Raising.handle (do models.forM (createModel x); pure true) fun _ => pure false

def unenforcedUniqueIndexes (s : Site) : List Unenforced := s.unenforced

/-! One statement. -/

section Step
variable {x : XgenDb} {d : Ddl} {s : Site} {r : Relation}

def after (x : XgenDb) (s : Site) (d : Ddl) : Site := ((execute x d).on s).2

/-- The statement takes effect where no relation has its name, and brings this one. -/
structure Makes (x : XgenDb) (d : Ddl) (s : Site) (r : Relation) : Prop where
  creates : r ∈ d.creates
  free : d.name ∉ s.relations.map Relation.name
  accepted : d.refusal s = none
  lands : LandsInTime x.dbType Cursor.description x.retryLimit s.world

theorem refusingWorld_none (w : World) : refusingWorld none w = w := rfl

theorem not_lands_refusing (e : DbError) (x : Execution) : ¬ (refusing (some e) x).Lands Cursor.description := by
  rintro ⟨⟨r, hread⟩, -⟩
  unfold Execution.reading refusing at hread
  cases hexec : x.executed <;> simp [hexec] at hread

theorem not_lands_refusingAttempt (db : DbType) (e : DbError) (a : Attempt) :
    ¬ (refusingAttempt (some e) a).Lands db Cursor.description := by
  rintro ⟨y, hran, hlands⟩
  have hy : y = refusing (some e) a.execution ∨ y = refusing (some e) a.executionAgain := by
    unfold Attempt.ran at hran
    split at hran
    · cases hran
    · cases db with
      | sqlite => exact .inl (Option.some.inj hran).symm
      | postgresql =>
        dsimp only at hran
        split at hran
        · exact .inl (Option.some.inj hran).symm
        · split at hran
          · exact .inr (Option.some.inj hran).symm
          · cases hran
  obtain rfl | rfl := hy
  · exact not_lands_refusing e _ hlands
  · exact not_lands_refusing e _ hlands

/-- A statement that the database refuses does not take effect, whatever its tries meet. -/
theorem landsInTime_refusing {refusal : Option DbError} {db : DbType} {limit : Nat} {w : World} :
    LandsInTime db Cursor.description limit (refusingWorld refusal w) ↔
      refusal = none ∧ LandsInTime db Cursor.description limit w := by
  cases refusal with
  | none => rw [refusingWorld_none, eq_self_iff_true, true_and]
  | some e =>
    refine iff_of_false ?_ fun h => Option.some_ne_none e h.1
    rintro ⟨j, -, -, hlands⟩
    exact not_lands_refusingAttempt db e _ hlands

theorem executeQuery_total (db : DbType) (limit : Nat) (statement : Statement) (w : World) : ∃ rows w',
    (executeQuery db limit statement).on w = (.ok rows, w') ∧
      (w.log.length < w'.log.length ↔ LandsInTime db Cursor.description limit w) := by
  obtain ⟨k, hlast⟩ := exists_last db Cursor.description limit w
  refine ⟨_, _, executeQuery_on hlast, ?_⟩
  rw [landsInTime_iff hlast, ← @committed_after_iff w db Cursor.description (k + 1) statement]
  constructor
  · intro hlength
    rw [World.after, List.length_append] at hlength
    obtain ⟨entry, hentry⟩ := List.exists_mem_of_length_pos (Nat.lt_add_right_iff_pos.mp hlength)
    obtain ⟨j, -, hj⟩ := List.mem_flatMap.mp hentry
    exact ⟨_, rfl, entry, hentry, (mem_entries hj).1⟩
  · rintro ⟨entries, hlog, entry, hentry, -⟩
    rw [hlog, List.length_append]
    exact Nat.lt_add_of_pos_right (List.length_pos_of_mem hentry)

/-- `execute_query` raises nothing. -/
theorem execute_on (x : XgenDb) (d : Ddl) (s : Site) : ∃ rows, (execute x d).on s = (.ok rows, after x s d) := by
  obtain ⟨rows, w, hon, -⟩ := executeQuery_total x.dbType x.retryLimit (d.text, []) (refusingWorld (d.refusal s) s.world)
  have hanswer := congrArg Prod.fst hon
  exact ⟨rows, Prod.ext hanswer rfl⟩

theorem after_unenforced : (after x s d).unenforced = s.unenforced := rfl

theorem mem_after_iff : r ∈ (after x s d).relations ↔ r ∈ s.relations ∨ Makes x d s r := by
  obtain ⟨rows, w, hon, hlog⟩ := executeQuery_total x.dbType x.retryLimit (d.text, []) (refusingWorld (d.refusal s) s.world)
  have hrelations : (after x s d).relations = if s.world.log.length < w.log.length then d.applied s.relations else s.relations := by
    change (if s.world.log.length < ((executeQuery x.dbType x.retryLimit (d.text, [])).on
      (refusingWorld (d.refusal s) s.world)).2.log.length then d.applied s.relations else s.relations) = _
    rw [hon]
  rw [landsInTime_refusing] at hlog
  rw [hrelations]
  by_cases hlands : s.world.log.length < w.log.length
  · obtain ⟨haccepted, hintime⟩ := hlog.mp hlands
    rw [if_pos hlands, Ddl.applied]
    by_cases hname : d.name ∈ s.relations.map Relation.name
    · rw [if_pos hname]
      exact ⟨.inl, fun h => h.elim id fun hmakes => absurd hname hmakes.free⟩
    · rw [if_neg hname, List.mem_append]
      exact or_congr_right ⟨fun h => ⟨h, hname, haccepted, hintime⟩, Makes.creates⟩
  · rw [if_neg hlands]
    exact ⟨.inl, fun h => h.elim id fun hmakes => absurd (hlog.mpr ⟨hmakes.accepted, hmakes.lands⟩) hlands⟩

end Step

/-! A run of statements. -/

section Run
variable {x : XgenDb} {s t : Site} {r : Relation}

def run (x : XgenDb) (ds : List Ddl) (s : Site) : Site := ds.foldl (after x) s

theorem run_cons (d : Ddl) (ds : List Ddl) (s : Site) : run x (d :: ds) s = run x ds (after x s d) := rfl

theorem run_append (ds es : List Ddl) (s : Site) : run x (ds ++ es) s = run x es (run x ds s) := List.foldl_append

theorem run_unenforced (ds : List Ddl) (s : Site) : (run x ds s).unenforced = s.unenforced := by
  induction ds generalizing s with
  | nil => rfl
  | cons d ds ih => exact (ih (after x s d)).trans after_unenforced

/-- A relation is there at the end if it was at the beginning, or a statement of the run made it. -/
theorem mem_run_iff {ds : List Ddl} : r ∈ (run x ds s).relations ↔
    r ∈ s.relations ∨ ∃ front d rest, ds = front ++ d :: rest ∧ Makes x d (run x front s) r := by
  induction ds using List.reverseRecOn with
  | nil =>
    refine ⟨.inl, fun h => h.elim id ?_⟩
    rintro ⟨front, d, rest, hds, -⟩
    cases front <;> cases hds
  | append_singleton ds d ih =>
    rw [run_append, show run x [d] (run x ds s) = after x (run x ds s) d from rfl, mem_after_iff, ih, or_assoc]
    refine or_congr_right ⟨?_, ?_⟩
    · rintro (⟨front, d', rest, hds, hmakes⟩ | hmakes)
      · exact ⟨front, d', rest ++ [d], Runs.concat_eq_iff.mpr (.inr ⟨rest, rfl, hds⟩), hmakes⟩
      · exact ⟨ds, d, [], rfl, hmakes⟩
    · rintro ⟨front, d', rest, hsplit, hmakes⟩
      obtain ⟨rfl, rfl, -⟩ | ⟨rest, -, hds⟩ := Runs.concat_eq_iff.mp hsplit
      · exact .inr hmakes
      · exact .inl ⟨front, d', rest, hds, hmakes⟩

/-- The statements of a model, in order. -/
def Model.statements (db : DbType) (m : Model) : Except DbError (List Ddl) :=
  (m.createTableQuery db).map fun query =>
    .createTable query m.tableName m.constraints :: m.indexes.map (.createIndex m.tableName) ++
      if m.className = "PersistentConfigModel" then [.createIndex "persistent_configs" configPathIndex] else []

theorem handled_on (x : XgenDb) (d : Ddl) (h : DbError → Raising Site DbError Unit) (s : Site) :
    (Raising.handle (do let _ ← execute x d) h).on s = (.ok (), after x s d) := by
  obtain ⟨rows, hon⟩ := execute_on x d s
  rw [Raising.on_handle_ok]
  rw [Raising.on_bind_ok hon]
  rfl

/-- The handler of a failed unique index has nothing to handle. -/
theorem createIndex_on (x : XgenDb) (tableName : String) (d : IndexDef) (s : Site) :
    (createIndex x tableName d).on s = (.ok (), after x s (.createIndex tableName d)) := handled_on x _ _ s

theorem createIndexes_on (tableName : String) (ds : List IndexDef) (s : Site) :
    (ds.forM (createIndex x tableName)).on s = (.ok (), run x (ds.map (.createIndex tableName)) s) := by
  induction ds generalizing s with
  | nil => rfl
  | cons d ds ih =>
    rw [List.forM, Raising.on_bind_ok (createIndex_on x tableName d s), ih]
    rfl

theorem createModel_on (m : Model) (s : Site) : (createModel x m).on s = match m.statements x.dbType with
    | .error e => (.error e, s)
    | .ok ds => (.ok (), run x ds s) := by
  unfold createModel Model.statements
  cases m.createTableQuery x.dbType with
  | error e => rfl
  | ok query =>
    obtain ⟨rows, hon⟩ := execute_on x (.createTable query m.tableName m.constraints) s
    rw [Raising.on_bind_ok (Raising.on_lift _ s), Raising.on_bind_ok hon, Raising.on_bind_ok (createIndexes_on _ _ _)]
    dsimp only [Except.map]
    rw [List.cons_append, run_cons, run_append]
    by_cases hclass : m.className = "PersistentConfigModel"
    · rw [if_pos hclass, if_pos hclass, handled_on]
      rfl
    · rw [if_neg hclass, if_neg hclass]
      rfl

theorem createModels_on (models : List Model) (s : Site) :
    (∃ e t, models.mapM (Model.statements x.dbType) = .error e ∧ (models.forM (createModel x)).on s = (.error e, t)) ∨
    ∃ dss, models.mapM (Model.statements x.dbType) = .ok dss ∧ (models.forM (createModel x)).on s = (.ok (), run x dss.flatten s) := by
  induction models generalizing s with
  | nil => exact .inr ⟨[], rfl, rfl⟩
  | cons m models ih =>
    rw [List.forM, Raising.on_bind, createModel_on, List.mapM_cons]
    cases m.statements x.dbType with
    | error e => exact .inl ⟨e, s, rfl, rfl⟩
    | ok ds =>
      obtain ⟨e, t, hdss, hon⟩ | ⟨dss, hdss, hon⟩ := ih (run x ds s)
      · exact .inl ⟨e, t, by rw [hdss]; rfl, hon⟩
      · refine .inr ⟨ds :: dss, by rw [hdss]; rfl, ?_⟩
        rw [List.flatten_cons, run_append]
        exact hon

theorem createTables_true_iff {models : List Model} : (createTables x models).on s = (.ok true, t) ↔
    ∃ dss, models.mapM (Model.statements x.dbType) = .ok dss ∧ t = run x dss.flatten s := by
  rw [createTables, Raising.on_handle, Raising.on_bind]
  obtain ⟨e, u, hdss, hon⟩ | ⟨dss, hdss, hon⟩ := createModels_on models s
  · rw [hon, hdss]
    refine iff_of_false (fun h => ?_) ?_
    · cases h
    · rintro ⟨_, h, -⟩
      cases h
  · rw [hon, hdss]
    constructor
    · intro h
      cases h
      exact ⟨dss, rfl, rfl⟩
    · rintro ⟨_, h, rfl⟩
      cases h
      rfl

/-- A unique index on columns with duplicates is not made. -/
theorem not_makes_of_duplicated {tableName : String} {d : IndexDef} (hunique : d.unique = true)
    (h : s.duplicated tableName d.columns = true) : ¬ Makes x (.createIndex tableName d) s r := by
  intro hmakes
  have haccepted := hmakes.accepted
  unfold Ddl.refusal at haccepted
  dsimp only at haccepted
  split at haccepted
  · cases haccepted
  · rw [if_pos ⟨hmakes.free, hunique, h⟩] at haccepted
    cases haccepted

end Run

/-! The declared unique indexes. -/

def declared (models : List Model) : List Relation :=
  models.flatMap fun m => (m.indexes.filter IndexDef.unique).map fun d => .index d.name m.tableName d.columns d.unique

/-- The index is in the database, or on the list of those that are not. -/
def Accounted (s : Site) (r : Relation) : Prop :=
  r ∈ s.relations ∨ ∃ u ∈ unenforcedUniqueIndexes s, r = .index u.index u.table u.columns true

/-- Some statement of the run, in the state that it finds, makes the relation. -/
def Made (x : XgenDb) (models : List Model) (s : Site) (r : Relation) : Prop :=
  ∃ dss front d rest, models.mapM (Model.statements x.dbType) = .ok dss ∧ dss.flatten = front ++ d :: rest ∧
    Makes x d (run x front s) r

/-- Every declared unique index is in the database or on the list exactly if none has to be on the list. -/
theorem accounted_iff_made (x : XgenDb) (models : List Model) (s t : Site) (hfresh : s.unenforced = [])
    (hrun : (createTables x models).on s = (.ok true, t)) :
    (∀ r ∈ declared models, Accounted t r) ↔ ∀ r ∈ declared models, r ∈ s.relations ∨ Made x models s r := by
  obtain ⟨dss, hdss, rfl⟩ := createTables_true_iff.mp hrun
  refine forall₂_congr fun r _ => ?_
  have hlist : unenforcedUniqueIndexes (run x dss.flatten s) = [] := (run_unenforced dss.flatten s).trans hfresh
  rw [Accounted, hlist, mem_run_iff]
  constructor
  · rintro ((hbefore | ⟨front, d, rest, hsplit, hmakes⟩) | ⟨u, hu, -⟩)
    · exact .inl hbefore
    · exact .inr ⟨dss, front, d, rest, hdss, hsplit, hmakes⟩
    · cases hu
  · rintro (hbefore | ⟨dss', front, d, rest, hdss', hsplit, hmakes⟩)
    · exact .inl (.inl hbefore)
    · rw [hdss] at hdss'
      cases hdss'
      exact .inl (.inr ⟨front, d, rest, hsplit, hmakes⟩)

def deployMeta : Model where
  className := "DeployMeta"
  tableName := "deploy_meta"
  createTableQuery _ := .ok "CREATE TABLE IF NOT EXISTS deploy_meta (id SERIAL PRIMARY KEY, workflow_id TEXT)"
  constraints := [.index "deploy_meta_pkey" "deploy_meta" "id" true]
  indexes := [⟨"uq_deploy_meta_workflow", "workflow_id", true⟩]

def works : Execution := ⟨.ok ⟨false, 0, none⟩, .ok [], .ok (), true⟩

/-- A database that answers, with the table there and its rows as given. -/
def site (duplicated : Bool) : Site where
  world := { attempts := fun _ => ⟨true, true, none, works, true, none, works⟩, now := 0, log := [] }
  relations := [.table "deploy_meta"]
  duplicated _ _ := duplicated
  unenforced := []

def tableStatement : Ddl :=
  .createTable "CREATE TABLE IF NOT EXISTS deploy_meta (id SERIAL PRIMARY KEY, workflow_id TEXT)" "deploy_meta" deployMeta.constraints

def indexStatement : Ddl := .createIndex "deploy_meta" ⟨"uq_deploy_meta_workflow", "workflow_id", true⟩

theorem deployMeta_statements : [deployMeta].mapM (Model.statements .postgresql) = .ok [[tableStatement, indexStatement]] := rfl

theorem site_run (duplicated : Bool) : (createTables postgres [deployMeta]).on (site duplicated) =
    (.ok true, run postgres [tableStatement, indexStatement] (site duplicated)) :=
  createTables_true_iff.mpr ⟨_, deployMeta_statements, rfl⟩

theorem after_table (duplicated : Bool) {r : Relation} :
    r ∈ (run postgres [tableStatement] (site duplicated)).relations ↔ r = .table "deploy_meta" := by
  refine mem_after_iff.trans (Iff.trans ⟨fun h => h.elim id fun hmakes => ?_, .inl⟩ List.mem_singleton)
  exact absurd (List.mem_singleton.mpr rfl) hmakes.free

theorem indexStatement_makes :
    Makes postgres indexStatement (run postgres [tableStatement] (site false))
      (.index "uq_deploy_meta_workflow" "deploy_meta" "workflow_id" true) where
  creates := List.mem_singleton.mpr rfl
  free := by
    rw [List.mem_map]
    rintro ⟨r, hr, hname⟩
    rw [(after_table false).mp hr] at hname
    revert hname
    decide
  accepted := by
    unfold Ddl.refusal indexStatement
    dsimp only
    rw [if_neg (not_not_intro ((after_table false).mpr rfl)), if_neg fun h => Bool.false_ne_true h.2.2]
  lands := ⟨0, Nat.zero_le _, fun i hi => absurd hi (Nat.not_lt_zero i), works, rfl, ⟨_, rfl⟩, rfl⟩

/-- Without duplicates the index is made. -/
theorem accounted_deployMeta :
    (site false).unenforced = [] ∧
      ∀ r ∈ declared [deployMeta], Accounted (run postgres [tableStatement, indexStatement] (site false)) r := by
  refine ⟨rfl, (accounted_iff_made postgres [deployMeta] (site false) _ rfl (site_run false)).mpr fun r hr => .inr ?_⟩
  rw [List.mem_singleton.mp hr]
  exact ⟨_, [tableStatement], indexStatement, [], deployMeta_statements, rfl, indexStatement_makes⟩

/-- With duplicates it is neither made nor listed. -/
theorem duplicates_unaccounted : ¬ ∀ (x : XgenDb) (models : List Model) (s t : Site), s.unenforced = [] →
    (createTables x models).on s = (.ok true, t) → ∀ r ∈ declared models, Accounted t r := by
  intro h
  obtain hmade | ⟨u, hu, -⟩ := h postgres [deployMeta] (site true) _ rfl (site_run true) _ (List.mem_singleton.mpr rfl)
  · obtain hbefore | hmakes := mem_after_iff.mp hmade
    · cases (after_table true).mp hbefore
    · exact not_makes_of_duplicated rfl rfl hmakes
  · cases hu

end XgenSdk.UniqueIndexes
