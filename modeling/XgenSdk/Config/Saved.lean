import XgenSdk.Config.Stores
import XgenSdk.Config.Manager

/-! A setting that is reported as saved is stored. -/
namespace XgenSdk.Config
open XgenSdk.Py XgenSdk.Interleave
variable {pr : Process} {m m' : Memory} {t : Prog.Trace Reply}

/-! The calls that store a value. -/

def isSaving : Stmt → Bool
  | .redisSet .. => true
  | .dbUpsert _ => true
  | .dbUpdate _ => true
  | .dbInsert _ => true
  | _ => false

abbrev SavesNothing {α : Type} (x : Call α) : Prop := OnlyCalls (fun s => isSaving s = false) x

theorem ensureConnection_savesNothing (pr : Process) : SavesNothing (ensureConnection pr) := by
  refine only_bind only_get fun m => only_ite (only_pure _) (only_bind (only_ask rfl) fun now => only_bind only_get fun m' => ?_)
  refine only_ite (only_pure _) (only_bind (only_ask rfl) fun now' => only_bind (only_modify _) fun _ => ?_)
  exact only_bind (only_ask rfl) fun connected => only_bind (only_modify _) fun _ => only_pure _

theorem rememberDbMiss_savesNothing (envName : String) (missing : Bool) : SavesNothing (rememberDbMiss envName missing) :=
  only_ite (only_modify _) (only_bind (only_ask rfl) fun _ => only_modify _)

theorem isDbAvailable_savesNothing (db : Option DbKind) : SavesNothing (isDbAvailable db) := by
  unfold isDbAvailable
  cases db with
  | none => exact only_pure _
  | some kind => exact only_ask rfl

theorem executeQueryOne_savesNothing (column : Column) (key : String) : SavesNothing (executeQueryOne column key) := by
  refine only_bind (only_ask rfl) fun r => ?_
  cases r with
  | failed => exact only_pure _
  | ok row => exact only_pure _

/-- What `saveToRedis` stores, and whether it reports it. -/
inductive RedisSaves (envName : String) (payload : Fields) : Prog.Trace Reply → Bool → Prop where
  | unconnected : RedisSaves envName payload [] false
  | failed : RedisSaves envName payload [⟨.redisSet envName payload false, .failed⟩] false
  | stored (stamp : Nat) (listed : Bool) : RedisSaves envName payload [⟨.redisSet envName payload false, .ok stamp⟩] listed

def isDbSaving : Stmt → Bool
  | .dbUpsert _ => true
  | .dbUpdate _ => true
  | .dbInsert _ => true
  | _ => false

theorem RedisSaves.not_db {envName : String} {payload : Fields} {saved : Bool} (h : RedisSaves envName payload t saved)
    {call : (s : Stmt) × Reply s} (hcall : call ∈ t) (hdb : isDbSaving call.1 = true) : False := by
  cases h with
  | unconnected => exact absurd hcall List.not_mem_nil
  | failed =>
    rw [List.mem_singleton.mp hcall] at hdb
    cases hdb
  | stored stamp listed =>
    rw [List.mem_singleton.mp hcall] at hdb
    cases hdb

theorem saveToRedis_saves {envName : String} {payload : Fields} {category : String} {saved : Bool}
    (h : (saveToRedis pr envName payload category m).Gives t (saved, m')) : RedisSaves envName payload (callsOf isSaving t) saved := by
  unfold saveToRedis at h
  have hstart := gives_modify h
  clear h
  obtain ⟨first, connected, m₁, rest, hconnect, hrest, rfl⟩ := gives_call hstart
  clear hstart
  rw [callsOf_append, callsOf_of_only (ensureConnection_savesNothing pr) hconnect, List.nil_append]
  cases connected with
  | false =>
    obtain ⟨rfl, rfl, rfl⟩ := gives_pure hrest
    exact .unconnected
  | true =>
    obtain ⟨r, last, rfl, hset⟩ := gives_ask hrest
    clear hrest
    rw [callsOf_cons_pos (by rfl)]
    cases r with
    | failed =>
      have hend := gives_modify hset
      obtain ⟨rfl, rfl, rfl⟩ := gives_pure hend
      exact .failed
    | ok stamp =>
      have hadd := gives_modify hset
      clear hset
      obtain ⟨r₂, last₂, rfl, hadded⟩ := gives_ask hadd
      rw [callsOf_cons_neg (by rfl)]
      cases r₂ with
      | failed =>
        have hend := gives_modify hadded
        obtain ⟨rfl, rfl, rfl⟩ := gives_pure hend
        exact .stored stamp false
      | ok done =>
        obtain ⟨r₃, last₃, rfl, hincr⟩ := gives_ask hadded
        rw [callsOf_cons_neg (by rfl)]
        cases r₃ with
        | failed =>
          obtain ⟨rfl, rfl, rfl⟩ := gives_pure hincr
          exact .stored stamp true
        | ok answer =>
          have hend := gives_modify hincr
          obtain ⟨rfl, rfl, rfl⟩ := gives_pure hend
          exact .stored stamp true

/-- What `saveToDb` stores, and whether it reports it. -/
inductive DbSaves (pr : Process) (row : Row) : Prog.Trace Reply → Bool → Prop where
  | nothing : DbSaves pr row [] false
  | upsert (h : pr.managerDb = some .pool) (r : Answer Unit) : DbSaves pr row [⟨.dbUpsert row, r⟩] true
  | update (h : pr.managerDb = some .appDb) (count : Nat) : DbSaves pr row [⟨.dbUpdate row, .ok count⟩] (count > 0)
  | insert (h : pr.managerDb = some .appDb) : DbSaves pr row [⟨.dbInsert row, .ok ()⟩] true
  | updateFailed (h : pr.managerDb = some .appDb) : DbSaves pr row [⟨.dbUpdate row, .failed⟩] false
  | insertFailed (h : pr.managerDb = some .appDb) : DbSaves pr row [⟨.dbInsert row, .failed⟩] false

/-- The row of a setting. -/
def rowOf (pr : Process) (configPath : String) (value : Json) (dataType envName : String) : Row :=
  ⟨configPath, some (Serializer.safeSerialize pr.lib value), dataType, envName⟩

theorem saveToDb_saves {configPath : String} {value : Json} {dataType envName : String} {saved : Bool}
    (hname : orText envName configPath = envName) (h : (saveToDb pr configPath value dataType envName m).Gives t (saved, m')) :
    DbSaves pr (rowOf pr configPath value dataType envName) (callsOf isSaving t) saved := by
  unfold saveToDb at h
  cases hkind : pr.managerDb with
  | none =>
    rw [hkind] at h
    obtain ⟨rfl, rfl, rfl⟩ := gives_pure h
    exact .nothing
  | some kind =>
    rw [hkind] at h
    cases kind with
    | appDb =>
      dsimp only at h
      unfold updateDbConfig at h
      obtain ⟨first, found, m₁, rest, hselect, hrest, rfl⟩ := gives_call h
      clear h
      rw [callsOf_append, callsOf_of_only (executeQueryOne_savesNothing _ _) hselect, List.nil_append]
      cases found with
      | some row =>
        obtain ⟨r, last, rfl, hlast⟩ := gives_ask hrest
        cases r with
        | failed =>
          obtain ⟨rfl, rfl, rfl⟩ := gives_pure hlast
          exact .updateFailed hkind
        | ok count =>
          obtain ⟨rfl, rfl, rfl⟩ := gives_pure hlast
          exact .update hkind count
      | none =>
        obtain ⟨r, last, rfl, hlast⟩ := gives_ask hrest
        cases r with
        | failed =>
          obtain ⟨rfl, rfl, rfl⟩ := gives_pure hlast
          exact .insertFailed hkind
        | ok done =>
          obtain ⟨rfl, rfl, rfl⟩ := gives_pure hlast
          exact .insert hkind
    | pool =>
      dsimp only at h
      obtain ⟨first, available, m₁, rest, hfirst, hrest, rfl⟩ := gives_call h
      clear h
      rw [callsOf_append, callsOf_of_only (isDbAvailable_savesNothing _) hfirst, List.nil_append]
      cases available with
      | false =>
        obtain ⟨rfl, rfl, rfl⟩ := gives_pure hrest
        exact .nothing
      | true =>
        have hset : (setDbConfig pr (some .pool) configPath value dataType envName m₁).Gives rest (saved, m') := hrest
        unfold setDbConfig at hset
        obtain ⟨second, available', m₂, last, hsecond, hlast, rfl⟩ := gives_call hset
        rw [callsOf_append, callsOf_of_only (isDbAvailable_savesNothing _) hsecond, List.nil_append]
        cases available' with
        | false =>
          obtain ⟨rfl, rfl, rfl⟩ := gives_pure hlast
          exact .nothing
        | true =>
          obtain ⟨r, tail, rfl, hend⟩ := gives_ask hlast
          obtain ⟨rfl, rfl, rfl⟩ := gives_pure hend
          rw [hname]
          exact .upsert hkind r

/-! The report of `set_config`. -/

/-- The arguments of `set_config`. -/
structure Setting where
  configPath : String
  configValue : Json
  dataType : String
  category : String
  envName : String

/-- `final_env_name`. -/
def Setting.finalName (s : Setting) : String := orText s.envName s.configPath

def Setting.payload (pr : Process) (s : Setting) : Fields :=
  payloadOf (cleaned pr s.configValue s.dataType) s.dataType (orText s.category (firstSegment s.configPath)) s.configPath s.finalName

def Setting.row (pr : Process) (s : Setting) : Row :=
  rowOf pr s.configPath (cleaned pr s.configValue s.dataType) s.dataType s.finalName

/-- Redis took the value. -/
def RedisTook (pr : Process) (s : Setting) (t : Prog.Trace Reply) : Prop :=
  ∃ stamp, ⟨.redisSet s.finalName (s.payload pr) false, .ok stamp⟩ ∈ t

/-- A statement of the database took the row. -/
def DbTook (pr : Process) (s : Setting) (t : Prog.Trace Reply) : Prop :=
  ⟨.dbUpsert (s.row pr), .ok ()⟩ ∈ t ∨ ⟨.dbInsert (s.row pr), .ok ()⟩ ∈ t ∨ ∃ count > 0, ⟨.dbUpdate (s.row pr), .ok count⟩ ∈ t

/-- The statement of `set_db_config` fails, and Redis did not take the value. -/
def FailsSilently (pr : Process) (s : Setting) (t : Prog.Trace Reply) : Prop :=
  pr.managerDb = some .pool ∧ ⟨.dbUpsert (s.row pr), .failed⟩ ∈ t ∧ ¬RedisTook pr s t

theorem finalName_eq (s : Setting) : orText s.finalName s.configPath = s.finalName := by
  unfold Setting.finalName orText
  split
  · split <;> simp_all
  · rfl

theorem setConfig_saves {s : Setting} {saved : Bool}
    (h : (setConfig pr s.configPath s.configValue s.dataType s.category s.envName m).Gives t (saved, m')) :
    ∃ u v redisOk dbOk, callsOf isSaving t = u ++ v ∧ RedisSaves s.finalName (s.payload pr) u redisOk ∧ DbSaves pr (s.row pr) v dbOk ∧
      saved = (redisOk || dbOk) := by
  unfold setConfig at h
  obtain ⟨first, redisOk, m₁, rest, hredis, hrest, rfl⟩ := gives_call h
  obtain ⟨noted, _, m₂, rest₂, hnoted, hrest₂, rfl⟩ := gives_call hrest
  have hforget := gives_modify hrest₂
  obtain ⟨last, dbOk, m₃, rest₃, hdb, hrest₃, rfl⟩ := gives_call hforget
  obtain ⟨rfl, rfl, rfl⟩ := gives_pure hrest₃
  refine ⟨_, _, redisOk, dbOk, ?_, saveToRedis_saves hredis, saveToDb_saves (finalName_eq s) hdb, rfl⟩
  rw [callsOf_append, callsOf_append, callsOf_append, callsOf_of_only (rememberDbMiss_savesNothing _ _) hnoted, callsOf_nil,
    List.append_nil, List.nil_append]

theorem reported_saved_iff {s : Setting}
    (h : (setConfig pr s.configPath s.configValue s.dataType s.category s.envName m).Gives t (true, m')) :
    RedisTook pr s t ∨ DbTook pr s t ↔ ¬FailsSilently pr s t := by
  obtain ⟨u, v, redisOk, dbOk, hsaves, hredis, hdb, hreport⟩ := setConfig_saves h
  have hmem : ∀ {call : (s : Stmt) × Reply s}, isSaving call.1 = true → (call ∈ t ↔ call ∈ u ++ v) := by
    intro call hcall
    rw [← hsaves]
    exact mem_callsOf hcall
  have htook : RedisTook pr s t ↔ ∃ stamp, ⟨.redisSet s.finalName (s.payload pr) false, .ok stamp⟩ ∈ u ++ v :=
    exists_congr fun stamp => hmem rfl
  have hdbTook : DbTook pr s t ↔ ⟨.dbUpsert (s.row pr), .ok ()⟩ ∈ u ++ v ∨ ⟨.dbInsert (s.row pr), .ok ()⟩ ∈ u ++ v ∨
      ∃ count > 0, ⟨.dbUpdate (s.row pr), .ok count⟩ ∈ u ++ v :=
    or_congr (hmem rfl) (or_congr (hmem rfl) (exists_congr fun count => and_congr_right fun _ => hmem rfl))
  have hsilent : FailsSilently pr s t ↔ pr.managerDb = some .pool ∧ ⟨.dbUpsert (s.row pr), .failed⟩ ∈ u ++ v ∧ ¬RedisTook pr s t :=
    and_congr_right fun _ => and_congr_left fun _ => hmem rfl
  rw [hsilent, hdbTook]
  by_cases hredisTook : RedisTook pr s t
  · exact iff_of_true (.inl hredisTook) fun hs => hs.2.2 hredisTook
  · -- Redis did not report the value, so the database did.
    have hredisOk : redisOk = false := by
      cases hredis with
      | unconnected => rfl
      | failed => rfl
      | stored stamp listed => exact absurd (htook.mpr ⟨stamp, List.mem_append_left v List.mem_cons_self⟩) hredisTook
    have hdbOk : dbOk = true := by
      rw [hredisOk, Bool.false_or] at hreport
      exact hreport.symm
    have hlast : ∀ {call : (s : Stmt) × Reply s}, call ∈ v → call ∈ u ++ v := fun hcall => List.mem_append_right u hcall
    subst hdbOk
    generalize hok : true = dbOk at hdb
    cases hdb with
    | nothing => cases hok
    | updateFailed _ => cases hok
    | insertFailed _ => cases hok
    | update happ count =>
      have hcount : count > 0 := by simpa using hok.symm
      refine iff_of_true (.inr (.inr (.inr ⟨count, hcount, hlast List.mem_cons_self⟩))) fun hs => ?_
      rw [happ] at hs
      cases hs.1
    | insert happ =>
      refine iff_of_true (.inr (.inr (.inl (hlast List.mem_cons_self)))) fun hs => ?_
      rw [happ] at hs
      cases hs.1
    | upsert hpool r =>
      cases r with
      | ok done =>
        refine iff_of_true (.inr (.inl (hlast List.mem_cons_self))) fun hs => ?_
        obtain hcall | hcall := List.mem_append.mp hs.2.1
        · exact hredis.not_db hcall rfl
        · simp at hcall
      | failed =>
        refine iff_of_false ?_ (not_not_intro ⟨hpool, hlast List.mem_cons_self, hredisTook⟩)
        rintro (htook | hcall | hcall | ⟨count, -, hcall⟩)
        · exact hredisTook htook
        all_goals
          obtain hcall | hcall := List.mem_append.mp hcall
          · exact hredis.not_db hcall rfl
          · simp at hcall

/-! The table of settings is locked, and the answer is that the setting was saved. -/

def poolProcess : Process := ⟨⟨1, 30, 2, 5, 10⟩, some .pool, none, ⟨fun _ => none, fun _ => "", fun _ => none⟩⟩

def theme : Setting := ⟨"app.theme", .str "dark", "string", "app", "THEME"⟩

/-- Redis is away, and every statement of the database fails. -/
def nothingWorks : (s : Stmt) → Reply s
  | .clock => 100
  | .connect => false
  | .redisGet _ => .failed
  | .redisVersion => .failed
  | .redisSet .. => .failed
  | .redisAdd .. => .failed
  | .redisIncr .. => .failed
  | .dbAvailable => true
  | .dbSelect .. => .failed
  | .dbUpsert _ => .failed
  | .dbUpdate _ => .failed
  | .dbInsert _ => .failed
  | .note _ => ()

def saveRun : Prog.Trace Reply × (Bool × Memory) :=
  (setConfig poolProcess theme.configPath theme.configValue theme.dataType theme.category theme.envName freshMemory).replay nothingWorks

theorem saveRun_gives : (setConfig poolProcess theme.configPath theme.configValue theme.dataType theme.category theme.envName freshMemory).Gives
    saveRun.1 (true, saveRun.2.2) := Prog.gives_replay _ _

theorem nothing_saved : ¬∀ (pr : Process) (m m' : Memory) (t : Prog.Trace Reply) (s : Setting),
    (setConfig pr s.configPath s.configValue s.dataType s.category s.envName m).Gives t (true, m') → RedisTook pr s t ∨ DbTook pr s t := by
  intro h
  have hsaves : callsOf isSaving saveRun.1 =
      [⟨.redisSet theme.finalName (theme.payload poolProcess) false, .failed⟩, ⟨.dbUpsert (theme.row poolProcess), .failed⟩] := by rfl
  have hmem : ∀ {call : (s : Stmt) × Reply s}, isSaving call.1 = true → call ∈ saveRun.1 →
      call = ⟨.redisSet theme.finalName (theme.payload poolProcess) false, .failed⟩ ∨ call = ⟨.dbUpsert (theme.row poolProcess), .failed⟩ := by
    intro call hcall hin
    rw [mem_callsOf hcall, hsaves] at hin
    simpa using hin
  obtain ⟨stamp, hcall⟩ | hcall | hcall | ⟨count, -, hcall⟩ := h _ _ _ _ theme saveRun_gives
  all_goals
    have hfailed := hmem (by rfl) hcall
    simp at hfailed

theorem reported_saved_iff_theme : RedisTook poolProcess theme saveRun.1 ∨ DbTook poolProcess theme saveRun.1 ↔
    ¬FailsSilently poolProcess theme saveRun.1 := reported_saved_iff saveRun_gives

end XgenSdk.Config
