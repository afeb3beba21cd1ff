import XgenSdk.Config.Manager
import Mathlib.Logic.Function.Basic
import Mathlib.Logic.Relation

/-! The deletion of a setting from Redis and the table, for every way its calls can fail, and the
probes of its name that come afterwards. -/
namespace XgenSdk.Config.Deleted
open XgenSdk.Py XgenSdk.Interleave Relation

/-! The stores. -/

/-- What stands under a key of a setting. -/
inductive Entry where
  | payload (fields : Fields)
  /-- A text that is no JSON. -/
  | unreadable

/-- The keys of the settings, the sets of the categories, and the table `persistent_configs`. -/
structure Stores where
  redis : String → Option Entry
  members : String → List String
  rows : List Row

namespace Stores
variable (s : Stores)

def columnOf : Column → Row → String
  | .configPath, row => row.configPath
  | .envName, row => row.envName

/-- `SELECT … LIMIT 1`. -/
def select (column : Column) (key : String) : Option Row := s.rows.find? fun row => columnOf column row = key

def deleteRows (column : Column) (key : String) : Stores := { s with rows := s.rows.filter fun row => columnOf column row ≠ key }

def set (envName : String) (entry : Option Entry) : Stores := { s with redis := Function.update s.redis envName entry }

/-- `SADD`. -/
def add (category envName : String) : Stores :=
  { s with members := Function.update s.members category (if envName ∈ s.members category then s.members category
      else s.members category ++ [envName]) }

/-- `SREM`. -/
def remove (category envName : String) : Stores :=
  { s with members := Function.update s.members category ((s.members category).filter (· ≠ envName)) }

end Stores

/-! The deletion. -/

/-- What becomes of a call that writes: it may take effect and be reported as a failure. -/
inductive Fate where
  | done | failed | unheard
  deriving DecidableEq, Repr

def Fate.takesEffect (f : Fate) : Prop := f ≠ .failed

instance (f : Fate) : Decidable f.takesEffect := inferInstanceAs (Decidable (f ≠ .failed))

/-- What becomes of the calls of a deletion, in their order: `GET`, the check of the pool and the two lookups, `DEL`, `SREM`, the
check of the pool and the two deletions, `INCR`. -/
structure Fates where
  get : Bool
  available : Bool
  lookup : Column → Bool
  delete : Fate
  remove : Fate
  availableAgain : Bool
  deleteRows : Column → Fate
  incr : Option Int

section Code
variable (pr : Process) (f : Fates)

/-- `get_config`; a failure is logged and gives `None`. -/
def getConfig (envName : String) (s : Stores) : Option Fields :=
  if f.get then
    match s.redis envName with
    | some (.payload fields) => some fields
    | _ => none
  else none

/-- `_probe_db_row(env_name, env_name)`: the row, where the status is `ok`. -/
def probeRow (envName : String) (s : Stores) : Option DbRow :=
  if pr.managerDb.isSome && f.available then
    ((lookups envName envName).findSome? fun l => if f.lookup l.1 then s.select l.1 l.2 else none).map (readRow pr envName envName)
  else none

/-- `config_data.get('path')` and `config_data.get('category')`. -/
structure Metadata where
  path : Json
  category : Json

def metadataOfRow (envName : String) (row : DbRow) : Metadata :=
  let path := orText row.configPath envName
  ⟨.str path, if path.toList.contains '.' then .str (firstSegment path) else .null⟩

def metadata (envName : String) (s : Stores) : Option Metadata :=
  match (getConfig f envName s).filter fun fields => !fields.isEmpty with
  | some fields => some ⟨Json.get "path" (.obj fields), Json.get "category" (.obj fields)⟩
  | none => (probeRow pr f envName s).map (metadataOfRow envName)

def deleteFromRedis (category : Json) (envName : String) (s : Stores) : Stores :=
  let s := if f.delete.takesEffect then s.set envName none else s
  if f.delete = .done ∧ category.truthy ∧ f.remove.takesEffect then s.remove category.toStr envName else s

/-- One round of the loop of `delete_db_config`; a failure is swallowed by `execute_query`. -/
def deleteColumn (column : Column) (value : Json) (s : Stores) : Stores :=
  match value with
  | .str key => if key ≠ "" ∧ (f.deleteRows column).takesEffect then s.deleteRows column key else s
  -- What is no text is in no row.
  | _ => s

/-- `delete_db_config`. -/
def deleteDbConfig (configPath : Json) (envName : String) (s : Stores) : Bool × Stores :=
  if f.availableAgain then
    (configPath.truthy || envName ≠ "", deleteColumn f .envName (.str envName) (deleteColumn f .configPath configPath s))
  else (false, s)

/-- The end of `delete_config`: the version, and `forget_cached_values`. -/
def forgotten (m : Memory) : Memory :=
  { m with
    lastWriteVersion := f.incr.getD m.lastWriteVersion
    vc := { m.vc with values := .empty, checkedAt := none } }

/-- `delete_config`. -/
def deleteConfig (envName : String) (s : Stores) (m : Memory) : Bool × Stores × Memory :=
  match metadata pr f envName s with
  | none => (false, s, m)
  | some config =>
    let s := if m.connectionAvailable then deleteFromRedis f config.category envName s else s
    let s := if pr.managerDb.isSome then (deleteDbConfig f config.path envName s).2 else s
    (true, s, forgotten f m)

end Code

/-! The probes. -/

/-- What `json.loads` reads under a key, if anything can be read. -/
def readable : Option Entry → Option (Option Fields)
  | none => some none
  | some (.payload fields) => some (some fields)
  | some .unreadable => none

/-- How the stores answer a call of a probe, and what it makes of them; where they are reached, no call fails. -/
def Answered (reached : Prop) : (st : Stmt) → Reply st → Stores → Stores → Prop
  | .redisGet envName, r, s, s' => s' = s ∧
      ((r = .failed ∧ (reached → readable (s.redis envName) = none)) ∨
        ∃ fields stamp, readable (s.redis envName) = some fields ∧ r = .ok (fields, stamp))
  | .redisSet envName payload _, r, s, s' => s' = s.set envName (some (.payload payload)) ∨ (r = .failed ∧ ¬ reached ∧ s' = s)
  | .redisAdd category envName, r, s, s' => s' = s.add category envName ∨ (r = .failed ∧ ¬ reached ∧ s' = s)
  | .dbSelect column key, r, s, s' => s' = s ∧ (r = .ok (s.select column key) ∨ (r = .failed ∧ ¬ reached))
  | .connect, r, s, s' => s' = s ∧ (reached → r = true)
  | .dbAvailable, r, s, s' => s' = s ∧ (reached → r = true)
  | _, _, s, s' => s' = s

def Answers (reached : Prop) : Stores → Prog.Trace Reply → Stores → Prop
  | s, [], s' => s' = s
  | s, call :: t, s' => ∃ s₁, Answered reached call.1 call.2 s s₁ ∧ Answers reached s₁ t s'

/-- A part of the code, run on the stores. -/
def Runs {α : Type} (reached : Prop) (x : Call α) (m : Memory) (s : Stores) (a : α) (m' : Memory) (s' : Stores) : Prop :=
  ∃ t, (x m).Gives t (a, m') ∧ Answers reached s t s'

/-- What happens after a deletion: probes of the name whose calls may fail, and whatever does not write the setting. -/
inductive Later (pr : Process) (envName : String) : Stores × Memory → Stores × Memory → Prop where
  | probe {s s' : Stores} {m m' : Memory} {p : Probe} (h : Runs False (probeValue pr envName "") m s p m' s') :
      Later pr envName (s, m) (s', m')
  | other {s s' : Stores} {m m' : Memory} (hredis : s'.redis envName = s.redis envName)
      (hrows : ∀ row, row.envName = envName → (row ∈ s'.rows ↔ row ∈ s.rows))
      (hcached : ∀ hit, m'.vc.values.get (envName, "") = some hit → m.vc.values.get (envName, "") = some hit) :
      Later pr envName (s, m) (s', m')

/-- No probe that reaches both stores returns a value any more. -/
def Durable (pr : Process) (envName : String) (s : Stores) (m : Memory) : Prop :=
  ∀ s₁ m₁, ReflTransGen (Later pr envName) (s, m) (s₁, m₁) →
    ∀ p m₂ s₂, Runs True (probeValue pr envName "") m₁ s₁ p m₂ s₂ → p.status ≠ .ok

/-- Redis holds the setting. -/
def InRedis (envName : String) (s : Stores) : Prop :=
  ∃ fields value, s.redis envName = some (.payload fields) ∧ Json.lookup "value" fields = some value

/-- The database holds it. -/
def InDb (pr : Process) (envName : String) (s : Stores) : Prop :=
  pr.managerDb.isSome = true ∧ envName ≠ "" ∧ ∃ row ∈ s.rows, row.envName = envName

/-- A deletion that returns `True` is durable, and has cleared the stores that held the setting. -/
structure Deletes (pr : Process) (f : Fates) (envName : String) (s : Stores) (m : Memory) : Prop where
  durable : (deleteConfig pr f envName s m).1 = true →
    Durable pr envName (deleteConfig pr f envName s m).2.1 (deleteConfig pr f envName s m).2.2
  reported : (deleteConfig pr f envName s m).1 = true →
    (InRedis envName s → ¬ InRedis envName (deleteConfig pr f envName s m).2.1) ∧
      (InDb pr envName s → ¬ InDb pr envName (deleteConfig pr f envName s m).2.1)

/-- The deletion takes effect in every store that holds the setting. -/
structure TakesEffect (pr : Process) (f : Fates) (envName : String) (s : Stores) (m : Memory) (path : Json) : Prop where
  redis : InRedis envName s → m.connectionAvailable = true ∧ f.delete.takesEffect
  db : InDb pr envName s → f.availableAgain = true ∧
    ((f.deleteRows .envName).takesEffect ∨
      ((f.deleteRows .configPath).takesEffect ∧ ∀ row ∈ s.rows, row.envName = envName → row.configPath ≠ "" ∧ path = .str row.configPath))

section Runs
variable {α β : Type} {reached : Prop} {x : Call α} {m m' : Memory} {s s' : Stores} {b : β}

/-! Runs of the code. -/

theorem answers_append {t u : Prog.Trace Reply} (h : Answers reached s (t ++ u) s') :
    ∃ s₁, Answers reached s t s₁ ∧ Answers reached s₁ u s' := by
  induction t generalizing s with
  | nil => exact ⟨s, rfl, h⟩
  | cons call t ih =>
    obtain ⟨s₁, hcall, hrest⟩ := h
    obtain ⟨s₂, ht, hu⟩ := ih hrest
    exact ⟨s₂, ⟨s₁, hcall, ht⟩, hu⟩

theorem runs_bind {f : α → Call β} (h : Runs reached (x >>= f) m s b m' s') :
    ∃ a m₁ s₁, Runs reached x m s a m₁ s₁ ∧ Runs reached (f a) m₁ s₁ b m' s' := by
  obtain ⟨t, hgives, hanswers⟩ := h
  obtain ⟨a, first, m₁, rest, hx, hf, rfl⟩ := gives_call hgives
  obtain ⟨s₁, hfirst, hrest⟩ := answers_append hanswers
  exact ⟨first, m₁, s₁, ⟨a, hx, hfirst⟩, rest, hf, hrest⟩

theorem runs_ask {st : Stmt} {f : Reply st → Call β} (h : Runs reached (ask st >>= f) m s b m' s') :
    ∃ r s₁, Answered reached st r s s₁ ∧ Runs reached (f r) m s₁ b m' s' := by
  obtain ⟨t, hgives, hanswers⟩ := h
  obtain ⟨r, rest, rfl, hf⟩ := gives_ask hgives
  obtain ⟨s₁, hcall, hrest⟩ := hanswers
  exact ⟨r, s₁, hcall, rest, hf, hrest⟩

theorem runs_get {f : Memory → Call β} (h : Runs reached (get >>= f) m s b m' s') : Runs reached (f m) m s b m' s' := by
  obtain ⟨t, hgives, hanswers⟩ := h
  exact ⟨t, gives_get hgives, hanswers⟩

theorem runs_modify {g : Memory → Memory} {f : PUnit → Call β} (h : Runs reached (modify g >>= f) m s b m' s') :
    Runs reached (f ()) (g m) s b m' s' := by
  obtain ⟨t, hgives, hanswers⟩ := h
  exact ⟨t, gives_modify hgives, hanswers⟩

theorem runs_pure {a : β} (h : Runs reached (pure a) m s b m' s') : b = a ∧ m' = m ∧ s' = s := by
  obtain ⟨t, hgives, hanswers⟩ := h
  obtain ⟨rfl, hb, hm⟩ := gives_pure hgives
  exact ⟨hb, hm, hanswers⟩

/-- The stores can answer every call. -/
theorem answered_total (st : Stmt) (s : Stores) : ∃ r s', Answered True st r s s' := by
  cases st with
  | redisGet envName =>
    cases hentry : readable (s.redis envName) with
    | none => exact ⟨.failed, s, rfl, .inl ⟨rfl, fun _ => hentry⟩⟩
    | some fields => exact ⟨.ok (fields, 0), s, rfl, .inr ⟨fields, 0, hentry, rfl⟩⟩
  | redisSet envName payload restored => exact ⟨.ok 0, _, .inl rfl⟩
  | redisAdd category envName => exact ⟨.ok (), _, .inl rfl⟩
  | dbSelect column key => exact ⟨.ok (s.select column key), s, rfl, .inl rfl⟩
  | connect => exact ⟨true, s, rfl, fun _ => rfl⟩
  | dbAvailable => exact ⟨true, s, rfl, fun _ => rfl⟩
  | clock => exact ⟨0, s, rfl⟩
  | redisVersion => exact ⟨.failed, s, rfl⟩
  | redisIncr envName stamp => exact ⟨.failed, s, rfl⟩
  | dbUpsert row => exact ⟨.failed, s, rfl⟩
  | dbUpdate row => exact ⟨.failed, s, rfl⟩
  | dbInsert row => exact ⟨.failed, s, rfl⟩
  | note n => exact ⟨(), s, rfl⟩

theorem runs_total (x : Call α) (m : Memory) (s : Stores) : ∃ a m' s', Runs True x m s a m' s' := by
  have hprog : ∀ (p : Prog Reply Empty (α × Memory)) (s : Stores), ∃ t a s', p.Gives t a ∧ Answers True s t s' := by
    intro p
    induction p with
    | done a => exact fun s => ⟨[], a, s, ⟨rfl, rfl⟩, rfl⟩
    | raise e => exact e.elim
    | act st next ih =>
      intro s
      obtain ⟨r, s₁, hcall⟩ := answered_total st s
      obtain ⟨t, a, s', hgives, hanswers⟩ := ih r s₁
      exact ⟨⟨st, r⟩ :: t, a, s', ⟨r, t, rfl, hgives⟩, s₁, hcall, hanswers⟩
  obtain ⟨t, a, s', hgives, hanswers⟩ := hprog (x m) s
  exact ⟨a.1, a.2, s', t, hgives, hanswers⟩

end Runs

section Probes
variable {pr : Process} {reached : Prop} {m m' : Memory} {s s' : Stores} {envName : String}

/-! One probe. -/

/-- What the parts of a probe leave alone: what is remembered, but for what they forget. -/
structure Keeps (m m' : Memory) : Prop where
  values : ∀ key hit, m'.vc.values.get key = some hit → m.vc.values.get key = some hit
  missed : m'.dbMissAt = m.dbMissAt
  connected : m.connectionAvailable = true → m'.connectionAvailable = true

theorem Keeps.refl (m : Memory) : Keeps m m := ⟨fun _ _ h => h, rfl, fun h => h⟩

theorem Keeps.trans {m₁ m₂ m₃ : Memory} (h : Keeps m₁ m₂) (h' : Keeps m₂ m₃) : Keeps m₁ m₃ where
  values key hit hhit := h.values key hit (h'.values key hit hhit)
  missed := h'.missed.trans h.missed
  connected hc := h'.connected (h.connected hc)

theorem ensureConnection_keeps {connected : Bool} (h : Runs reached (ensureConnection pr) m s connected m' s') :
    s' = s ∧ Keeps m m' ∧ (m.connectionAvailable = true → connected = true) := by
  unfold ensureConnection at h
  have hstart := runs_get h
  cases hm : m.connectionAvailable with
  | true =>
    rw [hm, if_pos rfl] at hstart
    obtain ⟨rfl, rfl, rfl⟩ := runs_pure hstart
    exact ⟨rfl, .refl _, fun _ => rfl⟩
  | false =>
    rw [hm, if_neg Bool.false_ne_true] at hstart
    obtain ⟨now, _, rfl, hclock⟩ := runs_ask hstart
    have hcool := runs_get hclock
    split at hcool
    · obtain ⟨rfl, rfl, rfl⟩ := runs_pure hcool
      exact ⟨rfl, .refl _, fun hc => absurd hc Bool.false_ne_true⟩
    · obtain ⟨now', _, rfl, hattempt⟩ := runs_ask hcool
      have hconnect := runs_modify hattempt
      obtain ⟨up, _, ⟨rfl, -⟩, hup⟩ := runs_ask hconnect
      have hend := runs_modify hup
      obtain ⟨rfl, rfl, rfl⟩ := runs_pure hend
      exact ⟨rfl, ⟨fun _ _ hit => hit, rfl, fun hc => absurd (hm.symm.trans hc) Bool.false_ne_true⟩,
        fun hc => absurd hc Bool.false_ne_true⟩

theorem noteVersion_keeps {version : Option Int} {u : Unit} (h : Runs reached (noteVersion version) m s u m' s') :
    s' = s ∧ Keeps m m' := by
  unfold noteVersion at h
  obtain ⟨now, _, rfl, hnow⟩ := runs_ask h
  obtain ⟨t, hgives, hanswers⟩ := hnow
  obtain ⟨rfl, -, rfl⟩ := gives_pure hgives
  refine ⟨hanswers, fun key hit hhit => ?_, rfl, fun hc => hc⟩
  dsimp only at hhit
  split at hhit
  · rw [Dict.get_empty] at hhit
    cases hhit
  · exact hhit

theorem probeConfigVersion_keeps {version : Option Int} (h : Runs reached (probeConfigVersion pr) m s version m' s') :
    s' = s ∧ Keeps m m' := by
  unfold probeConfigVersion at h
  obtain ⟨connected, m₁, _, hconnect, hrest⟩ := runs_bind h
  obtain ⟨rfl, hkeeps, -⟩ := ensureConnection_keeps hconnect
  split at hrest
  · obtain ⟨rfl, rfl, rfl⟩ := runs_pure hrest
    exact ⟨rfl, hkeeps⟩
  · obtain ⟨r, _, rfl, hread⟩ := runs_ask hrest
    cases r with
    | failed =>
      obtain ⟨rfl, rfl, rfl⟩ := runs_pure hread
      exact ⟨rfl, hkeeps⟩
    | ok answer =>
      obtain ⟨u, m₂, _, hnote, hend⟩ := runs_bind hread
      obtain ⟨rfl, hnoted⟩ := noteVersion_keeps hnote
      obtain ⟨rfl, rfl, rfl⟩ := runs_pure hend
      exact ⟨rfl, hkeeps.trans hnoted⟩

theorem resetEpoch_keeps (m : Memory) : Keeps m m.resetEpoch := by
  unfold Memory.resetEpoch
  split
  · refine ⟨fun key hit hhit => ?_, rfl, fun hc => hc⟩
    rw [Dict.get_empty] at hhit
    cases hhit
  · exact .refl m

theorem knownVersion_keeps {version : Option Int} (h : Runs reached (knownVersion pr) m s version m' s') : s' = s ∧ Keeps m m' := by
  unfold knownVersion at h
  obtain ⟨now, _, rfl, hnow⟩ := runs_ask h
  have hreset := runs_modify hnow
  have hstart := runs_get hreset
  clear hnow hreset
  split at hstart
  · obtain ⟨rfl, rfl, rfl⟩ := runs_pure hstart
    exact ⟨rfl, resetEpoch_keeps m⟩
  · have hrefresh := runs_modify hstart
    obtain ⟨v, m₁, _, hversion, hrest⟩ := runs_bind hrefresh
    obtain ⟨rfl, hkeeps⟩ := probeConfigVersion_keeps hversion
    have hdone := runs_modify hrest
    have hlast := runs_get hdone
    obtain ⟨rfl, rfl, rfl⟩ := runs_pure hlast
    have hall := (resetEpoch_keeps m).trans ⟨hkeeps.values, hkeeps.missed, hkeeps.connected⟩
    exact ⟨rfl, hall.values, hall.missed, hall.connected⟩

theorem erase_keeps (m : Memory) (key : String × String) :
    Keeps m { m with vc := { m.vc with values := m.vc.values.erase key } } := by
  refine ⟨fun other hit hhit => ?_, rfl, fun hc => hc⟩
  dsimp only at hhit
  rw [Dict.get_erase] at hhit
  split at hhit
  · cases hhit
  · exact hhit

/-- What is served was remembered. -/
theorem remembered_keeps {key : String × String} {version : Option Int} {found : Option Probe}
    (h : Runs reached (remembered pr key version) m s found m' s') :
    s' = s ∧ Keeps m m' ∧ ∀ p, found = some p → ∃ hit, m.vc.values.get key = some hit ∧ hit.probe = p := by
  unfold remembered at h
  have hstart := runs_get h
  clear h
  cases version with
  | none =>
    obtain ⟨rfl, rfl, rfl⟩ := runs_pure hstart
    exact ⟨rfl, .refl _, fun p hp => by cases hp⟩
  | some v =>
    cases hget : m.vc.values.get key with
    | none =>
      rw [hget] at hstart
      obtain ⟨rfl, rfl, rfl⟩ := runs_pure hstart
      exact ⟨rfl, .refl _, fun p hp => by cases hp⟩
    | some hit =>
      rw [hget] at hstart
      dsimp only at hstart
      split at hstart
      · obtain ⟨now, _, rfl, hnow⟩ := runs_ask hstart
        split at hnow
        · obtain ⟨u, _, rfl, hnote⟩ := runs_ask hnow
          obtain ⟨rfl, rfl, rfl⟩ := runs_pure hnote
          exact ⟨rfl, .refl _, fun p hp => ⟨hit, rfl, Option.some.inj hp⟩⟩
        · have hend := runs_modify hnow
          obtain ⟨rfl, rfl, rfl⟩ := runs_pure hend
          exact ⟨rfl, erase_keeps m key, fun p hp => by cases hp⟩
      · have hend := runs_modify hstart
        obtain ⟨rfl, rfl, rfl⟩ := runs_pure hend
        exact ⟨rfl, erase_keeps m key, fun p hp => by cases hp⟩

theorem readable_payload {entry : Option Entry} {fields : Fields} (h : readable entry = some (some fields)) :
    entry = some (.payload fields) := by
  cases entry with
  | none => cases h
  | some e =>
    cases e with
    | unreadable => cases h
    | payload fields' => rw [Option.some.inj (Option.some.inj h)]

theorem probeRedisValue_reads {result : Status × Json × Nat} (h : Runs reached (probeRedisValue pr envName) m s result m' s') :
    s' = s ∧ Keeps m m' ∧ (result.1 = .ok → InRedis envName s) ∧
      (reached → m.connectionAvailable = true → InRedis envName s → result.1 = .ok) := by
  unfold probeRedisValue at h
  obtain ⟨connected, m₁, _, hconnect, hrest⟩ := runs_bind h
  obtain ⟨rfl, hkeeps, hup⟩ := ensureConnection_keeps hconnect
  cases connected with
  | false =>
    obtain ⟨rfl, rfl, rfl⟩ := runs_pure hrest
    exact ⟨rfl, hkeeps, fun hok => (by cases hok), fun _ hc => absurd (hup hc) Bool.false_ne_true⟩
  | true =>
    obtain ⟨r, _, ⟨rfl, hanswer⟩, hread⟩ := runs_ask hrest
    clear h hconnect hrest
    obtain ⟨rfl, hreached⟩ | ⟨fields, stamp, hentry, rfl⟩ := hanswer
    · obtain ⟨rfl, rfl, rfl⟩ := runs_pure hread
      refine ⟨rfl, hkeeps, fun hok => (by cases hok), ?_⟩
      rintro hr - ⟨fields, value, hfields, -⟩
      have hnone := hreached hr
      rw [hfields] at hnone
      cases hnone
    · cases fields with
      | none =>
        obtain ⟨rfl, rfl, rfl⟩ := runs_pure hread
        refine ⟨rfl, hkeeps, fun hok => (by cases hok), ?_⟩
        rintro - - ⟨fields, value, hfields, -⟩
        rw [hfields] at hentry
        cases hentry
      | some fields =>
        have hpayload := readable_payload hentry
        dsimp only at hread
        cases hvalue : Json.lookup "value" fields with
        | none =>
          rw [hvalue] at hread
          obtain ⟨rfl, rfl, rfl⟩ := runs_pure hread
          refine ⟨rfl, hkeeps, fun hok => (by cases hok), ?_⟩
          rintro - - ⟨fields', value, hfields, hvalue'⟩
          obtain rfl := Entry.payload.inj (Option.some.inj (hpayload.symm.trans hfields))
          cases hvalue.symm.trans hvalue'
        | some value =>
          rw [hvalue] at hread
          obtain ⟨rfl, rfl, rfl⟩ := runs_pure hread
          exact ⟨rfl, hkeeps, fun _ => ⟨fields, value, hpayload, hvalue⟩, fun _ _ _ => rfl⟩

theorem dbMissRecent_reads {recent : Bool} (h : Runs reached (dbMissRecent pr envName) m s recent m' s') :
    s' = s ∧ m' = m ∧ (recent = true → m.dbMissAt.get envName ≠ none) := by
  unfold dbMissRecent at h
  have hstart := runs_get h
  cases hseen : m.dbMissAt.get envName with
  | none =>
    rw [hseen] at hstart
    obtain ⟨rfl, rfl, rfl⟩ := runs_pure hstart
    exact ⟨rfl, rfl, fun hr => absurd hr Bool.false_ne_true⟩
  | some since =>
    rw [hseen] at hstart
    obtain ⟨now, _, rfl, hnow⟩ := runs_ask hstart
    split at hnow
    · obtain ⟨u, _, rfl, hnote⟩ := runs_ask hnow
      obtain ⟨rfl, rfl, rfl⟩ := runs_pure hnote
      exact ⟨rfl, rfl, fun _ => Option.some_ne_none since⟩
    · obtain ⟨rfl, rfl, rfl⟩ := runs_pure hnow
      exact ⟨rfl, rfl, fun _ => Option.some_ne_none since⟩

theorem rememberDbMiss_keeps {missing : Bool} {u : Unit} (h : Runs reached (rememberDbMiss envName missing) m s u m' s') :
    s' = s ∧ m'.vc = m.vc ∧ m'.connectionAvailable = m.connectionAvailable := by
  unfold rememberDbMiss at h
  split at h
  · obtain ⟨t, hgives, hanswers⟩ := h
    obtain ⟨rfl, -, rfl⟩ := gives_pure hgives
    exact ⟨hanswers, rfl, rfl⟩
  · obtain ⟨now, _, rfl, hnow⟩ := runs_ask h
    obtain ⟨t, hgives, hanswers⟩ := hnow
    obtain ⟨rfl, -, rfl⟩ := gives_pure hgives
    exact ⟨hanswers, rfl, rfl⟩

theorem select_name (s : Stores) (envName : String) :
    (s.select .envName envName).isSome = true ↔ ∃ row ∈ s.rows, row.envName = envName := by
  rw [Stores.select, List.find?_isSome]
  constructor
  · rintro ⟨row, hrow, h⟩
    exact ⟨row, hrow, of_decide_eq_true h⟩
  · rintro ⟨row, hrow, h⟩
    exact ⟨row, hrow, decide_eq_true h⟩

theorem executeQueryOne_reads {column : Column} {key : String} {found : Option Row}
    (h : Runs reached (executeQueryOne column key) m s found m' s') :
    s' = s ∧ m' = m ∧ (found = none ∨ found = s.select column key) ∧ (reached → found = s.select column key) := by
  unfold executeQueryOne at h
  obtain ⟨r, _, ⟨rfl, hanswer⟩, hrest⟩ := runs_ask h
  obtain rfl | ⟨rfl, hunreached⟩ := hanswer
  · obtain ⟨rfl, rfl, rfl⟩ := runs_pure hrest
    exact ⟨rfl, rfl, .inr rfl, fun _ => rfl⟩
  · obtain ⟨rfl, rfl, rfl⟩ := runs_pure hrest
    exact ⟨rfl, rfl, .inl rfl, fun hr => absurd hr hunreached⟩

theorem firstRow_reads {found : Option Row} (h : Runs reached (firstRow (lookups envName "")) m s found m' s') :
    s' = s ∧ m' = m ∧ (found.isSome = true → envName ≠ "" ∧ ∃ row ∈ s.rows, row.envName = envName) ∧
      (reached → envName ≠ "" → (∃ row ∈ s.rows, row.envName = envName) → found.isSome = true) := by
  by_cases hname : envName = ""
  · subst hname
    obtain ⟨rfl, rfl, rfl⟩ := runs_pure h
    exact ⟨rfl, rfl, fun hsome => absurd hsome Bool.false_ne_true, fun _ hne => absurd rfl hne⟩
  · have hlookups : lookups envName "" = [(.envName, envName)] := by simp [lookups, hname]
    rw [hlookups] at h
    obtain ⟨row, m₁, s₁, hquery, hrest⟩ := runs_bind h
    obtain ⟨rfl, rfl, hfound, hreached⟩ := executeQueryOne_reads hquery
    have hsame : found = row ∧ m' = m₁ ∧ s' = s₁ := by
      cases row with
      | none => exact runs_pure hrest
      | some row => exact runs_pure hrest
    obtain ⟨rfl, rfl, rfl⟩ := hsame
    refine ⟨rfl, rfl, fun hsome => ⟨hname, ?_⟩, fun hr _ hrow => ?_⟩
    · obtain hnone | hselect := hfound
      · rw [hnone] at hsome
        cases hsome
      · rw [hselect] at hsome
        exact (select_name s' envName).mp hsome
    · rw [hreached hr]
      exact (select_name s' envName).mpr hrow

/-- The lookup of a name alone. -/
theorem probeDbRow_reads {result : Status × Option DbRow} (h : Runs reached (probeDbRow pr envName "") m s result m' s') :
    s' = s ∧ m' = m ∧ (result.2.isSome = true → InDb pr envName s) ∧
      (reached → InDb pr envName s → result.1 = .ok ∧ result.2.isSome = true) := by
  unfold probeDbRow at h
  split at h
  · rename_i hnone
    obtain ⟨rfl, rfl, rfl⟩ := runs_pure h
    refine ⟨rfl, rfl, fun hsome => absurd hsome Bool.false_ne_true, fun _ hdb => ?_⟩
    have hsome := hdb.1
    rw [Option.isNone_iff_eq_none.mp hnone] at hsome
    exact absurd hsome Bool.false_ne_true
  · rename_i hdb
    obtain ⟨kind, hkind⟩ := Option.ne_none_iff_exists'.mp fun hnone => hdb (Option.isNone_iff_eq_none.mpr hnone)
    have hmanager : pr.managerDb.isSome = true := by rw [hkind]; rfl
    rw [hkind] at h
    obtain ⟨up, _, ⟨rfl, hup⟩, hrest⟩ := runs_ask h
    split at hrest
    · rename_i hdown
      obtain ⟨rfl, rfl, rfl⟩ := runs_pure hrest
      refine ⟨rfl, rfl, fun hsome => absurd hsome Bool.false_ne_true, fun hr _ => ?_⟩
      rw [hup hr] at hdown
      exact absurd hdown Bool.false_ne_true
    · obtain ⟨row, m₁, s₁, hquery, hend⟩ := runs_bind hrest
      obtain ⟨rfl, rfl, hfound, hreached⟩ := firstRow_reads hquery
      cases row with
      | none =>
        obtain ⟨rfl, rfl, rfl⟩ := runs_pure hend
        exact ⟨rfl, rfl, fun hsome => absurd hsome Bool.false_ne_true,
          fun hr hin => absurd (hreached hr hin.2.1 hin.2.2) Bool.false_ne_true⟩
      | some row =>
        obtain ⟨rfl, rfl, rfl⟩ := runs_pure hend
        exact ⟨rfl, rfl, fun _ => ⟨hmanager, hfound rfl⟩, fun _ _ => ⟨rfl, rfl⟩⟩

theorem restoreToRedis_keeps {row : DbRow} {u : Unit} (h : Runs reached (restoreToRedis row) m s u m' s') : m' = m := by
  unfold restoreToRedis at h
  have hstart := runs_get h
  split at hstart
  · exact (runs_pure hstart).2.1
  · split at hstart
    · exact (runs_pure hstart).2.1
    · obtain ⟨r, s₁, -, hset⟩ := runs_ask hstart
      cases r with
      | failed => exact (runs_pure hset).2.1
      | ok stamp =>
        obtain ⟨r', s₂, -, hadd⟩ := runs_ask hset
        exact (runs_pure hadd).2.1

/-- What a probe past the cache reads. -/
structure Reads (pr : Process) (reached : Prop) (envName : String) (m m' : Memory) (s s' : Stores) (p : Probe) : Prop where
  values : ∀ key hit, m'.vc.values.get key = some hit → m.vc.values.get key = some hit
  sound : p.status = .ok → InRedis envName s ∨ InDb pr envName s
  unrestored : ¬ InDb pr envName s → s' = s
  complete : reached → m.connectionAvailable = true → m.dbMissAt.get envName = none → InRedis envName s ∨ InDb pr envName s → p.status = .ok

theorem probeValueUncached_reads {p : Probe} (h : Runs reached (probeValueUncached pr envName "") m s p m' s') :
    Reads pr reached envName m m' s s' p := by
  unfold probeValueUncached at h
  obtain ⟨redis, m₁, _, hredis, hrest⟩ := runs_bind h
  obtain ⟨rfl, hkeeps, hsound, hcomplete⟩ := probeRedisValue_reads hredis
  obtain ⟨redisStatus, value, stamp⟩ := redis
  dsimp only at hrest hsound hcomplete
  split at hrest
  · rename_i hok
    obtain ⟨rfl, rfl, rfl⟩ := runs_pure hrest
    exact ⟨hkeeps.values, fun _ => .inl (hsound hok), fun _ => rfl, fun _ _ _ _ => rfl⟩
  · rename_i hredisStatus
    have hnot : reached → m.connectionAvailable = true → ¬ InRedis envName _ := fun hr hc hin => hredisStatus (hcomplete hr hc hin)
    obtain ⟨recent, _, _, hrecent, hmiss⟩ := runs_bind hrest
    obtain ⟨rfl, rfl, hseen⟩ := dbMissRecent_reads hrecent
    split at hmiss
    · rename_i hr
      obtain ⟨rfl, rfl, rfl⟩ := runs_pure hmiss
      refine ⟨hkeeps.values, fun hok => ?_, fun _ => rfl, fun _ _ hmemo => ?_⟩
      · dsimp only at hok
        split at hok <;> cases hok
      · rw [hkeeps.missed] at hseen
        exact absurd hmemo (hseen hr)
    · obtain ⟨db, _, _, hdb, hfound⟩ := runs_bind hmiss
      obtain ⟨rfl, rfl, hrow, hreach⟩ := probeDbRow_reads hdb
      obtain ⟨u, m₂, s₁, hremember, hend⟩ := runs_bind hfound
      obtain ⟨rfl, hvc, -⟩ := rememberDbMiss_keeps hremember
      obtain ⟨dbStatus, row⟩ := db
      dsimp only at hrow hreach hend
      have hvalues : m'.vc = m₂.vc → ∀ key hit, m'.vc.values.get key = some hit → m.vc.values.get key = some hit := by
        intro hsame key hit hhit
        rw [hsame, hvc] at hhit
        exact hkeeps.values key hit hhit
      by_cases hone : dbStatus = .ok ∧ row.isSome = true
      · obtain ⟨rfl, hsome⟩ := hone
        obtain ⟨row, rfl⟩ := Option.isSome_iff_exists.mp hsome
        have hindb := hrow rfl
        have hanswer : m' = m₂ ∧ p.status = .ok := by
          dsimp only at hend
          split at hend
          · obtain ⟨u', m₃, s₃, hrestore, hlast⟩ := runs_bind hend
            obtain ⟨rfl, rfl, -⟩ := runs_pure hlast
            exact ⟨restoreToRedis_keeps hrestore, rfl⟩
          · obtain ⟨rfl, rfl, -⟩ := runs_pure hend
            exact ⟨rfl, rfl⟩
        exact ⟨hvalues (congrArg Memory.vc hanswer.1), fun _ => .inr hindb, fun hnone => absurd hindb hnone, fun _ _ _ _ => hanswer.2⟩
      · have hlast : p.status ≠ .ok ∧ m' = m₂ ∧ s' = s₁ := by
          split at hend
          · exact absurd ⟨rfl, rfl⟩ hone
          · obtain ⟨rfl, rfl, rfl⟩ := runs_pure hend
            refine ⟨fun hok => ?_, rfl, rfl⟩
            dsimp only at hok
            split at hok <;> cases hok
        refine ⟨hvalues (congrArg Memory.vc hlast.2.1), fun hok => absurd hok hlast.1, fun _ => hlast.2.2, fun hr hc _ hin => ?_⟩
        obtain hin | hin := hin
        · exact absurd hin (hnot hr hc)
        · exact absurd (hreach hr hin) hone

theorem remember_keeps {key : String × String} {version : Option Int} {p : Probe} {u : Unit}
    (h : Runs reached (remember key version p) m s u m' s') :
    s' = s ∧ ∀ other hit, m'.vc.values.get other = some hit → m.vc.values.get other = some hit ∨ hit.probe = p := by
  unfold remember at h
  cases version with
  | none =>
    obtain ⟨-, rfl, rfl⟩ := runs_pure h
    exact ⟨rfl, fun _ _ hhit => .inl hhit⟩
  | some v =>
    dsimp only at h
    split at h
    · obtain ⟨-, rfl, rfl⟩ := runs_pure h
      exact ⟨rfl, fun _ _ hhit => .inl hhit⟩
    · have hstart := runs_get h
      split at hstart
      · obtain ⟨-, rfl, rfl⟩ := runs_pure hstart
        exact ⟨rfl, fun _ _ hhit => .inl hhit⟩
      · obtain ⟨now, _, rfl, hnow⟩ := runs_ask hstart
        obtain ⟨t, hgives, hanswers⟩ := hnow
        obtain ⟨rfl, -, rfl⟩ := gives_pure hgives
        refine ⟨hanswers, fun other hit hhit => ?_⟩
        dsimp only at hhit
        rw [Dict.get_set] at hhit
        split at hhit
        · rw [← Option.some.inj hhit]
          exact .inr rfl
        · split at hhit
          · rw [Dict.get_empty] at hhit
            cases hhit
          · exact .inl hhit

/-- Neither store holds the setting, and no value of it is remembered. -/
structure Gone (pr : Process) (envName : String) (s : Stores) (m : Memory) : Prop where
  redis : ¬ InRedis envName s
  db : ¬ InDb pr envName s
  cached : ∀ hit, m.vc.values.get (envName, "") = some hit → hit.probe.status ≠ .ok

theorem probeValue_gone {p : Probe} (h : Runs reached (probeValue pr envName "") m s p m' s') (hgone : Gone pr envName s m) :
    p.status ≠ .ok ∧ Gone pr envName s' m' := by
  unfold probeValue at h
  split at h
  · have hreads := probeValueUncached_reads h
    refine ⟨fun hok => (hreads.sound hok).elim hgone.redis hgone.db, ?_⟩
    rw [hreads.unrestored hgone.db]
    exact ⟨hgone.redis, hgone.db, fun hit hhit => hgone.cached hit (hreads.values _ hit hhit)⟩
  · obtain ⟨version, m₁, _, hversion, hrest⟩ := runs_bind h
    obtain ⟨rfl, hkeeps⟩ := knownVersion_keeps hversion
    obtain ⟨found, m₂, _, hremembered, hread⟩ := runs_bind hrest
    obtain ⟨rfl, hkeeps', hfound⟩ := remembered_keeps hremembered
    have hall := hkeeps.trans hkeeps'
    cases found with
    | some p' =>
      obtain ⟨rfl, rfl, rfl⟩ := runs_pure hread
      obtain ⟨hit, hhit, rfl⟩ := hfound p rfl
      exact ⟨hgone.cached hit (hkeeps.values _ hit hhit), hgone.redis, hgone.db, fun hit' hhit' => hgone.cached hit' (hall.values _ hit' hhit')⟩
    | none =>
      obtain ⟨p', m₃, s₁, huncached, hlast⟩ := runs_bind hread
      have hreads := probeValueUncached_reads huncached
      obtain ⟨u, m₄, _, hremember, hend⟩ := runs_bind hlast
      obtain ⟨rfl, hstored⟩ := remember_keeps hremember
      obtain ⟨rfl, rfl, rfl⟩ := runs_pure hend
      have hstatus : p.status ≠ .ok := fun hok => (hreads.sound hok).elim hgone.redis hgone.db
      refine ⟨hstatus, ?_⟩
      rw [hreads.unrestored hgone.db]
      refine ⟨hgone.redis, hgone.db, fun hit hhit => ?_⟩
      obtain hold | hnew := hstored _ hit hhit
      · exact hgone.cached hit (hall.values _ hit (hreads.values _ hit hold))
      · rw [hnew]
        exact hstatus

/-- A probe that reaches the stores and remembers nothing finds a setting that is there. -/
theorem probeValue_finds {p : Probe} (h : Runs True (probeValue pr envName "") m s p m' s') (hc : m.connectionAvailable = true)
    (hmissed : m.dbMissAt = .empty) (hcached : m.vc.values = .empty) (hin : InRedis envName s ∨ InDb pr envName s) : p.status = .ok := by
  have hmemo : ∀ seen : Dict String Nat, seen = .empty → seen.get envName = none := by
    rintro seen rfl
    exact Dict.get_empty envName
  unfold probeValue at h
  split at h
  · exact (probeValueUncached_reads h).complete trivial hc (hmemo _ hmissed) hin
  · obtain ⟨version, m₁, _, hversion, hrest⟩ := runs_bind h
    obtain ⟨rfl, hkeeps⟩ := knownVersion_keeps hversion
    obtain ⟨found, m₂, _, hremembered, hread⟩ := runs_bind hrest
    obtain ⟨rfl, hkeeps', hfound⟩ := remembered_keeps hremembered
    have hall := hkeeps.trans hkeeps'
    cases found with
    | some p' =>
      obtain ⟨hit, hhit, -⟩ := hfound p' rfl
      have hold := hkeeps.values _ hit hhit
      rw [hcached, Dict.get_empty] at hold
      cases hold
    | none =>
      obtain ⟨p', m₃, s₁, huncached, hlast⟩ := runs_bind hread
      have hreads := probeValueUncached_reads huncached
      obtain ⟨u, m₄, _, -, hend⟩ := runs_bind hlast
      obtain ⟨rfl, -, -⟩ := runs_pure hend
      exact hreads.complete trivial (hall.connected hc) (hmemo _ (hall.missed.trans hmissed)) hin

theorem later_gone {c c' : Stores × Memory} (h : Later pr envName c c') (hgone : Gone pr envName c.1 c.2) : Gone pr envName c'.1 c'.2 := by
  cases h with
  | probe h => exact (probeValue_gone h hgone).2
  | other hredis hrows hcached =>
    refine ⟨?_, ?_, fun hit hhit => hgone.cached hit (hcached hit hhit)⟩
    · rintro ⟨fields, value, hfields, hvalue⟩
      exact hgone.redis ⟨fields, value, hredis.symm.trans hfields, hvalue⟩
    · rintro ⟨hmanager, hname, row, hrow, heq⟩
      exact hgone.db ⟨hmanager, hname, row, (hrows row heq).mp hrow, heq⟩

/-- Where no value is remembered, the durability of a deletion is that of the stores. -/
theorem durable_iff (hcached : m.vc.values = .empty) : Durable pr envName s m ↔ ¬ InRedis envName s ∧ ¬ InDb pr envName s := by
  constructor
  · intro hdurable
    by_contra hleft
    have hin : InRedis envName s ∨ InDb pr envName s := (not_and_or.mp hleft).imp not_not.mp not_not.mp
    -- The process connects again, and what it has found missing has grown old.
    let m₁ : Memory := { m with connectionAvailable := true, dbMissAt := .empty }
    have hlater : Later pr envName (s, m) (s, m₁) := .other rfl (fun _ _ => Iff.rfl) fun hit hhit => hhit
    obtain ⟨p, m₂, s₂, hruns⟩ := runs_total (probeValue pr envName "") m₁ s
    exact hdurable s m₁ (.single hlater) p m₂ s₂ hruns (probeValue_finds hruns rfl rfl hcached hin)
  · rintro ⟨hredis, hdb⟩ s₁ m₁ hlater p m₂ s₂ hruns
    have hgone : Gone pr envName s m := ⟨hredis, hdb, fun hit hhit => by rw [hcached, Dict.get_empty] at hhit; cases hhit⟩
    have hall : ∀ c : Stores × Memory, ReflTransGen (Later pr envName) (s, m) c → Gone pr envName c.1 c.2 := by
      intro c hc
      induction hc with
      | refl => exact hgone
      | tail _ hstep ih => exact later_gone hstep ih
    exact (probeValue_gone hruns (hall _ hlater)).1

end Probes

section Deletion
variable {pr : Process} {f : Fates} {envName : String} {s : Stores} {m : Memory} {config : Metadata}

/-! What a deletion leaves. -/

theorem deleteColumn_redis (f : Fates) (column : Column) (value : Json) (s : Stores) : (deleteColumn f column value s).redis = s.redis := by
  unfold deleteColumn
  split
  · split <;> rfl
  · rfl

theorem deleteDbConfig_redis (f : Fates) (configPath : Json) (envName : String) (s : Stores) :
    (deleteDbConfig f configPath envName s).2.redis = s.redis := by
  unfold deleteDbConfig
  split
  · rw [deleteColumn_redis, deleteColumn_redis]
  · rfl

/-- A row stays if its column has another text, or the deletion takes no effect. -/
theorem mem_deleteColumn (f : Fates) (column : Column) (value : Json) (s : Stores) (row : Row) :
    row ∈ (deleteColumn f column value s).rows ↔ row ∈ s.rows ∧
      ¬ ((f.deleteRows column).takesEffect ∧ Stores.columnOf column row ≠ "" ∧ value = .str (Stores.columnOf column row)) := by
  unfold deleteColumn
  split
  · rename_i key
    split
    · rename_i heffect
      simp only [Stores.deleteRows, List.mem_filter, decide_not, Bool.not_eq_true', decide_eq_false_iff_not, Json.str.injEq]
      refine and_congr_right fun _ => not_congr ⟨fun heq => ⟨heffect.2, heq ▸ heffect.1, heq.symm⟩, fun h => h.2.2.symm⟩
    · rename_i heffect
      refine (and_iff_left ?_).symm
      rintro ⟨htakes, hne, heq⟩
      exact heffect ⟨Json.str.inj heq ▸ hne, htakes⟩
  · rename_i hother
    exact (and_iff_left fun h => hother _ h.2.2).symm

theorem deleteFromRedis_rows (f : Fates) (category : Json) (envName : String) (s : Stores) :
    (deleteFromRedis f category envName s).rows = s.rows := by
  unfold deleteFromRedis
  dsimp only
  split <;> split <;> rfl

theorem deleteFromRedis_redis (f : Fates) (category : Json) (envName : String) (s : Stores) :
    (deleteFromRedis f category envName s).redis envName = if f.delete.takesEffect then none else s.redis envName := by
  have hset : ∀ s' : Stores, (if f.delete = .done ∧ category.truthy ∧ f.remove.takesEffect then s'.remove category.toStr envName else s').redis =
      s'.redis := by
    intro s'
    split <;> rfl
  unfold deleteFromRedis
  dsimp only
  rw [hset]
  split
  · exact Function.update_self envName none s.redis
  · rfl

theorem deleteConfig_unknown (h : metadata pr f envName s = none) : deleteConfig pr f envName s m = (false, s, m) := by
  rw [deleteConfig, h]

/-- The stores after a deletion whose metadata were found. -/
def cleared (pr : Process) (f : Fates) (envName : String) (s : Stores) (m : Memory) (config : Metadata) : Stores :=
  let s := if m.connectionAvailable then deleteFromRedis f config.category envName s else s
  if pr.managerDb.isSome then (deleteDbConfig f config.path envName s).2 else s

theorem deleteConfig_known (h : metadata pr f envName s = some config) :
    deleteConfig pr f envName s m = (true, cleared pr f envName s m config, forgotten f m) := by
  rw [deleteConfig, h]
  rfl

theorem inRedis_cleared : InRedis envName (cleared pr f envName s m config) ↔
    InRedis envName s ∧ ¬ (m.connectionAvailable = true ∧ f.delete.takesEffect) := by
  have hredis : (cleared pr f envName s m config).redis envName =
      if m.connectionAvailable = true ∧ f.delete.takesEffect then none else s.redis envName := by
    have hdb : ∀ s' : Stores, (if pr.managerDb.isSome then (deleteDbConfig f config.path envName s').2 else s').redis = s'.redis := by
      intro s'
      split
      · exact deleteDbConfig_redis f config.path envName s'
      · rfl
    rw [cleared, hdb]
    cases hc : m.connectionAvailable with
    | false => simp
    | true => simp [deleteFromRedis_redis]
  unfold InRedis
  rw [hredis]
  split
  · rename_i htakes
    refine iff_of_false ?_ fun h => h.2 htakes
    rintro ⟨fields, value, hfields, -⟩
    cases hfields
  · rename_i hstays
    exact (and_iff_left hstays).symm

/-- The deletion reaches this row. -/
def Reaches (f : Fates) (path : Json) (row : Row) : Prop :=
  f.availableAgain = true ∧ ((f.deleteRows .envName).takesEffect ∨
    ((f.deleteRows .configPath).takesEffect ∧ row.configPath ≠ "" ∧ path = .str row.configPath))

theorem inDb_cleared : InDb pr envName (cleared pr f envName s m config) ↔
    pr.managerDb.isSome = true ∧ envName ≠ "" ∧ ∃ row ∈ s.rows, row.envName = envName ∧ ¬ Reaches f config.path row := by
  unfold InDb
  refine and_congr_right fun hmanager => and_congr_right fun hname => exists_congr fun row => ?_
  have hrows : ∀ s' : Stores, s'.rows = s.rows → (row ∈ (deleteDbConfig f config.path envName s').2.rows ∧ row.envName = envName ↔
      row ∈ s.rows ∧ row.envName = envName ∧ ¬ Reaches f config.path row) := by
    intro s' hs'
    unfold deleteDbConfig
    by_cases havailable : f.availableAgain = true
    · rw [if_pos havailable]
      dsimp only
      rw [mem_deleteColumn, mem_deleteColumn, hs']
      unfold Reaches Stores.columnOf
      constructor
      · rintro ⟨⟨⟨hrow, hpath⟩, henv⟩, rfl⟩
        exact ⟨hrow, rfl, fun h => h.2.elim (fun htakes => henv ⟨htakes, hname, rfl⟩) hpath⟩
      · rintro ⟨hrow, rfl, hreach⟩
        exact ⟨⟨⟨hrow, fun h => hreach ⟨havailable, .inr h⟩⟩, fun h => hreach ⟨havailable, .inl h.1⟩⟩, rfl⟩
    · rw [if_neg havailable, hs']
      exact and_congr_right fun _ => (and_iff_left fun h => havailable h.1).symm
  rw [cleared, if_pos hmanager]
  cases m.connectionAvailable with
  | false => exact hrows s rfl
  | true => exact hrows _ (deleteFromRedis_rows f config.category envName s)

theorem takesEffect_iff : TakesEffect pr f envName s m config.path ↔
    ¬ InRedis envName (cleared pr f envName s m config) ∧ ¬ InDb pr envName (cleared pr f envName s m config) := by
  rw [inRedis_cleared, inDb_cleared]
  constructor
  · rintro ⟨hredis, hdb⟩
    refine ⟨fun h => h.2 (hredis h.1), ?_⟩
    rintro ⟨hmanager, hname, row, hrow, henv, hreach⟩
    obtain ⟨havailable, htakes⟩ := hdb ⟨hmanager, hname, row, hrow, henv⟩
    exact hreach ⟨havailable, htakes.imp_right fun h => ⟨h.1, h.2 row hrow henv⟩⟩
  · rintro ⟨hredis, hdb⟩
    have hreach : pr.managerDb.isSome = true → envName ≠ "" → ∀ row ∈ s.rows, row.envName = envName → Reaches f config.path row :=
      fun hmanager hname row hrow henv => by_contra fun h => hdb ⟨hmanager, hname, row, hrow, henv, h⟩
    refine ⟨fun hin => by_contra fun h => hredis ⟨hin, h⟩, ?_⟩
    rintro ⟨hmanager, hname, row, hrow, henv⟩
    obtain ⟨havailable, htakes⟩ := hreach hmanager hname row hrow henv
    refine ⟨havailable, ?_⟩
    by_cases hnamed : (f.deleteRows .envName).takesEffect
    · exact .inl hnamed
    · refine .inr ⟨(htakes.resolve_left hnamed).1, fun row' hrow' henv' => ?_⟩
      exact ((hreach hmanager hname row' hrow' henv').2.resolve_left hnamed).2

/-- A deletion is durable or reports that it is not exactly where it takes effect in the stores that hold the setting, or finds no
setting. -/
theorem deletes_iff : Deletes pr f envName s m ↔
    ∀ config, metadata pr f envName s = some config → TakesEffect pr f envName s m config.path := by
  cases hconfig : metadata pr f envName s with
  | none =>
    refine iff_of_true ⟨?_, ?_⟩ fun config h => by cases h
    · rw [deleteConfig_unknown hconfig]
      exact fun h => absurd h Bool.false_ne_true
    · rw [deleteConfig_unknown hconfig]
      exact fun h => absurd h Bool.false_ne_true
  | some config =>
    have hdurable := @durable_iff pr (forgotten f m) (cleared pr f envName s m config) envName rfl
    constructor
    · rintro h config' hsome
      obtain rfl := Option.some.inj hsome
      have hstays := h.durable
      rw [deleteConfig_known hconfig] at hstays
      exact takesEffect_iff.mpr (hdurable.mp (hstays rfl))
    · intro h
      obtain ⟨hredis, hdb⟩ := takesEffect_iff.mp (h config rfl)
      constructor
      · rw [deleteConfig_known hconfig]
        exact fun _ => hdurable.mpr ⟨hredis, hdb⟩
      · rw [deleteConfig_known hconfig]
        exact fun _ => ⟨fun _ => hredis, fun _ => hdb⟩

end Deletion

/-! A deletion while Redis is away. -/

def awayProcess : Process := ⟨⟨3, 30, 1, 5, 30⟩, some .pool, some .pool, ⟨fun _ => none, fun _ => "", fun _ => none⟩⟩

def awayStores : Stores where
  redis := fun envName => if envName = "PORT" then some (.payload [("value", .int 1), ("path", .str "app.port")]) else none
  members := fun _ => []
  rows := [⟨"app.port", some "1", "int", "PORT"⟩]

/-- Redis answers nothing. -/
def awayFates : Fates := ⟨false, true, fun _ => true, .failed, .failed, true, fun _ => .done, none⟩

/-- `True` is returned, and the setting is back once Redis is. -/
theorem not_deleted_away : (deleteConfig awayProcess awayFates "PORT" awayStores freshMemory).1 = true ∧
    ¬ Deletes awayProcess awayFates "PORT" awayStores freshMemory := by
  have hresult : (deleteConfig awayProcess awayFates "PORT" awayStores freshMemory).1 = true := by decide
  refine ⟨hresult, fun h => ?_⟩
  have hredis : InRedis "PORT" awayStores := ⟨[("value", .int 1), ("path", .str "app.port")], .int 1, rfl, rfl⟩
  exact (h.reported hresult).1 hredis ⟨[("value", .int 1), ("path", .str "app.port")], .int 1, rfl, rfl⟩

end XgenSdk.Config.Deleted
