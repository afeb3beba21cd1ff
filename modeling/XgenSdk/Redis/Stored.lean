import XgenSdk.Redis.Client
import Mathlib.Logic.Function.Basic

/-! What the client reads after it has stored a value or a session. -/
namespace XgenSdk.RedisClient
open XgenSdk.Py XgenSdk.Interleave

/-! Calls, run with no other writer. -/

def run {α : Type} (answered : Command → Bool) : Call α → Redis → Option α × Redis
  | .done a, r => (some a, r)
  | .raise _, r => (none, r)
  | .act c next, r => run answered (next (exec answered c r).1) (exec answered c r).2

def reachable : Command → Bool := fun _ => true

theorem exec_reachable (c : Command) (r : Redis) : exec reachable c r = c.run r := by
  rw [exec, reachable, if_pos rfl]

section Runs
variable {α β : Type} {answered : Command → Bool} {r r' : Redis}

theorem run_bind (p : Call α) (f : α → Call β) (r : Redis) :
    run answered (p >>= f) r = (run answered p r).1.elim (none, (run answered p r).2) fun a => run answered (f a) (run answered p r).2 := by
  induction p generalizing r with
  | done a => rfl
  | raise e => rfl
  | act c next ih => exact ih (exec answered c r).1 (exec answered c r).2

theorem run_orReturn (fallback : α) (p : Call α) (r : Redis) :
    run answered (orReturn fallback p) r = (some ((run answered p r).1.getD fallback), (run answered p r).2) := by
  induction p generalizing r with
  | done a => rfl
  | raise e => rfl
  | act c next ih => exact ih (exec answered c r).1 (exec answered c r).2

theorem run_call (c : Command) (r : Redis) : run answered (call c) r = exec answered c r := by
  rw [call, run]
  cases h : (exec answered c r).1 with
  | none => exact Prod.ext h.symm rfl
  | some a => exact Prod.ext h.symm rfl

theorem run_ofOption (o : Option α) (r : Redis) : run answered (ofOption o) r = (o, r) := by
  cases o <;> rfl

/-- A program with a value had one in its first part. -/
theorem run_bind_some {p : Call α} {f : α → Call β} {b : β} (h : run answered (p >>= f) r = (some b, r')) :
    ∃ a middle, run answered p r = (some a, middle) ∧ run answered (f a) middle = (some b, r') := by
  rw [run_bind] at h
  cases hp : run answered p r with
  | mk o middle =>
    rw [hp] at h
    cases o with
    | none => exact absurd (congrArg Prod.fst h) (by simp)
    | some a => exact ⟨a, middle, rfl, h⟩

theorem run_call_some {c : Command} {a : Option String} (h : run answered (call c) r = (some a, r')) : c.run r = (some a, r') := by
  rw [run_call, exec] at h
  by_cases hanswered : answered c = true
  · rwa [if_pos hanswered] at h
  · rw [if_neg hanswered] at h
    exact absurd (congrArg Prod.fst h) (by simp)

/-- A text that is stored stands at its key, and nothing else has changed. -/
theorem store_run {key data : String} {ttl : Option Int} {a : Option String} (h : (store key data ttl).run r = (some a, r')) :
    r' = Function.update r key (some (.text data)) := by
  cases ttl with
  | none => exact (congrArg Prod.snd h).symm
  | some seconds =>
    rw [store] at h
    by_cases hzero : seconds = 0
    · rw [if_pos hzero] at h
      exact (congrArg Prod.snd h).symm
    · rw [if_neg hzero, Command.run] at h
      by_cases hneg : seconds ≤ 0
      · rw [if_pos hneg] at h
        exact absurd (congrArg Prod.fst h) (by simp)
      · rw [if_neg hneg] at h
        exact (congrArg Prod.snd h).symm

/-- Adding a member changes no other key. -/
theorem sadd_run {key member other : String} (hother : other ≠ key) (r : Redis) : ((Command.sadd key member).run r).2 other = r other := by
  rw [Command.run]
  cases r key with
  | none => exact Function.update_of_ne hother _ _
  | some e =>
    cases e with
    | text data => rfl
    | members members => exact Function.update_of_ne hother _ _

theorem srem_run {key member other : String} (hother : other ≠ key) (r : Redis) : ((Command.srem key member).run r).2 other = r other := by
  rw [Command.run]
  cases r key with
  | none => rfl
  | some e =>
    cases e with
    | text data => rfl
    | members members => exact Function.update_of_ne hother _ _

theorem run_get {key data : String} (h : r key = some (.text data)) : run reachable (call (.get key)) r = (some (some data), r) := by
  rw [run_call, exec_reachable, Command.run, h]

end Runs

/-! Plain keys. -/

variable {T : Type} {lib : Libraries T} {client : Client} {answered : Command → Bool} {r r' : Redis}

/-- What the JSON library keeps of a value. -/
structure Lawful (lib : Libraries T) (v : Json) : Prop where
  loads_dumps : ∀ text, lib.dumps v = some text → lib.loads text = .value v
  /-- The text of a string is longer than the string. -/
  not_itself : ∀ text, lib.loads text ≠ .value (.str text)
  /-- No document is empty. -/
  loads_empty : lib.loads "" = .decodeError

/-- A text that is no JSON document. -/
def Survives (lib : Libraries T) (v : Json) : Prop := ∀ s, v = .str s → lib.loads s = .decodeError

theorem run_set {key : String} {v : Json} {ttl : Option Int} (h : run answered (set lib client key v ttl) r = (some true, r')) :
    client.connectionAvailable = true ∧ ∃ data, encode lib v = some data ∧ r' (client.makeKey [key]) = some (.text data) := by
  rw [set] at h
  by_cases hup : client.connectionAvailable = true
  · rw [if_pos hup, run_orReturn] at h
    cases hinner : run answered (do
        let data ← ofOption (encode lib v)
        let _ ← call (store (client.makeKey [key]) data ttl)
        Prog.done true) r with
    | mk o after =>
      rw [hinner] at h
      cases o with
      | none => exact absurd (Option.some.inj (congrArg Prod.fst h)) (by simp)
      | some b =>
        have hafter : after = r' := congrArg Prod.snd h
        obtain ⟨data, middle, hencode, hrest⟩ := run_bind_some hinner
        rw [run_ofOption] at hencode
        obtain ⟨a, last, hstore, hdone⟩ := run_bind_some hrest
        have hlast : last = after := congrArg Prod.snd hdone
        refine ⟨hup, data, congrArg Prod.fst hencode, ?_⟩
        rw [← hafter, ← hlast, store_run (run_call_some hstore), Function.update_self]
  · rw [if_neg hup] at h
    exact absurd (Option.some.inj (congrArg Prod.fst h)) (by simp)

theorem run_get_stored {key data : String} (default : Json) (hup : client.connectionAvailable = true)
    (h : r (client.makeKey [key]) = some (.text data)) :
    (run reachable (get lib client key default) r).1 = some ((decode lib data).getD default) := by
  rw [get, if_pos hup, run_orReturn, run_bind, run_get h]
  dsimp only [Option.elim]
  cases decode lib data <;> rfl

/-- A value that was set is read as it was, unless it is a text that can be read as JSON. -/
theorem get_set_iff {key : String} {v : Json} {ttl : Option Int} (hlawful : Lawful lib v)
    (h : run answered (set lib client key v ttl) r = (some true, r')) :
    (run reachable (get lib client key .null) r').1 = some v ↔ Survives lib v := by
  obtain ⟨hup, data, hencode, hstored⟩ := run_set h
  rw [run_get_stored .null hup hstored, Option.some.injEq, decode]
  by_cases htext : ∃ s, v = .str s
  · obtain ⟨s, rfl⟩ := htext
    obtain rfl : s = data := Option.some.inj hencode
    have hsurvives : Survives lib (.str s) ↔ lib.loads s = .decodeError := by
      constructor
      · exact fun h => h s rfl
      · intro h text htext
        rw [← Json.str.inj htext, h]
    rw [hsurvives]
    cases hloads : lib.loads s with
    | value v =>
      refine iff_of_false (fun heq => hlawful.not_itself s ?_) (by simp)
      have hv : v = .str s := heq
      rw [hloads, hv]
    | decodeError => exact iff_of_true rfl rfl
    | raised => exact iff_of_false (by simp) (by simp)
  · have hdumps : lib.dumps v = some data := by
      cases v with
      | str s => exact absurd ⟨s, rfl⟩ htext
      | _ => exact hencode
    rw [hlawful.loads_dumps data hdumps]
    exact iff_of_true rfl fun s hs => absurd ⟨s, hs⟩ htext

/-! Sessions. -/

mutual

/-- Datetimes stand under the names that are read as datetimes, and no text that can be read as one does. -/
def Restorable (lib : Libraries T) : Fields T → Prop
  | [] => True
  | (key, value) :: fields => RestorableAt lib key value ∧ Restorable lib fields

def RestorableAt (lib : Libraries T) (key : String) : Data T → Prop
  | .time _ => key ∈ datetimeFields
  | .str s => key ∈ datetimeFields → lib.fromisoformat s = none
  | .dict fields => Restorable lib fields
  | _ => True

end

mutual

theorem ofJson_jsonOf (x : Data T) : ∀ v, jsonOf x = some v → ofJson v = x := by
  intro v h
  cases x with
  | time t => cases h
  | list items =>
    obtain ⟨vs, hvs, rfl⟩ := Option.map_eq_some_iff.mp h
    exact congrArg Data.list (ofJson_jsonOfItems items vs hvs)
  | dict fields =>
    obtain ⟨vs, hvs, rfl⟩ := Option.map_eq_some_iff.mp h
    exact congrArg Data.dict (ofJson_jsonOfFields fields vs hvs)
  | _ =>
    obtain rfl := Option.some.inj h
    rfl

theorem ofJson_jsonOfItems (items : List (Data T)) : ∀ vs, jsonOfItems items = some vs → ofJsonItems vs = items := by
  intro vs h
  cases items with
  | nil =>
    obtain rfl := Option.some.inj h
    rfl
  | cons x items =>
    obtain ⟨v, hv, hrest⟩ := Option.bind_eq_some_iff.mp h
    obtain ⟨vs, hvs, rfl⟩ := Option.map_eq_some_iff.mp hrest
    rw [ofJsonItems, ofJson_jsonOf x v hv, ofJson_jsonOfItems items vs hvs]

theorem ofJson_jsonOfFields (fields : Fields T) : ∀ vs, jsonOfFields fields = some vs → ofJsonFields vs = fields := by
  intro vs h
  cases fields with
  | nil =>
    obtain rfl := Option.some.inj h
    rfl
  | cons e fields =>
    obtain ⟨v, hv, hrest⟩ := Option.bind_eq_some_iff.mp h
    obtain ⟨vs, hvs, rfl⟩ := Option.map_eq_some_iff.mp hrest
    rw [ofJsonFields, ofJson_jsonOf e.2 v hv, ofJson_jsonOfFields fields vs hvs]

end

theorem deserializeText_iff {key s : String} :
    deserializeText lib key s = .str s ↔ (key ∈ datetimeFields → lib.fromisoformat s = none) := by
  rw [deserializeText]
  by_cases hkey : key ∈ datetimeFields
  · rw [if_pos hkey]
    cases lib.fromisoformat s with
    | none => exact iff_of_true rfl fun _ => rfl
    | some t => exact iff_of_false (by simp) fun h => by simpa using h hkey
  · rw [if_neg hkey]
    exact iff_of_true rfl fun h => absurd h hkey

theorem deserializeText_time {key : String} {t : T} (htimes : ∀ t, lib.fromisoformat (lib.isoformat t) = some t) :
    deserializeText lib key (lib.isoformat t) = .time t ↔ key ∈ datetimeFields := by
  rw [deserializeText]
  by_cases hkey : key ∈ datetimeFields
  · rw [if_pos hkey, htimes]
    exact iff_of_true rfl hkey
  · rw [if_neg hkey]
    exact iff_of_false (by simp) hkey

mutual

theorem value_restored (htimes : ∀ t, lib.fromisoformat (lib.isoformat t) = some t) (key : String) (x : Data T) :
    ∀ v, jsonOf (serializeValue lib x) = some v → (deserializeValue lib key v = x ↔ RestorableAt lib key x) := by
  intro v h
  cases x with
  | time t =>
    obtain rfl := Option.some.inj h
    exact deserializeText_time htimes
  | str s =>
    obtain rfl := Option.some.inj h
    exact deserializeText_iff
  | dict fields =>
    obtain ⟨vs, hvs, rfl⟩ := Option.map_eq_some_iff.mp h
    rw [deserializeValue, Data.dict.injEq]
    exact fields_restored htimes fields vs hvs
  | list items =>
    -- A list is kept as it is, and had no datetime in it.
    have hback := ofJson_jsonOf (.list items) v h
    obtain ⟨vs, hvs, rfl⟩ := Option.map_eq_some_iff.mp h
    exact iff_of_true hback trivial
  | _ =>
    obtain rfl := Option.some.inj h
    exact iff_of_true rfl trivial

theorem fields_restored (htimes : ∀ t, lib.fromisoformat (lib.isoformat t) = some t) (fields : Fields T) :
    ∀ vs, jsonOfFields (serializeSessionData lib fields) = some vs → (deserializeSessionData lib vs = fields ↔ Restorable lib fields) := by
  intro vs h
  cases fields with
  | nil =>
    obtain rfl := Option.some.inj h
    exact iff_of_true rfl trivial
  | cons e fields =>
    obtain ⟨v, hv, hrest⟩ := Option.bind_eq_some_iff.mp h
    obtain ⟨vs, hvs, rfl⟩ := Option.map_eq_some_iff.mp hrest
    have hvalue := value_restored htimes e.1 e.2 v hv
    have hfields := fields_restored htimes fields vs hvs
    have hcons : deserializeSessionData lib ((e.1, v) :: vs) = e :: fields ↔
        deserializeValue lib e.1 v = e.2 ∧ deserializeSessionData lib vs = fields := by
      rw [deserializeSessionData, List.cons.injEq, Prod.ext_iff]
      simp
    exact hcons.trans (and_congr hvalue hfields)

end

theorem sessionKey_ne (sessionId : String) : client.sessionKey sessionId ≠ client.sessionsKey := by
  intro h
  have hletters := congrArg String.toList h
  simp only [Client.sessionKey, Client.sessionsKey, Client.makeKey, String.intercalate_cons_cons, String.intercalate_singleton,
    String.toList_append, List.append_cancel_left_eq] at hletters
  have hseventh := congrArg (fun letters => letters[7]?) hletters
  simp at hseventh

theorem run_saveSession {sessionId : String} {data : Fields T} {ttl : Option Int}
    (h : run answered (saveSession lib client sessionId data ttl) r = (some true, r')) :
    client.connectionAvailable = true ∧ ∃ json text, jsonOfFields (serializeSessionData lib data) = some json ∧
      lib.dumps (.obj json) = some text ∧ r' (client.sessionKey sessionId) = some (.text text) := by
  rw [saveSession] at h
  by_cases hup : client.connectionAvailable = true
  · rw [if_pos hup, run_orReturn] at h
    cases hinner : run answered (do
        let json ← ofOption (jsonOfFields (serializeSessionData lib data))
        let text ← ofOption (lib.dumps (.obj json))
        let _ ← call (store (client.sessionKey sessionId) text ttl)
        let _ ← call (.sadd client.sessionsKey sessionId)
        Prog.done true) r with
    | mk o after =>
      rw [hinner] at h
      cases o with
      | none => exact absurd (Option.some.inj (congrArg Prod.fst h)) (by simp)
      | some b =>
        have hafter : after = r' := congrArg Prod.snd h
        obtain ⟨json, first, hjson, htext⟩ := run_bind_some hinner
        rw [run_ofOption] at hjson
        obtain ⟨text, second, htext, hrest⟩ := run_bind_some htext
        rw [run_ofOption] at htext
        obtain ⟨a, third, hstore, hrest⟩ := run_bind_some hrest
        obtain ⟨a', last, hsadd, hdone⟩ := run_bind_some hrest
        have hlast : last = after := congrArg Prod.snd hdone
        refine ⟨hup, json, text, congrArg Prod.fst hjson, congrArg Prod.fst htext, ?_⟩
        have hmember : last (client.sessionKey sessionId) = third (client.sessionKey sessionId) := by
          have hrun := @sadd_run client.sessionsKey sessionId _ (sessionKey_ne sessionId) third
          rw [run_call_some hsadd] at hrun
          exact hrun
        rw [← hafter, ← hlast, hmember, store_run (run_call_some hstore), Function.update_self]
  · rw [if_neg hup] at h
    exact absurd (Option.some.inj (congrArg Prod.fst h)) (by simp)

theorem run_getSession {sessionId text : String} (hup : client.connectionAvailable = true)
    (hstored : r (client.sessionKey sessionId) = some (.text text)) (hne : text ≠ "") :
    (run reachable (getSession lib client sessionId) r).1 = some (readSession lib text) := by
  rw [getSession, if_pos hup, run_orReturn, run_bind, run_get hstored]
  dsimp only [Option.elim]
  rw [if_neg hne]
  cases readSession lib text <;> rfl

/-- A session that was saved is read as it was, exactly where its datetimes and its texts tell themselves apart by their names. -/
theorem getSession_iff {sessionId : String} {data : Fields T} {ttl : Option Int}
    (htimes : ∀ t, lib.fromisoformat (lib.isoformat t) = some t)
    (hlawful : ∀ json, jsonOfFields (serializeSessionData lib data) = some json → Lawful lib (.obj json))
    (h : run answered (saveSession lib client sessionId data ttl) r = (some true, r')) :
    (run reachable (getSession lib client sessionId) r').1 = some (some data) ↔ Restorable lib data := by
  obtain ⟨hup, json, text, hjson, htext, hstored⟩ := run_saveSession h
  have hloads := (hlawful json hjson).loads_dumps text htext
  have hne : text ≠ "" := by
    rintro rfl
    rw [(hlawful json hjson).loads_empty] at hloads
    cases hloads
  rw [run_getSession hup hstored hne, readSession, hloads, Option.some.injEq, Option.some.injEq]
  exact fields_restored htimes data json hjson

/-- What comes back of values and of sessions, for every value, session, key and time to live. -/
theorem stored_iff (lib : Libraries T) (client : Client) (answered : Command → Bool)
    (htimes : ∀ t, lib.fromisoformat (lib.isoformat t) = some t) :
    (∀ key v ttl r r', Lawful lib v → run answered (set lib client key v ttl) r = (some true, r') →
        ((run reachable (get lib client key .null) r').1 = some v ↔ Survives lib v)) ∧
      ∀ sessionId data ttl r r', (∀ json, jsonOfFields (serializeSessionData lib data) = some json → Lawful lib (.obj json)) →
        run answered (saveSession lib client sessionId data ttl) r = (some true, r') →
          ((run reachable (getSession lib client sessionId) r').1 = some (some data) ↔ Restorable lib data) :=
  ⟨fun _ _ _ _ _ hlawful h => get_set_iff hlawful h, fun _ _ _ _ _ hlawful h => getSession_iff htimes hlawful h⟩

/-- The JSON library and the datetimes, on the texts of two stores and of one session with one datetime. -/
def sampleLibraries : Libraries Unit where
  loads text :=
    if text = "123" then .value (.int 123)
    else if text = "\"abc\"" then .value (.str "abc")
    else if text = "\x7b\"created_at\": \"2026-01-01T00:00:00\"\x7d" then .value (.obj [("created_at", .str "2026-01-01T00:00:00")])
    else if text = "\x7b\"expires_at\": \"2026-01-01T00:00:00\"\x7d" then .value (.obj [("expires_at", .str "2026-01-01T00:00:00")])
    else .decodeError
  dumps v :=
    match v with
    | .int n => some (toString n)
    | .str text => some ("\"" ++ text ++ "\"")
    | .obj [(key, .str text)] => some ("\x7b\"" ++ key ++ "\": \"" ++ text ++ "\"\x7d")
    | _ => none
  isoformat _ := "2026-01-01T00:00:00"
  fromisoformat text := if text = "2026-01-01T00:00:00" then some () else none

def sampleClient : Client := ⟨true, "workflow_executor"⟩

theorem sample_not_itself (text : String) : sampleLibraries.loads text ≠ .value (.str text) := by
  dsimp only [sampleLibraries]
  by_cases habc : text = "\"abc\""
  · subst habc
    rw [if_neg (by decide), if_pos rfl]
    simp
  · rw [if_neg habc]
    split
    · simp
    · split
      · simp
      · split <;> simp

theorem stored_sample :
    (run reachable (get sampleLibraries sampleClient "name" .null)
        (run reachable (set sampleLibraries sampleClient "name" (.str "abc") none) fun _ => none).2).1 = some (.str "abc") ∧
      (run reachable (getSession sampleLibraries sampleClient "s1")
        (run reachable (saveSession sampleLibraries sampleClient "s1" [("created_at", .time ())] none) fun _ => none).2).1 =
          some (some [("created_at", .time ())]) := by
  have htimes : ∀ t, sampleLibraries.fromisoformat (sampleLibraries.isoformat t) = some t := fun _ => rfl
  have hboth := stored_iff sampleLibraries sampleClient reachable htimes
  have htext : Lawful sampleLibraries (.str "abc") :=
    ⟨fun text h => by rw [← Option.some.inj h]; rfl, sample_not_itself, rfl⟩
  have hsession : ∀ json, jsonOfFields (serializeSessionData sampleLibraries [("created_at", .time ())]) = some json →
      Lawful sampleLibraries (.obj json) := by
    intro json h
    rw [← Option.some.inj h]
    exact ⟨fun text h => by rw [← Option.some.inj h]; rfl, sample_not_itself, rfl⟩
  refine ⟨(hboth.1 "name" (.str "abc") none (fun _ => none) _ htext rfl).mpr ?_,
    (hboth.2 "s1" [("created_at", .time ())] none (fun _ => none) _ hsession rfl).mpr ?_⟩
  · intro s hs
    rw [← Json.str.inj hs]
    rfl
  · exact ⟨List.mem_cons_self, trivial⟩

/-- A text of digits comes back as a number, and a datetime under a name of its own as a text. -/
theorem stored_changed :
    (run reachable (get sampleLibraries sampleClient "limit" .null)
        (run reachable (set sampleLibraries sampleClient "limit" (.str "123") none) fun _ => none).2).1 = some (.int 123) ∧
      (run reachable (getSession sampleLibraries sampleClient "s1")
        (run reachable (saveSession sampleLibraries sampleClient "s1" [("expires_at", .time ())] none) fun _ => none).2).1 =
          some (some [("expires_at", .str "2026-01-01T00:00:00")]) :=
  ⟨rfl, rfl⟩

end XgenSdk.RedisClient
