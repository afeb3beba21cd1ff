import XgenSdk.Lib.Dict
import XgenSdk.Lib.Interleave
import XgenSdk.Config.Serializer

/-! The stores of the settings, call by call, and what a process keeps in its memory. -/
namespace XgenSdk.Config
open XgenSdk.Py XgenSdk.Interleave

abbrev Fields := List (String × Json)

/-- A row of `persistent_configs`. -/
structure Row where
  configPath : String
  configValue : Option String
  dataType : String
  envName : String
  deriving DecidableEq, Repr

inductive Column where
  | configPath | envName
  deriving DecidableEq, Repr

/-- What a call gives: it may raise. -/
inductive Answer (α : Type) where
  | failed
  | ok (a : α)

/-- How often each key was set when a version was read. It is kept for the proofs and decides nothing. -/
abbrev Counts := String → Nat

inductive Status where
  | ok | missing | error
  deriving DecidableEq, Repr

inductive Source where
  | redis | db | none
  deriving DecidableEq, Repr

/-- What `probe_value` returns; the stamp is the set that the value is of. -/
structure Probe where
  status : Status
  value : Json
  source : Source
  stamp : Nat

/-- What the proofs note besides the calls. -/
inductive Note where
  /-- The value cache served this result. -/
  | served (envName : String) (probe : Probe)
  /-- The miss memo answered for the database. -/
  | memo (envName : String)
  /-- The registered default is written. -/
  | fallback (envName : String)
  /-- An object of this key, whose value is that of the given set, takes a version for seen that counts so many sets. -/
  | seen (envName : String) (stamp counted : Nat)
  /-- A read that began at a time hands out a value. -/
  | answer (envName : String) (value : Json) (started : Nat)
  /-- A `probe_value` that began with this version noted returns. -/
  | probed (envName : String) (noted : Option Int) (probe : Probe)
  /-- A `set_config` begins. -/
  | begins
  /-- It ends. -/
  | ends

inductive Stmt where
  | clock
  | connect
  | redisGet (envName : String)
  | redisVersion
  | redisSet (envName : String) (payload : Fields) (restored : Bool)
  | redisAdd (category envName : String)
  | redisIncr (envName : String) (stamp : Nat)
  | dbAvailable
  | dbSelect (column : Column) (key : String)
  | dbUpsert (row : Row)
  | dbUpdate (row : Row)
  | dbInsert (row : Row)
  | note (n : Note)

/-- The replies. The numbers beside the payload, the version and the set are for the proofs: which set the payload is of, and
how many sets of each key the version counts. -/
abbrev Reply : Stmt → Type
  | .clock => Nat
  | .connect => Bool
  | .redisGet _ => Answer (Option Fields × Nat)
  | .redisVersion => Answer (Option Int × Counts)
  | .redisSet .. => Answer Nat
  | .redisAdd .. => Answer Unit
  | .redisIncr .. => Answer (Int × Counts)
  | .dbAvailable => Bool
  | .dbSelect .. => Answer (Option Row)
  | .dbUpsert _ => Answer Unit
  | .dbUpdate _ => Answer Nat
  | .dbInsert _ => Answer Unit
  | .note _ => Unit

/-! The memory of a process. -/

structure Cached where
  probe : Probe
  tagged : Int
  storedAt : Nat

/-- `_vc`. A time that is `none` is the long past `0.0`. -/
structure ValueCache where
  values : Dict (String × String) Cached
  version : Option Int
  checkedAt : Option Nat
  refreshing : Bool
  epoch : Nat

/-- What a `PersistentConfig` holds. -/
structure Held where
  value : Json
  lastSeenVersion : Int
  loadedOk : Bool
  stamp : Nat
  counted : Nat

/-- The manager, the version cache of the module, the settings and the composer of one process. -/
structure Memory where
  connectionAvailable : Bool
  lastConnectAttempt : Option Nat
  recoveryEpoch : Nat
  lastWriteVersion : Int
  dbMissAt : Dict String Nat
  vc : ValueCache
  versionCacheValue : Option Int
  versionCacheTs : Option Nat
  held : Nat → Option Held
  lastKnownVersion : Int
  lastRecoveryEpoch : Nat
  versionCounts : Counts
  writeCounts : Counts
  writeStamp : Nat

/-- A process that has just started. -/
def freshMemory : Memory :=
  ⟨true, none, 0, 0, .empty, ⟨.empty, none, none, false, 0⟩, none, none, fun _ => none, 0, 0, fun _ => 0, fun _ => 0, 0⟩

/-- The intervals, in one unit of time. -/
structure Intervals where
  versionCacheTtl : Nat
  valueCacheMaxAge : Nat
  versionRecheck : Nat
  reconnectCooldown : Nat
  dbMissTtl : Nat

/-- Which database manager an object was given. -/
inductive DbKind where
  | appDb | pool
  deriving DecidableEq, Repr

/-- The process: its intervals, the database managers of the Redis manager and of the settings, and the serializer's libraries. -/
structure Process where
  intervals : Intervals
  managerDb : Option DbKind
  configDb : Option DbKind
  lib : Serializer.Libraries

/-- A part of the code between calls of the stores. -/
abbrev Call (α : Type) : Type := StateT Memory (Prog Reply Empty) α

def ask (s : Stmt) : Call (Reply s) := fun m => .act s fun r => .done (r, m)

/-- `now - since < ttl`. -/
def isRecent (now ttl : Nat) (since : Option Nat) : Bool := since.any fun t => now - t < ttl

end XgenSdk.Config

/-! Rules for the code between calls: what it calls, and with which answers it gives a value. -/
namespace XgenSdk.Config
open XgenSdk.Py XgenSdk.Interleave
variable {α β : Type} {ok : Stmt → Prop} {m m' : Memory} {t : Prog.Trace Reply}

/-- Only these calls, whatever the memory and the answers. -/
def OnlyCalls (ok : Stmt → Prop) (x : Call α) : Prop := ∀ m, (x m).Only ok

theorem only_pure (a : α) : OnlyCalls ok (pure a) := fun _ => trivial

theorem only_get : OnlyCalls ok (get : Call Memory) := fun _ => trivial

theorem only_modify (f : Memory → Memory) : OnlyCalls ok (modify f : Call PUnit) := fun _ => trivial

theorem only_ask {s : Stmt} (h : ok s) : OnlyCalls ok (ask s) := fun _ => ⟨h, fun _ => trivial⟩

theorem only_bind {x : Call α} {f : α → Call β} (hx : OnlyCalls ok x) (hf : ∀ a, OnlyCalls ok (f a)) : OnlyCalls ok (x >>= f) :=
  fun m => (hx m).bind fun r => hf r.1 r.2

theorem only_ite {c : Prop} [Decidable c] {x y : Call α} (hx : OnlyCalls ok x) (hy : OnlyCalls ok y) :
    OnlyCalls ok (if c then x else y) := by
  split
  · exact hx
  · exact hy

theorem gives_call {x : Call α} {f : α → Call β} {b : β} (h : ((x >>= f) m).Gives t (b, m')) :
    ∃ first a m₁ rest, (x m).Gives first (a, m₁) ∧ (f a m₁).Gives rest (b, m') ∧ t = first ++ rest := by
  obtain ⟨first, a, rest, hx, hf, ht⟩ := Prog.gives_bind h
  exact ⟨first, a.1, a.2, rest, hx, hf, ht⟩

theorem gives_pure {a b : α} (h : ((pure a : Call α) m).Gives t (b, m')) : t = [] ∧ b = a ∧ m' = m :=
  ⟨h.1, congrArg Prod.fst h.2, congrArg Prod.snd h.2⟩

theorem gives_ask {s : Stmt} {f : Reply s → Call β} {b : β} (h : ((ask s >>= f) m).Gives t (b, m')) :
    ∃ r rest, t = ⟨s, r⟩ :: rest ∧ (f r m).Gives rest (b, m') := h

theorem gives_get {f : Memory → Call β} {b : β} (h : ((get >>= f) m).Gives t (b, m')) : (f m m).Gives t (b, m') := h

theorem gives_modify {g : Memory → Memory} {f : PUnit → Call β} {b : β} (h : ((modify g >>= f) m).Gives t (b, m')) :
    (f () (g m)).Gives t (b, m') := h

/-! The calls of one kind. -/

def callsOf (p : Stmt → Bool) (t : Prog.Trace Reply) : Prog.Trace Reply := t.filter fun call => p call.1

theorem callsOf_append (p : Stmt → Bool) (t u : Prog.Trace Reply) : callsOf p (t ++ u) = callsOf p t ++ callsOf p u := List.filter_append ..

theorem callsOf_nil (p : Stmt → Bool) : callsOf p [] = [] := rfl

theorem callsOf_cons_pos {p : Stmt → Bool} {call : (s : Stmt) × Reply s} (h : p call.1 = true) (t : Prog.Trace Reply) :
    callsOf p (call :: t) = call :: callsOf p t := List.filter_cons_of_pos h

theorem callsOf_cons_neg {p : Stmt → Bool} {call : (s : Stmt) × Reply s} (h : p call.1 = false) (t : Prog.Trace Reply) :
    callsOf p (call :: t) = callsOf p t := List.filter_cons_of_neg (Bool.not_eq_true _ ▸ h)

theorem mem_callsOf {p : Stmt → Bool} {call : (s : Stmt) × Reply s} (hcall : p call.1 = true) : call ∈ t ↔ call ∈ callsOf p t := by
  rw [callsOf, List.mem_filter]
  exact (and_iff_left hcall).symm

theorem callsOf_of_only {p : Stmt → Bool} {x : Call α} (h : OnlyCalls (fun s => p s = false) x) {a : α} (ht : (x m).Gives t (a, m')) :
    callsOf p t = [] := by
  rw [callsOf, List.filter_eq_nil_iff]
  intro call hcall
  rw [(h m).gives ht call hcall]
  exact Bool.false_ne_true

end XgenSdk.Config
