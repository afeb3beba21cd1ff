import XgenSdk.Lib.Dict
import XgenSdk.Lib.Runs
import Mathlib.Data.List.Basic
import Mathlib.Logic.Function.Basic

/-! Permissions that endpoints ask for, and the table that services bring them into when
they start, each on its own. -/
namespace XgenSdk.PermissionRegistry
open XgenSdk.Runs

structure Info where
  resource : String
  action : String
  description : String

def permKey (resource action : String) : String := resource ++ ":" ++ action

/-- The first description that says something stays. -/
def register (permissions : Dict String Info) (decorated : String × String) : Dict String Info :=
  match decorated.1.toList.splitOn ':' with
  | [resource, action] =>
    match permissions.get decorated.1 with
    | none => permissions.set decorated.1 ⟨String.ofList resource, String.ofList action, decorated.2⟩
    | some info =>
      if decorated.2 ≠ "" ∧ info.description = "" then permissions.set decorated.1 { info with description := decorated.2 }
      else permissions
  | _ => permissions

/-- The registry once the endpoints of a service, with their keys and descriptions, are imported. -/
def registry (decorated : List (String × String)) : Dict String Info := decorated.foldl register Dict.empty

structure Row where
  id : Nat
  resource : String
  action : String
  description : Option String

def Row.key (r : Row) : String := permKey r.resource r.action

def Row.described (r : Row) : Bool := r.description.any (· ≠ "")

/-- `id` is the primary key, by which the rows are ordered, and a resource has an action once. -/
structure Table where
  rows : List Row
  nextId : Nat
  fresh : ∀ r ∈ rows, r.id < nextId
  ordered : (rows.map Row.id).Pairwise (· < ·)
  unique : (rows.map fun r => (r.resource, r.action)).Nodup

def Table.insert (t : Table) (info : Info) : Table :=
  if h : (info.resource, info.action) ∈ t.rows.map fun r => (r.resource, r.action) then t
  else {
    rows := t.rows ++ [⟨t.nextId, info.resource, info.action, some info.description⟩]
    nextId := t.nextId + 1
    fresh := by
      simp only [List.forall_mem_append, List.forall_mem_singleton]
      exact ⟨fun r hr => Nat.lt_succ_of_lt (t.fresh r hr), Nat.lt_succ_self _⟩
    ordered := by
      simp only [List.map_append, List.pairwise_append, List.map_cons, List.map_nil, List.mem_map, List.mem_singleton]
      refine ⟨t.ordered, List.pairwise_singleton _ _, ?_⟩
      rintro _ ⟨r, hr, rfl⟩ _ rfl
      exact t.fresh r hr
    unique := by
      simp only [List.map_append, List.nodup_append, List.map_cons, List.map_nil, List.mem_singleton]
      refine ⟨t.unique, List.nodup_singleton _, ?_⟩
      rintro _ hr _ rfl rfl
      exact h hr }

/-- What an update of a row that was read before makes of a row. -/
def described (read : Row) (description : String) (r : Row) : Row :=
  if r.id = read.id then { r with description := some description } else r

def Table.describe (t : Table) (read : Row) (description : String) : Table where
  rows := t.rows.map (described read description)
  nextId := t.nextId
  fresh := by
    rintro _ hr
    obtain ⟨r', hr', rfl⟩ := List.mem_map.mp hr
    unfold described
    split <;> exact t.fresh r' hr'
  ordered := by
    have hid : Row.id ∘ described read description = Row.id := by
      funext r
      simp only [described, Function.comp]
      split <;> rfl
    rw [List.map_map, hid]
    exact t.ordered
  unique := by
    have hkey : (fun r : Row => (r.resource, r.action)) ∘ described read description = fun r => (r.resource, r.action) := by
      funext r
      simp only [described, Function.comp]
      split <;> rfl
    rw [List.map_map, hkey]
    exact t.unique

/-! Services that start. -/

/-- A sync under way: the rows it read at first, and the permissions it has still to see to. -/
structure Sync where
  existing : List Row
  todo : List (String × Info)
  failed : Bool

inductive Step (ι : Type) where
  /-- A service starts, and reads what it is given of the table: the newest first, of which the
  last of a key counts. -/
  | findAll (service : ι) (given : Row → Bool)
  /-- It sees to its next permission; the statement is run or fails. -/
  | next (service : ι) (answered : Bool)

structure Services (ι : Type) where
  table : Table
  decorated : ι → List (String × String)
  syncs : ι → Option Sync

variable {ι : Type} [DecidableEq ι]

/-- What a sync sends for one permission. -/
def send (table : Table) (existing : List Row) (key : String) (info : Info) : Table :=
  match existing.find? fun r => r.key = key with
  | none => table.insert info
  | some read => if info.description ≠ "" ∧ !read.described then table.describe read info.description else table

def step (s : Services ι) : Step ι → Services ι
  | .findAll service given =>
    let sync : Sync := ⟨s.table.rows.filter given, (registry (s.decorated service)).entries, false⟩
    { s with syncs := Function.update s.syncs service (some sync) }
  | .next service answered =>
    match s.syncs service with
    | some ⟨existing, (key, info) :: todo, failed⟩ =>
      { s with
        table := if answered then send s.table existing key info else s.table
        syncs := Function.update s.syncs service (some ⟨existing, todo, failed || !answered⟩) }
    | _ => s

/-! What a table never loses. -/

/-- The rows are all there, and say what they said, or more. -/
def Grown (rows rows' : List Row) : Prop :=
  ∀ r ∈ rows, ∃ r' ∈ rows', r'.id = r.id ∧ r'.resource = r.resource ∧ r'.action = r.action ∧ (r.described = true → r'.described = true)

theorem Grown.refl (rows : List Row) : Grown rows rows := fun r hr => ⟨r, hr, rfl, rfl, rfl, id⟩

theorem Grown.trans {a b c : List Row} (h : Grown a b) (h' : Grown b c) : Grown a c := by
  intro r hr
  obtain ⟨r', hr', hid, hresource, haction, hd⟩ := h r hr
  obtain ⟨r'', hr'', hid', hresource', haction', hd'⟩ := h' r' hr'
  exact ⟨r'', hr'', hid'.trans hid, hresource'.trans hresource, haction'.trans haction, hd' ∘ hd⟩

theorem Grown.key {a b : List Row} (h : Grown a b) {key : String} (hkey : ∃ r ∈ a, r.key = key) : ∃ r ∈ b, r.key = key := by
  obtain ⟨r, hr, rfl⟩ := hkey
  obtain ⟨r', hr', -, hresource, haction, -⟩ := h r hr
  exact ⟨r', hr', by rw [Row.key, hresource, haction, Row.key]⟩

theorem grown_send (table : Table) (existing : List Row) (key : String) (info : Info) :
    Grown table.rows (send table existing key info).rows := by
  unfold send
  split
  · unfold Table.insert
    split
    · exact Grown.refl _
    · exact fun r hr => ⟨r, List.mem_append_left _ hr, rfl, rfl, rfl, id⟩
  · split
    · rename_i hsay
      intro r hr
      refine ⟨described _ info.description r, List.mem_map_of_mem hr, ?_⟩
      unfold described
      split <;> simp [Row.described, hsay.1]
    · exact Grown.refl _

/-- A permission that was seen to stands in the table. -/
theorem present_send {table : Table} {existing : List Row} {key : String} {info : Info} (hgrown : Grown existing table.rows)
    (hkey : permKey info.resource info.action = key) : ∃ r ∈ (send table existing key info).rows, r.key = key := by
  cases hfind : existing.find? fun r => r.key = key with
  | some read =>
    refine (grown_send table existing key info).key (hgrown.key ⟨read, List.mem_of_find?_eq_some hfind, ?_⟩)
    simpa using List.find?_some hfind
  | none =>
    simp only [send, hfind, Table.insert]
    split
    · rename_i hold
      obtain ⟨r, hr, he⟩ := List.mem_map.mp hold
      obtain ⟨hresource, haction⟩ := Prod.mk.inj he
      exact ⟨r, hr, by rw [Row.key, hresource, haction, hkey]⟩
    · exact ⟨_, List.mem_append_right _ (List.mem_singleton_self _), hkey⟩

theorem key_register {permissions : Dict String Info} (decorated : String × String)
    (h : ∀ e ∈ permissions.entries, permKey e.2.resource e.2.action = e.1) :
    ∀ e ∈ (register permissions decorated).entries, permKey e.2.resource e.2.action = e.1 := by
  have hset {info : Info} (hinfo : permKey info.resource info.action = decorated.1) :
      ∀ e ∈ (permissions.set decorated.1 info).entries, permKey e.2.resource e.2.action = e.1 := by
    intro e he
    rw [Dict.mem_entries_iff, Dict.get_set] at he
    split at he
    · rename_i hkey
      rw [← hkey, ← Option.some.inj he, hinfo]
    · exact h e ((Dict.mem_entries_iff permissions).mpr he)
  unfold register
  split
  · rename_i resource action hsplit
    split
    · apply hset
      have hjoin : [':'].intercalate (decorated.1.toList.splitOn ':') = decorated.1.toList := List.intercalate_splitOn ':'
      rw [hsplit] at hjoin
      apply String.toList_injective
      simpa [permKey, List.intercalate] using hjoin
    · rename_i info hget
      split
      · exact hset (h (decorated.1, info) ((Dict.mem_entries_iff permissions).mpr hget))
      · exact h
  · exact h

/-- The key of a permission names its resource and its action. -/
theorem key_registry (decorated : List (String × String)) :
    ∀ e ∈ (registry decorated).entries, permKey e.2.resource e.2.action = e.1 := by
  induction decorated using List.reverseRecOn with
  | nil => simp [registry, Dict.empty]
  | append_singleton decorated d ih =>
    rw [registry, List.foldl_concat]
    exact key_register d ih

/-! Every order of statements. -/

/-- A sync of a service has left nothing out of the table but what is still to do. -/
structure InSync (table : Table) (decorated : List (String × String)) (sync : Sync) : Prop where
  existing : Grown sync.existing table.rows
  todo : ∀ e ∈ sync.todo, e ∈ (registry decorated).entries
  done : sync.failed = false → ∀ e ∈ (registry decorated).entries, e ∈ sync.todo ∨ ∃ r ∈ table.rows, r.key = e.1

theorem InSync.grown {table table' : Table} {decorated : List (String × String)} {sync : Sync} (h : InSync table decorated sync)
    (hgrown : Grown table.rows table'.rows) : InSync table' decorated sync :=
  ⟨h.existing.trans hgrown, h.todo, fun hf e he => (h.done hf e he).imp_right hgrown.key⟩

theorem decorated_step (s : Services ι) (a : Step ι) : (step s a).decorated = s.decorated := by
  cases a with
  | findAll service given => rfl
  | next service answered =>
    simp only [step]
    split <;> rfl

theorem grown_step (s : Services ι) (a : Step ι) : Grown s.table.rows (step s a).table.rows := by
  cases a with
  | findAll service given => exact Grown.refl _
  | next service answered =>
    simp only [step]
    split
    · cases answered
      · exact Grown.refl _
      · exact grown_send _ _ _ _
    · exact Grown.refl _

theorem inSync_step {s : Services ι} (h : ∀ i, ∀ sync ∈ s.syncs i, InSync s.table (s.decorated i) sync) (a : Step ι) (i : ι) :
    ∀ sync ∈ (step s a).syncs i, InSync (step s a).table (s.decorated i) sync := by
  have hgrown := grown_step s a
  intro sync hsync
  cases a with
  | findAll service given =>
    by_cases hi : i = service
    · subst hi
      simp only [step, Function.update_self, Option.mem_def, Option.some.injEq] at hsync
      subst hsync
      exact ⟨fun r hr => Grown.refl _ r (List.mem_of_mem_filter hr), fun _ he => he, fun _ _ he => .inl he⟩
    · simp only [step, Function.update_of_ne hi] at hsync
      exact h i sync hsync
  | next service answered =>
    simp only [step] at hsync hgrown ⊢
    split at hsync
    · rename_i existing key info todo failed hold
      simp only [hold] at hgrown ⊢
      by_cases hi : i = service
      · subst hi
        simp only [Function.update_self, Option.mem_def, Option.some.injEq] at hsync
        subst hsync
        have hin := h i _ hold
        refine ⟨hin.existing.trans hgrown, fun e he => hin.todo e (List.mem_cons_of_mem _ he), fun hf e he => ?_⟩
        obtain ⟨hfailed, rfl⟩ : failed = false ∧ answered = true := by simpa using hf
        obtain htodo | hdone := hin.done hfailed e he
        · obtain rfl | htodo := List.mem_cons.mp htodo
          · exact .inr (present_send hin.existing (key_registry _ _ he))
          · exact .inl htodo
        · exact .inr (hgrown.key hdone)
      · simp only [Function.update_of_ne hi] at hsync
        exact (h i sync hsync).grown hgrown
    · exact h i sync hsync

/-- In whatever order services that start send their statements, and whichever of these fail,
the table loses no permission and no description, and holds every permission of a service
whose last sync is through and had no failure. -/
theorem synced (table : Table) (decorated : ι → List (String × String)) (steps : List (Step ι)) :
    let s := after step steps ⟨table, decorated, fun _ => none⟩
    Grown table.rows s.table.rows ∧ ∀ i existing, s.syncs i = some ⟨existing, [], false⟩ →
      ∀ e ∈ (registry (decorated i)).entries, ∃ r ∈ s.table.rows, r.key = e.1 := by
  intro s
  have hrun : s.decorated = decorated ∧ Grown table.rows s.table.rows ∧
      ∀ i, ∀ sync ∈ s.syncs i, InSync s.table (decorated i) sync := by
    simp only [s]
    induction steps using List.reverseRecOn with
    | nil => exact ⟨rfl, Grown.refl _, fun i sync h => by cases h⟩
    | append_singleton steps a ih =>
      obtain ⟨hdecorated, hgrown, hsync⟩ := ih
      rw [after_concat]
      refine ⟨(decorated_step _ a).trans hdecorated, hgrown.trans (grown_step _ a), fun i => ?_⟩
      have h := inSync_step (fun i => by rw [hdecorated]; exact hsync i) a i
      rwa [hdecorated] at h
  refine ⟨hrun.2.1, fun i existing hi e he => ?_⟩
  simpa using (hrun.2.2 i _ hi).done rfl e he

end XgenSdk.PermissionRegistry
