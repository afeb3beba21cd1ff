import XgenSdk.Lib.Dict
import XgenSdk.Lib.Runs
import XgenSdk.Py.Json

/-! Events on their way to the alarms: a queue that any thread fills, and one thread that
empties it into the tables of the managers it was given. -/
namespace XgenSdk.Telemetry
open XgenSdk.Py XgenSdk.Runs

structure Row where
  id : String
  kind : String
  service : String
  userId : Option String
  workflowId : Option String
  target : Option String
  provider : Option String
  model : Option String
  outcome : String
  environment : String
  deriving DecidableEq

structure Event where
  kind : String
  service : String
  userId : Json := .null
  workflowId : Json := .null
  target : Option String := none
  provider : Option String := none
  model : Option String := none
  outcome : String := "success"
  eventId : Option String := none

def kinds : List String := ["input", "download", "llm"]

def outcomes : List String := ["success", "timeout", "error", "cancelled"]

def queueMax : Nat := 10000

def batchMax : Nat := 200

/-- `str(v)[:n] if v else None`. -/
def clipped (n : Nat) (v : Json) : Option String := if v.truthy then some (clip n v.toStr) else none

variable {μ : Type}

/-- The manager and the row of an event, or none where nothing is recorded; `uuid` is a fresh id. -/
def eventRow (environment uuid : String) (manager : Option μ) (e : Event) : Except String (Option (μ × Row)) :=
  if e.kind ∉ kinds ∨ e.outcome ∉ outcomes then .error "Invalid telemetry event"
  else if e.kind ≠ "llm" ∧ (!e.userId.truthy ∨ e.userId.toStr ∈ ["0", "None"]) then .ok none
  else match manager with
    | none => .ok none
    | some manager => .ok (some (manager,
      { id := (e.eventId.bind orNone).getD uuid, kind := e.kind, service := clip 40 e.service
        userId := clipped 100 e.userId, workflowId := clipped 200 e.workflowId, target := e.target
        provider := e.provider, model := e.model, outcome := e.outcome, environment := environment }))

/-- What an event that was taken is known to say. -/
structure Lawful (r : Row) : Prop where
  kind : r.kind ∈ kinds
  outcome : r.outcome ∈ outcomes
  user : r.kind ≠ "llm" → r.userId ≠ none

theorem eventRow_lawful {environment uuid : String} {manager : Option μ} {e : Event} {row : μ × Row}
    (h : eventRow environment uuid manager e = .ok (some row)) : Lawful row.2 := by
  unfold eventRow at h
  split_ifs at h with hkind huser
  · cases h
  rw [not_or, not_not, not_not] at hkind
  cases manager with
  | none => cases h
  | some manager =>
    cases h
    refine ⟨hkind.1, hkind.2, fun hllm => ?_⟩
    simp only [not_and, not_or, Bool.not_eq_true', Bool.not_eq_false] at huser
    simp [clipped, (huser hllm).1]

/-! The table. -/

/-- `id` is its primary key. -/
structure Table where
  rows : List Row
  distinct : (rows.map Row.id).Nodup

/-- `INSERT ... ON CONFLICT(id) DO NOTHING`. -/
def Table.insert (t : Table) (r : Row) : Table :=
  if h : r.id ∈ t.rows.map Row.id then t
  else ⟨t.rows ++ [r], by
    rw [List.map_append, List.nodup_append]
    exact ⟨t.distinct, List.nodup_singleton _, by
      rintro a ha b hb rfl
      exact h (List.mem_singleton.mp hb ▸ ha)⟩⟩

def insertRows (t : Table) (rows : List Row) : Table := rows.foldl Table.insert t

/-! The writer. -/

variable [DecidableEq μ]

/-- What the thread holds: a batch, and once it is full its rows by manager. -/
structure Writer (μ : Type) where
  queue : List (μ × Row) := []
  unfinished : Nat := 0
  dropped : Nat := 0
  items : List (μ × Row) := []
  groups : Option (List (μ × List Row)) := none
  attempt : Nat := 0

def addTo (groups : Dict μ (List Row)) (e : μ × Row) : Dict μ (List Row) :=
  groups.set e.1 ((groups.get e.1).getD [] ++ [e.2])

/-- The rows of each manager, in the order of the batch. -/
def grouped (items : List (μ × Row)) : List (μ × List Row) := (items.foldl addTo Dict.empty).entries

/-- The writer, the tables, and what became of each event that was taken. -/
structure System (μ : Type) where
  writer : Writer μ := {}
  tables : μ → Table
  taken : List (μ × Row) := []
  handled : List (μ × Row) := []
  lost : List (μ × Row) := []
  others : List (μ × Row) := []

/-- How a transaction ended: the last is one that was committed and raised after all. -/
inductive Answer where
  | committed
  | failed
  | unanswered

inductive Action (μ : Type) where
  | record (environment uuid : String) (manager : Option μ) (e : Event)
  | get
  | getMore
  | insert (answer : Answer)
  | taskDone
  /-- Another process writes to a table. -/
  | other (manager : μ) (r : Row)

def submit (s : System μ) (e : μ × Row) : System μ :=
  if s.writer.queue.length < queueMax then
    { s with
      writer := { s.writer with queue := s.writer.queue ++ [e], unfinished := s.writer.unfinished + 1 }
      taken := s.taken ++ [e] }
  else { s with writer := { s.writer with dropped := s.writer.dropped + 1 } }

def store (tables : μ → Table) (manager : μ) (rows : List Row) : μ → Table :=
  Function.update tables manager (insertRows (tables manager) rows)

/-- A group is done with, stored or not. -/
def settle (s : System μ) (manager : μ) (rows : List Row) (rest : List (μ × List Row)) : System μ :=
  { s with
    writer := { s.writer with groups := some rest, attempt := 0 }
    handled := s.handled ++ rows.map (Prod.mk manager) }

/-- One of two attempts at a group. -/
def write (s : System μ) (manager : μ) (rows : List Row) (rest : List (μ × List Row)) (answer : Answer) : System μ :=
  let stored := { s with tables := store s.tables manager rows }
  let raised (s : System μ) :=
    if s.writer.attempt = 0 then { s with writer := { s.writer with attempt := 1 } }
    else settle { s with lost := s.lost ++ rows.map (Prod.mk manager) } manager rows rest
  match answer with
  | .committed => settle stored manager rows rest
  | .failed => raised s
  | .unanswered => raised stored

/-- One action, in any order; what the thread is not at leaves the state. -/
def act (s : System μ) : Action μ → System μ
  | .record environment uuid manager e =>
    match eventRow environment uuid manager e with
    | .ok (some e) => submit s e
    | _ => s
  | .get =>
    match s.writer.groups, s.writer.items, s.writer.queue with
    | none, [], e :: queue => { s with writer := { s.writer with queue := queue, items := [e] } }
    | _, _, _ => s
  | .getMore =>
    match s.writer.groups, s.writer.items with
    | none, _ :: _ =>
      match s.writer.queue with
      | e :: queue =>
        if s.writer.items.length < batchMax then
          { s with writer := { s.writer with queue := queue, items := s.writer.items ++ [e] } }
        else { s with writer := { s.writer with groups := some (grouped s.writer.items) } }
      | [] => { s with writer := { s.writer with groups := some (grouped s.writer.items) } }
    | _, _ => s
  | .insert answer =>
    match s.writer.groups with
    | some ((manager, rows) :: rest) => write s manager rows rest answer
    | _ => s
  | .taskDone =>
    match s.writer.groups, s.writer.items with
    | some [], _ :: rest =>
      { s with writer := { s.writer with
          items := rest, unfinished := s.writer.unfinished - 1, groups := if rest = [] then none else some [] } }
    | _, _ => s
  | .other manager r => { s with tables := store s.tables manager [r], others := s.others ++ [(manager, r)] }

/-- `flush` at a moment at which nothing more is waited for. -/
def flush (s : System μ) : Bool := s.writer.unfinished = 0

/-! What is where. -/

def rowsFor (manager : μ) (items : List (μ × Row)) : List Row := (items.filter fun e => e.1 = manager).map Prod.snd

def rowsIn (manager : μ) (groups : List (μ × List Row)) : List Row :=
  groups.flatMap fun g => if g.1 = manager then g.2 else []

/-- The rows for a manager that the thread still has to write. -/
def inHand (w : Writer μ) (manager : μ) : List Row :=
  match w.groups with
  | none => rowsFor manager w.items
  | some groups => rowsIn manager groups

@[simp] theorem rowsFor_append (manager : μ) (items items' : List (μ × Row)) :
    rowsFor manager (items ++ items') = rowsFor manager items ++ rowsFor manager items' := by
  simp [rowsFor]

theorem mem_rowsFor {manager : μ} {items : List (μ × Row)} {r : Row} : r ∈ rowsFor manager items ↔ (manager, r) ∈ items := by
  simp [rowsFor]

theorem rowsFor_map (manager other : μ) (rows : List Row) :
    rowsFor other (rows.map (Prod.mk manager)) = if manager = other then rows else [] := by
  by_cases h : manager = other <;> simp [rowsFor, List.filter_map, Function.comp_def, h]

theorem get_grouped (items : List (μ × Row)) (manager : μ) :
    ((items.foldl addTo Dict.empty).get manager).getD [] = rowsFor manager items := by
  induction items using List.reverseRecOn with
  | nil => rfl
  | append_singleton items e ih =>
    rw [List.foldl_concat, addTo, Dict.get_set, rowsFor_append, ← ih]
    by_cases h : e.1 = manager <;> simp [rowsFor, h]

theorem rowsIn_entries {groups : List (μ × List Row)} (h : (groups.map Prod.fst).Nodup) (manager : μ) :
    rowsIn manager groups = ((groups.find? fun g => g.1 = manager).map Prod.snd).getD [] := by
  induction groups with
  | nil => rfl
  | cons g groups ih =>
    rw [List.map_cons, List.nodup_cons] at h
    rw [rowsIn, List.flatMap_cons, ← rowsIn, ih h.2]
    by_cases hg : g.1 = manager
    · have hnone : (groups.find? fun g => g.1 = manager) = none := by
        simp only [List.find?_eq_none, decide_eq_true_eq]
        exact fun g' hg' he => h.1 (List.mem_map.mpr ⟨g', hg', he.trans hg.symm⟩)
      simp [hg, hnone]
    · simp [hg]

/-- Grouping a batch keeps the order of the rows of each manager. -/
theorem rowsIn_grouped (items : List (μ × Row)) (manager : μ) : rowsIn manager (grouped items) = rowsFor manager items := by
  rw [grouped, rowsIn_entries (Dict.nodup _), ← get_grouped]
  rfl

/-! Tables. -/

section Tables
variable (t : Table) (rows : List Row)

theorem prefix_insert (r : Row) : t.rows <+: (t.insert r).rows := by
  unfold Table.insert
  split
  · exact List.prefix_rfl
  · exact List.prefix_append _ _

theorem prefix_insertRows : t.rows <+: (insertRows t rows).rows := by
  induction rows generalizing t with
  | nil => exact List.prefix_rfl
  | cons r rows ih => exact (prefix_insert t r).trans (ih _)

theorem mem_insert {r r' : Row} (h : r' ∈ (t.insert r).rows) : r' ∈ t.rows ∨ r' = r := by
  unfold Table.insert at h
  split at h
  · exact .inl h
  · simpa using h

theorem mem_insertRows {r : Row} (h : r ∈ (insertRows t rows).rows) : r ∈ t.rows ∨ r ∈ rows := by
  induction rows generalizing t with
  | nil => exact .inl h
  | cons r' rows ih =>
    obtain h | h := ih _ h
    · obtain h | rfl := mem_insert t h
      · exact .inl h
      · simp
    · simp [h]

theorem held_insert (r : Row) : ∃ r' ∈ (t.insert r).rows, r'.id = r.id := by
  unfold Table.insert
  split
  · simpa using ‹r.id ∈ t.rows.map Row.id›
  · exact ⟨r, by simp, rfl⟩

/-- A row that is inserted is there, or another of its id was. -/
theorem held_insertRows {r : Row} (hr : r ∈ rows) : ∃ r' ∈ (insertRows t rows).rows, r'.id = r.id := by
  induction rows generalizing t with
  | nil => cases hr
  | cons head rows ih =>
    obtain rfl | hr := List.mem_cons.mp hr
    · obtain ⟨r', hr', hid⟩ := held_insert t r
      exact ⟨r', (prefix_insertRows _ rows).subset hr', hid⟩
    · exact ih _ hr

end Tables

/-! Every interleaving. -/

/-- No event is lost unsaid, none is handled twice or out of turn, and the tables hold
nothing else; `tables` is what they held at the start. -/
structure Accounted (tables : μ → Table) (s : System μ) : Prop where
  room : s.writer.queue.length ≤ queueMax
  batch : s.writer.items.length ≤ batchMax
  unfinished : s.writer.unfinished = s.writer.queue.length + s.writer.items.length
  busy : s.writer.items = [] → s.writer.groups = none
  order : ∀ manager, rowsFor manager s.taken =
    rowsFor manager s.handled ++ inHand s.writer manager ++ rowsFor manager s.writer.queue
  settled : ∀ e ∈ s.handled, e ∈ s.lost ∨ ∃ r ∈ (s.tables e.1).rows, r.id = e.2.id
  source : ∀ manager, ∀ r ∈ (s.tables manager).rows, r ∈ (tables manager).rows ∨ (manager, r) ∈ s.taken ++ s.others
  kept : ∀ manager, (tables manager).rows <+: (s.tables manager).rows
  lawful : ∀ e ∈ s.taken, Lawful e.2

section Steps
variable {tables : μ → Table} {s : System μ}

theorem Accounted.submit (h : Accounted tables s) {e : μ × Row} (he : Lawful e.2) : Accounted tables (submit s e) := by
  unfold Telemetry.submit
  split
  · refine ⟨?_, h.batch, ?_, h.busy, fun manager => ?_, h.settled, fun manager r hr => ?_, h.kept, ?_⟩
    · simpa [Nat.succ_le_iff] using ‹_ < queueMax›
    · simp only [h.unfinished, List.length_append, List.length_singleton]
      omega
    · simp [h.order, inHand]
    · have := h.source manager r hr
      simp only [List.mem_append] at this ⊢
      tauto
    · simpa [or_imp, forall_and] using And.intro h.lawful he
  · exact ⟨h.room, h.batch, h.unfinished, h.busy, h.order, h.settled, h.source, h.kept, h.lawful⟩

theorem Accounted.store (h : Accounted tables s) {manager : μ} {rows : List Row}
    (hrows : ∀ r ∈ rows, (manager, r) ∈ s.taken ++ s.others) :
    Accounted tables { s with tables := store s.tables manager rows } := by
  have hle (other : μ) : (s.tables other).rows <+: (Telemetry.store s.tables manager rows other).rows := by
    by_cases hm : other = manager
    · subst hm
      simpa [Telemetry.store] using prefix_insertRows (s.tables other) rows
    · simp [Telemetry.store, hm]
  refine ⟨h.room, h.batch, h.unfinished, h.busy, h.order, fun e he => ?_, fun other r hr => ?_,
    fun other => (h.kept other).trans (hle other), h.lawful⟩
  · exact (h.settled e he).imp_right (Exists.imp fun r hr => ⟨(hle e.1).subset hr.1, hr.2⟩)
  · by_cases hm : other = manager
    · subst hm
      simp only [Telemetry.store, Function.update_self] at hr
      exact (mem_insertRows _ _ hr).elim (h.source other r) fun hr => .inr (hrows r hr)
    · simp only [Telemetry.store, Function.update_of_ne hm] at hr
      exact h.source other r hr

/-- The rows in hand were taken. -/
theorem Accounted.taken_of_group (h : Accounted tables s) {manager : μ} {rows : List Row} {rest : List (μ × List Row)}
    (hgroups : s.writer.groups = some ((manager, rows) :: rest)) {r : Row} (hr : r ∈ rows) : (manager, r) ∈ s.taken := by
  rw [← mem_rowsFor, h.order]
  simp [inHand, hgroups, rowsIn, hr]

theorem Accounted.settle (h : Accounted tables s) {manager : μ} {rows : List Row} {rest : List (μ × List Row)}
    (hgroups : s.writer.groups = some ((manager, rows) :: rest))
    (hrows : ∀ r ∈ rows, (manager, r) ∈ s.lost ∨ ∃ r' ∈ (s.tables manager).rows, r'.id = r.id) :
    Accounted tables (settle s manager rows rest) := by
  refine ⟨h.room, h.batch, h.unfinished, fun hitems => ?_, fun other => ?_, fun e he => ?_, h.source, h.kept, h.lawful⟩
  · rw [h.busy hitems] at hgroups
    cases hgroups
  · rw [show (Telemetry.settle s manager rows rest).taken = s.taken from rfl, h.order]
    simp only [Telemetry.settle, inHand, hgroups, rowsIn, List.flatMap_cons, rowsFor_append, rowsFor_map, List.append_assoc]
  · obtain he | he := List.mem_append.mp he
    · exact h.settled e he
    · obtain ⟨r, hr, rfl⟩ := List.mem_map.mp he
      exact hrows r hr

theorem Accounted.write (h : Accounted tables s) {manager : μ} {rows : List Row} {rest : List (μ × List Row)} (answer : Answer)
    (hgroups : s.writer.groups = some ((manager, rows) :: rest)) : Accounted tables (write s manager rows rest answer) := by
  have hstored := h.store fun r hr => List.mem_append_left s.others (h.taken_of_group hgroups hr)
  have raised {s : System μ} (h : Accounted tables s) (hgroups : s.writer.groups = some ((manager, rows) :: rest)) :
      Accounted tables (if s.writer.attempt = 0 then { s with writer := { s.writer with attempt := 1 } }
        else Telemetry.settle { s with lost := s.lost ++ rows.map (Prod.mk manager) } manager rows rest) := by
    split
    · exact ⟨h.room, h.batch, h.unfinished, h.busy, h.order, h.settled, h.source, h.kept, h.lawful⟩
    · have hlost : Accounted tables { s with lost := s.lost ++ rows.map (Prod.mk manager) } :=
        ⟨h.room, h.batch, h.unfinished, h.busy, h.order, fun e he => (h.settled e he).imp_left (List.mem_append_left _),
          h.source, h.kept, h.lawful⟩
      exact hlost.settle hgroups fun r hr => .inl (List.mem_append_right _ (List.mem_map_of_mem hr))
  cases answer with
  | committed =>
    refine hstored.settle hgroups fun r hr => .inr ?_
    simpa [Telemetry.store] using held_insertRows (s.tables manager) rows hr
  | failed => exact raised h hgroups
  | unanswered => exact raised hstored hgroups

/-- A batch that is full, or for which nothing more waits, is grouped. -/
theorem Accounted.group (h : Accounted tables s) (hgroups : s.writer.groups = none) (hitems : s.writer.items ≠ []) :
    Accounted tables { s with writer := { s.writer with groups := some (grouped s.writer.items) } } := by
  refine ⟨h.room, h.batch, h.unfinished, fun he => absurd he hitems, fun manager => ?_, h.settled, h.source, h.kept, h.lawful⟩
  rw [h.order]
  simp [inHand, hgroups, rowsIn_grouped]

/-- An event moves from the queue to the batch. -/
theorem Accounted.pop (h : Accounted tables s) (hgroups : s.writer.groups = none) {e : μ × Row} {queue : List (μ × Row)}
    (hqueue : s.writer.queue = e :: queue) (hroom : s.writer.items.length < batchMax) :
    Accounted tables { s with writer := { s.writer with queue := queue, items := s.writer.items ++ [e] } } := by
  have hlength := h.room
  have hunfinished := h.unfinished
  rw [hqueue, List.length_cons] at hlength hunfinished
  refine ⟨?_, ?_, ?_, fun he => ?_, fun manager => ?_, h.settled, h.source, h.kept, h.lawful⟩
  · dsimp only
    omega
  · simpa [Nat.succ_le_iff] using hroom
  · simp only [hunfinished, List.length_append, List.length_singleton]
    omega
  · simp at he
  · rw [h.order, hqueue, ← List.singleton_append, rowsFor_append]
    simp [inHand, hgroups]

theorem Accounted.act (h : Accounted tables s) (a : Action μ) : Accounted tables (act s a) := by
  cases a with
  | record environment uuid manager e =>
    simp only [Telemetry.act]
    split
    · exact h.submit (eventRow_lawful ‹_›)
    · exact h
  | get =>
    simp only [Telemetry.act]
    split
    · rename_i e queue hgroups hitems hqueue
      have hpop := h.pop hgroups hqueue (by simp [hitems, batchMax])
      rwa [hitems] at hpop
    · exact h
  | getMore =>
    simp only [Telemetry.act]
    split
    · rename_i e items hgroups hitems
      have hne : s.writer.items ≠ [] := by simp [hitems]
      split
      · split
        · exact h.pop hgroups ‹_› ‹_›
        · exact h.group hgroups hne
      · exact h.group hgroups hne
    · exact h
  | insert answer =>
    simp only [Telemetry.act]
    split
    · exact h.write answer ‹_›
    · exact h
  | taskDone =>
    simp only [Telemetry.act]
    split
    · rename_i e rest hgroups hitems
      have hbatch := h.batch
      have hunfinished := h.unfinished
      rw [hitems, List.length_cons] at hbatch hunfinished
      refine ⟨h.room, by dsimp only; omega, by dsimp only; omega, fun he => ?_, fun manager => ?_, h.settled, h.source, h.kept,
        h.lawful⟩
      · simp [show rest = [] from he]
      · rw [h.order]
        by_cases hrest : rest = [] <;> simp [inHand, hgroups, hrest, rowsIn, rowsFor]
    · exact h
  | other manager r =>
    have hothers : Accounted tables { s with others := s.others ++ [(manager, r)] } :=
      ⟨h.room, h.batch, h.unfinished, h.busy, h.order, h.settled,
        fun m r' hr' => (h.source m r' hr').imp_right fun hr' => by
          rw [← List.append_assoc]
          exact List.mem_append_left _ hr', h.kept, h.lawful⟩
    exact hothers.store fun r' hr' => by simp [List.mem_singleton.mp hr']

end Steps

theorem accounted_start (tables : μ → Table) : Accounted tables { tables := tables } := by
  refine ⟨?_, ?_, rfl, ?_, ?_, ?_, ?_, ?_, ?_⟩ <;> simp [rowsFor, inHand]

theorem accounted_run (tables : μ → Table) (actions : List (Action μ)) : Accounted tables (after act actions { tables := tables }) := by
  induction actions using List.reverseRecOn with
  | nil => exact accounted_start tables
  | append_singleton actions a ih =>
    rw [after_concat]
    exact ih.act a

/-- However threads, the writer, its database and other processes take turns, the events of
each manager are handled in the order in which they were taken, each once; what was handled is
stored or reported lost, and a table holds nothing but what it held and what was sent to it. -/
theorem events_accounted (tables : μ → Table) (actions : List (Action μ)) :
    let s := after act actions { tables := tables }
    s.writer.queue.length ≤ queueMax ∧ (∀ manager, rowsFor manager s.handled <+: rowsFor manager s.taken) ∧
    (∀ e ∈ s.handled, e ∈ s.lost ∨ ∃ r ∈ (s.tables e.1).rows, r.id = e.2.id) ∧
    ∀ manager, (tables manager).rows <+: (s.tables manager).rows ∧ ∀ r ∈ (s.tables manager).rows,
      r ∈ (tables manager).rows ∨ ((manager, r) ∈ s.taken ∧ Lawful r) ∨ (manager, r) ∈ s.others := by
  intro s
  have hs : Accounted tables s := accounted_run tables actions
  refine ⟨hs.room, fun manager => ?_, hs.settled, fun manager => ⟨hs.kept manager, fun r hr => ?_⟩⟩
  · rw [hs.order, List.append_assoc]
    exact List.prefix_append _ _
  · obtain h | h := hs.source manager r hr
    · exact .inl h
    · exact .inr ((List.mem_append.mp h).imp_left fun h => ⟨h, hs.lawful _ h⟩)

/-- Once `flush` is answered, each event that was taken is stored or reported lost. -/
theorem flushed_handled (tables : μ → Table) (actions : List (Action μ)) (h : flush (after act actions { tables := tables }) = true) :
    let s := after act actions { tables := tables }
    (∀ manager, rowsFor manager s.taken = rowsFor manager s.handled) ∧
      ∀ e ∈ s.taken, e ∈ s.lost ∨ ∃ r ∈ (s.tables e.1).rows, r.id = e.2.id := by
  intro s
  have hs : Accounted tables s := accounted_run tables actions
  have hnone : s.writer.queue.length + s.writer.items.length = 0 := hs.unfinished.symm.trans (of_decide_eq_true h)
  have hqueue : s.writer.queue = [] := List.eq_nil_of_length_eq_zero (by omega)
  have hitems : s.writer.items = [] := List.eq_nil_of_length_eq_zero (by omega)
  have hall (manager : μ) : rowsFor manager s.taken = rowsFor manager s.handled := by
    rw [hs.order, hqueue, inHand, hs.busy hitems, hitems]
    simp [rowsFor]
  refine ⟨hall, fun e he => hs.settled e ?_⟩
  rw [← mem_rowsFor] at he ⊢
  rwa [← hall]

def download (id : String) : Action Unit :=
  .record "default" id (some ()) { kind := "download", service := "core", userId := .int 7 }

theorem flushed_twice : let s := after act [download "a", download "b", .get, .getMore, .getMore, .insert .failed,
      .insert .unanswered, .taskDone, .taskDone] { tables := fun _ => ⟨[], List.nodup_nil⟩ }
    flush s = true ∧ (∀ manager, rowsFor manager s.taken = rowsFor manager s.handled) ∧
      ∀ e ∈ s.taken, e ∈ s.lost ∨ ∃ r ∈ (s.tables e.1).rows, r.id = e.2.id :=
  have h : flush (after act [download "a", download "b", .get, .getMore, .getMore, .insert .failed, .insert .unanswered,
      .taskDone, .taskDone] { tables := fun _ => ⟨[], List.nodup_nil⟩ }) = true := by decide +kernel
  ⟨h, flushed_handled _ _ h⟩

end XgenSdk.Telemetry
