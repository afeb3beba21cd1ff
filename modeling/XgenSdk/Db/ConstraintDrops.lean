import XgenSdk.Db.Migrations
import Mathlib.Data.List.Nodup

/-! Which constraints and indexes the synchronisation drops. -/
namespace XgenSdk.Migrations
variable {takes : Nat → Bool} {tableName : String} {s s' : Sync} {d : Ddl} {ds : List Ddl} {r : Relation}

/-! Executing statements. -/

theorem dropped_subset (h : r ∈ s.dropped) : r ∈ (executeAll takes tableName ds s).dropped := by
  induction ds generalizing s with
  | nil => exact h
  | cons d ds ih =>
    refine ih ?_
    unfold executeDdl
    split
    · exact List.mem_append_left _ h
    · exact h

/-- What was there is there, or was dropped. -/
theorem kept_or_dropped (h : r ∈ s.relations) :
    r ∈ (executeAll takes tableName ds s).relations ∨ r ∈ (executeAll takes tableName ds s).dropped := by
  induction ds generalizing s with
  | nil => exact .inl h
  | cons d ds ih =>
    by_cases htakes : takes s.issued.length = true
    · by_cases hremoves : d.removes r = true
      · have hnow : r ∈ (executeDdl takes tableName s d).dropped := by
          rw [executeDdl, if_pos htakes]
          exact List.mem_append_right _ (List.mem_filter.mpr ⟨h, hremoves⟩)
        have hlater : r ∈ (executeAll takes tableName ds (executeDdl takes tableName s d)).dropped := dropped_subset hnow
        exact .inr hlater
      · refine ih ?_
        rw [executeDdl, if_pos htakes]
        exact List.mem_append_left _ (List.mem_filter.mpr ⟨h, by simpa using hremoves⟩)
    · refine ih ?_
      rw [executeDdl, if_neg htakes]
      exact h

/-- Statements that only drop. -/
def OnlyDrops (ds : List Ddl) : Prop := ∀ d ∈ ds, ∀ tableName relations, d.added tableName relations = []

theorem executeDdl_relations (hadds : ∀ tableName relations, d.added tableName relations = [])
    (h : r ∈ (executeDdl takes tableName s d).relations) : r ∈ s.relations := by
  unfold executeDdl at h
  split at h
  · rw [hadds, List.append_nil] at h
    exact List.mem_of_mem_filter h
  · exact h

theorem executeAll_relations (hdrops : OnlyDrops ds) (h : r ∈ (executeAll takes tableName ds s).relations) :
    r ∈ s.relations := by
  induction ds generalizing s with
  | nil => exact h
  | cons d ds ih =>
    have hrest : OnlyDrops ds := fun d' hd' => hdrops d' (List.mem_cons_of_mem d hd')
    exact executeDdl_relations (hdrops d List.mem_cons_self) (ih hrest h)

/-- What is dropped is removed by one of the statements. -/
theorem executeAll_dropped (hdrops : OnlyDrops ds) (h : r ∈ (executeAll takes tableName ds s).dropped) :
    r ∈ s.dropped ∨ r ∈ s.relations ∧ ∃ d ∈ ds, d.removes r = true := by
  induction ds generalizing s with
  | nil => exact .inl h
  | cons d ds ih =>
    have hrest : OnlyDrops ds := fun d' hd' => hdrops d' (List.mem_cons_of_mem d hd')
    obtain hfirst | ⟨hrel, d', hd', hremoves⟩ := ih hrest h
    · unfold executeDdl at hfirst
      split at hfirst
      · obtain hold | hnew := List.mem_append.mp hfirst
        · exact .inl hold
        · obtain ⟨hrel, hremoves⟩ := List.mem_filter.mp hnew
          exact .inr ⟨hrel, d, List.mem_cons_self, hremoves⟩
      · exact .inl hfirst
    · exact .inr ⟨executeDdl_relations (hdrops d List.mem_cons_self) hrel, d', List.mem_cons_of_mem d hd', hremoves⟩

/-- Where the database accepts everything, what a statement removes is dropped. -/
theorem executeAll_removed (h : r ∈ s.relations) (hd : d ∈ ds) (hremoves : d.removes r = true) :
    r ∈ (executeAll (fun _ => true) tableName ds s).dropped := by
  induction ds generalizing s with
  | nil => cases hd
  | cons d' ds ih =>
    by_cases hfirst : d'.removes r = true
    · have hnow : r ∈ (executeDdl (fun _ => true) tableName s d').dropped :=
        List.mem_append_right _ (List.mem_filter.mpr ⟨h, hfirst⟩)
      have hlater : r ∈ (executeAll (fun _ => true) tableName ds (executeDdl (fun _ => true) tableName s d')).dropped :=
        dropped_subset hnow
      exact hlater
    · obtain rfl | hd := List.mem_cons.mp hd
      · exact absurd hremoves hfirst
      · exact ih (List.mem_append_left _ (List.mem_filter.mpr ⟨h, by simpa using hfirst⟩)) hd

def Distinct (relations : List Relation) : Prop := (relations.map Relation.name).Nodup

theorem executeDdl_distinct (h : Distinct s.relations) : Distinct (executeDdl takes tableName s d).relations := by
  unfold executeDdl
  split
  · rw [Distinct, List.map_append]
    refine ((List.filter_sublist.map _).nodup h).append ?_ ?_
    · unfold Ddl.added
      split
      · split
        · exact List.nodup_nil
        · exact List.nodup_singleton _
      · exact List.nodup_nil
    · intro name hold hnew
      obtain ⟨r, hr, rfl⟩ := List.mem_map.mp hold
      obtain ⟨r', hr', he⟩ := List.mem_map.mp hnew
      unfold Ddl.added at hr'
      split at hr'
      · split at hr'
        · cases hr'
        · rename_i hfree
          rw [List.mem_singleton.mp hr'] at he
          simp only [List.any_eq_true, decide_eq_true_eq, not_exists, not_and] at hfree
          exact hfree r (List.mem_of_mem_filter hr) he.symm
      · cases hr'
  · exact h

theorem executeAll_distinct (h : Distinct s.relations) : Distinct (executeAll takes tableName ds s).relations := by
  induction ds generalizing s with
  | nil => exact h
  | cons d ds ih => exact ih (executeDdl_distinct h)

theorem eq_of_name {relations : List Relation} (h : Distinct relations) {r' : Relation} (hr : r ∈ relations)
    (hr' : r' ∈ relations) (he : r.name = r'.name) : r = r' :=
  List.inj_on_of_nodup_map h hr hr' he

/-! What the model declares, and what a column condemns. -/

section Columns
variable {upper : String → String} {m : Model} {catalog : Catalog} {e : String × String} {column : String}

/-- The column is declared unique: in its definition or outside of it. -/
def Declared (upper : String → String) (m : Model) (column : String) : Prop :=
  column ∈ m.declaredUnique ∨
    ∃ columnDef, (column, columnDef) ∈ m.schema ∧ (parseColumnConstraints upper columnDef).unique = true

theorem eq_of_key {e' : String × String} (he : e ∈ m.schema) (he' : e' ∈ m.schema) (h : e.1 = e'.1) : e = e' :=
  List.inj_on_of_nodup_map m.distinct he he' h

theorem expectedUnique_iff (he : e ∈ m.schema) : expectedUnique upper m e = true ↔ Declared upper m e.1 := by
  rw [expectedUnique, Bool.or_eq_true, List.contains_iff_mem, Declared, or_comm]
  refine or_congr_right ⟨fun h => ⟨e.2, he, h⟩, ?_⟩
  rintro ⟨columnDef, hdef, h⟩
  rwa [eq_of_key he hdef rfl]

/-- On exactly one column, which is not declared unique. -/
def Stale (upper : String → String) (m : Model) (r : Relation) : Prop :=
  ∃ column, r.columns = [some column] ∧ ¬ Declared upper m column

/-- A column of the table with a unique index that the model does not ask for. -/
structure Obsolete (upper : String → String) (m : Model) (catalog : Catalog) (e : String × String) : Prop where
  schema : e ∈ m.schema
  column : e.1 ∈ columnNames m.schema
  present : ∃ c ∈ catalog.columns, c.name = e.1
  base : e.1 ∉ baseColumns
  undeclared : ¬ Declared upper m e.1
  unique : e.1 ∈ uniqueColumns catalog.relations

def onKey (column : String) (relations : List Relation) : List Relation :=
  relations.filter fun r => r.kind = .unique && r.keys.contains (some column)

/-- What goes for a column: every unique constraint with the column in its key;
without one, every index whose definition is like the pattern. -/
def condemned (column : String) (relations : List Relation) : List Relation :=
  if onKey column relations ≠ [] then onKey column relations
  else relations.filter fun r => r.kind = .index && like (uniquePattern column) r.definition.toList

def dropDdl (column : String) (relations : List Relation) : List Ddl :=
  if !(constraintNames column relations).isEmpty then (constraintNames column relations).map .dropConstraint
  else (indexNames column relations).map .dropIndex

theorem onlyDrops_dropDdl (column : String) (relations : List Relation) : OnlyDrops (dropDdl column relations) := by
  intro d hd
  unfold dropDdl at hd
  split at hd
  · obtain ⟨name, _, rfl⟩ := List.mem_map.mp hd
    exact fun _ _ => rfl
  · obtain ⟨name, _, rfl⟩ := List.mem_map.mp hd
    exact fun _ _ => rfl

theorem removes_dropDdl_iff {relations : List Relation} (h : Distinct relations) (hr : r ∈ relations) :
    (∃ d ∈ dropDdl column relations, d.removes r = true) ↔ r ∈ condemned column relations := by
  have hnames : constraintNames column relations = (onKey column relations).map Relation.name := rfl
  unfold dropDdl condemned
  by_cases hkey : onKey column relations = []
  · rw [hnames, hkey, if_neg (by simp), if_neg (by simp)]
    constructor
    · rintro ⟨d, hd, hremoves⟩
      obtain ⟨name, hname, rfl⟩ := List.mem_map.mp hd
      obtain ⟨r', hr', rfl⟩ := List.mem_map.mp hname
      simp only [Ddl.removes, Bool.and_eq_true, decide_eq_true_eq] at hremoves
      obtain rfl := eq_of_name h hr (List.mem_of_mem_filter hr') hremoves.1
      have hlike := (List.mem_filter.mp hr').2
      exact List.mem_filter.mpr ⟨hr, by simp [hremoves.2, hlike]⟩
    · intro hcondemned
      have hlike := (List.mem_filter.mp hcondemned).2
      simp only [Bool.and_eq_true, decide_eq_true_eq] at hlike
      exact ⟨.dropIndex r.name, List.mem_map_of_mem (List.mem_map_of_mem (List.mem_filter.mpr ⟨hr, hlike.2⟩)),
        by simp [Ddl.removes, hlike.1]⟩
  · rw [hnames, if_pos (by simpa using hkey), if_pos hkey]
    constructor
    · rintro ⟨d, hd, hremoves⟩
      obtain ⟨name, hname, rfl⟩ := List.mem_map.mp hd
      obtain ⟨r', hr', rfl⟩ := List.mem_map.mp hname
      simp only [Ddl.removes, Bool.and_eq_true, decide_eq_true_eq] at hremoves
      obtain rfl := eq_of_name h hr (List.mem_of_mem_filter hr') hremoves.1
      exact hr'
    · intro hcondemned
      have hunique := (List.mem_filter.mp hcondemned).2
      simp only [Bool.and_eq_true, decide_eq_true_eq] at hunique
      exact ⟨.dropConstraint r.name, List.mem_map_of_mem (List.mem_map_of_mem hcondemned),
        by simp [Ddl.removes, hunique.1]⟩

/-! One column. -/

/-- Relations and what was dropped; the statements executed do not matter. -/
structure SameRelations (s s' : Sync) : Prop where
  relations : s'.relations = s.relations
  dropped : s'.dropped = s.dropped

theorem SameRelations.trans {s'' : Sync} (h : SameRelations s s') (h' : SameRelations s' s'') : SameRelations s s'' :=
  ⟨h'.relations.trans h.relations, h'.dropped.trans h.dropped⟩

theorem executeAll_alter (h : ∀ d ∈ ds, ∃ column action, d = .alterColumn column action) :
    SameRelations s (executeAll takes tableName ds s) := by
  induction ds generalizing s with
  | nil => exact ⟨rfl, rfl⟩
  | cons d ds ih =>
    obtain ⟨column, action, rfl⟩ := h d List.mem_cons_self
    have hfirst : SameRelations s (executeDdl takes tableName s (.alterColumn column action)) := by
      unfold executeDdl
      split
      · exact ⟨by simp [Ddl.removes, Ddl.added], by simp [Ddl.removes]⟩
      · exact ⟨rfl, rfl⟩
    have hrest := ih (s := executeDdl takes tableName s (.alterColumn column action))
      fun d' hd' => h d' (List.mem_cons_of_mem _ hd')
    exact hfirst.trans hrest

theorem notNullDdl_alter (expected : Constraints) (current : ColumnInfo) :
    ∀ d ∈ notNullDdl expected current, ∃ column action, d = .alterColumn column action := by
  unfold notNullDdl
  split
  · simp
  · split <;> simp

theorem defaultDdl_alter (expected : Constraints) (current : ColumnInfo) :
    ∀ d ∈ defaultDdl upper expected current, ∃ column action, d = .alterColumn column action := by
  unfold defaultDdl
  split
  · split <;> simp
  · split <;> simp

/-- A unique constraint on one column, as the synchronisation adds them. -/
def Added (upper : String → String) (m : Model) (r : Relation) : Prop :=
  ∃ name column, r = uniqueOn m.tableName name column ∧ Declared upper m column

/-- What synchronising a column does to the relations. -/
inductive Synced (upper : String → String) (takes : Nat → Bool) (m : Model) (catalog : Catalog) (s s' : Sync)
    (e : String × String) : Prop where
  | idle (h : SameRelations s s') : Synced upper takes m catalog s s' e
  | adds {added : List Relation} (hadded : ∀ r ∈ added, Added upper m r) (hrelations : s'.relations = s.relations ++ added)
      (hdropped : s'.dropped = s.dropped) (hdistinct : Distinct s.relations → Distinct s'.relations) :
      Synced upper takes m catalog s s' e
  | drops (h : Obsolete upper m catalog e) {s₀ : Sync} (hstart : SameRelations s s₀)
      (hend : SameRelations (executeAll takes m.tableName (dropDdl e.1 s₀.relations) s₀) s') :
      Synced upper takes m catalog s s' e

/-- The statements for an obsolete column are those that drop what it condemns. -/
theorem syncColumn_obsolete (h : Obsolete upper m catalog e) (takes : Nat → Bool) (s : Sync) :
    ∃ s₀, SameRelations s s₀ ∧ SameRelations (executeAll takes m.tableName (dropDdl e.1 s₀.relations) s₀)
      (syncColumn upper takes m catalog s e) := by
  obtain ⟨c, hc, hname⟩ := h.present
  have hfound : (catalog.columns.find? fun c => c.name = e.1).isSome = true :=
    List.find?_isSome.mpr ⟨c, hc, by simpa using hname⟩
  obtain ⟨current, hcurrent⟩ := Option.isSome_iff_exists.mp hfound
  have hexpected : expectedUnique upper m e = false := by
    rw [← Bool.not_eq_true, expectedUnique_iff h.schema]
    exact h.undeclared
  have hcolumn : (columnNames m.schema).contains e.1 = true := by simpa using h.column
  have hbase : baseColumns.contains e.1 = false := by simpa using h.base
  have hunique : (uniqueColumns catalog.relations).contains e.1 = true := by simpa using h.unique
  refine ⟨executeAll takes m.tableName (notNullDdl (parseColumnConstraints upper e.2) current) s,
    executeAll_alter (notNullDdl_alter _ _), ?_⟩
  simp only [syncColumn, hcolumn, hcurrent, hbase, hexpected, hunique, Bool.not_true, Bool.false_eq_true, if_false]
  exact executeAll_alter (defaultDdl_alter _ _)

/-- A unique constraint is added for a declared column, if the database accepts it. -/
theorem addUnique_synced (takes : Nat → Bool) (s : Sync) (hdeclared : Declared upper m column) (name : String) : ∃ added,
    (∀ r ∈ added, Added upper m r) ∧
    (executeDdl takes m.tableName s (.addUnique name column)).relations = s.relations ++ added ∧
    (executeDdl takes m.tableName s (.addUnique name column)).dropped = s.dropped := by
  unfold executeDdl
  split
  · refine ⟨Ddl.added m.tableName s.relations (.addUnique name column), fun r hr => ?_, by simp [Ddl.removes],
      by simp [Ddl.removes]⟩
    unfold Ddl.added at hr
    dsimp only at hr
    split at hr
    · cases hr
    · exact ⟨name, column, List.mem_singleton.mp hr, hdeclared⟩
  · exact ⟨[], by simp, by simp, rfl⟩

theorem syncColumn_synced (upper : String → String) (catalog : Catalog) (he : e ∈ m.schema) (takes : Nat → Bool) (s : Sync) :
    Synced upper takes m catalog s (syncColumn upper takes m catalog s e) e := by
  unfold syncColumn
  split
  · exact .idle ⟨rfl, rfl⟩
  rename_i hcolumn
  split
  · exact .idle ⟨rfl, rfl⟩
  rename_i current hcurrent
  split
  · exact .idle ⟨rfl, rfl⟩
  rename_i hbase
  dsimp only
  generalize hs₀ : executeAll takes m.tableName (notNullDdl (parseColumnConstraints upper e.2) current) s = s₀
  have hstart : SameRelations s s₀ := hs₀ ▸ executeAll_alter (notNullDdl_alter _ _)
  have hend (s₁ : Sync) : SameRelations s₁
      (executeAll takes m.tableName (defaultDdl upper (parseColumnConstraints upper e.2) current) s₁) :=
    executeAll_alter (defaultDdl_alter _ _)
  cases hexpected : expectedUnique upper m e with
  | true =>
    cases hunique : (uniqueColumns catalog.relations).contains e.1 with
    | true => exact .idle (hstart.trans (hend _))
    | false =>
      have hdeclared := (expectedUnique_iff he).mp hexpected
      obtain ⟨added, hadded, hrelations, hdropped⟩ :=
        addUnique_synced takes s₀ hdeclared (constraintName m.tableName e.1)
      have hlast := hend (executeDdl takes m.tableName s₀ (.addUnique (constraintName m.tableName e.1) e.1))
      refine .adds hadded ?_ ?_ fun hdistinct => ?_
      · exact hlast.relations.trans (by rw [hrelations, hstart.relations])
      · exact hlast.dropped.trans (hdropped.trans hstart.dropped)
      · have hadd : Distinct (executeDdl takes m.tableName s₀
            (.addUnique (constraintName m.tableName e.1) e.1)).relations :=
          executeDdl_distinct (hstart.relations ▸ hdistinct)
        exact hlast.relations ▸ hadd
  | false =>
    cases hunique : (uniqueColumns catalog.relations).contains e.1 with
    | true =>
      refine .drops ⟨he, by simpa using hcolumn, ?_, by simpa using hbase, ?_, by simpa using hunique⟩ hstart (hend _)
      · exact ⟨current, List.mem_of_find?_eq_some hcurrent, by simpa using List.find?_some hcurrent⟩
      · rw [← expectedUnique_iff he, hexpected]
        exact Bool.false_ne_true
    | false => exact .idle (hstart.trans (hend _))


/-! The run over all columns. -/

theorem Synced.dropped_subset (h : Synced upper takes m catalog s s' e) (hr : r ∈ s.dropped) : r ∈ s'.dropped := by
  cases h with
  | idle h => exact h.dropped ▸ hr
  | adds _ _ hdropped _ => exact hdropped ▸ hr
  | drops _ hstart hend =>
    rw [hend.dropped]
    exact Migrations.dropped_subset (hstart.dropped ▸ hr)

/-- After some columns: what is there, what has gone and why. -/
structure Reached (upper : String → String) (m : Model) (catalog : Catalog) (processed : List (String × String)) (s : Sync) :
    Prop where
  old : ∀ r ∈ s.relations, r ∈ catalog.relations ∨ Added upper m r
  kept : ∀ r ∈ catalog.relations, r ∈ s.relations ∨ r ∈ s.dropped
  distinct : Distinct s.relations
  byKey : ∀ r ∈ s.dropped, r.kind = .unique → ∃ e ∈ processed, some e.1 ∈ r.keys

theorem mem_onKey {relations : List Relation} :
    r ∈ onKey column relations ↔ r ∈ relations ∧ r.kind = .unique ∧ some column ∈ r.keys := by
  simp [onKey]

theorem condemned_unique {relations : List Relation} (h : r ∈ condemned column relations) (hkind : r.kind = .unique) :
    some column ∈ r.keys := by
  unfold condemned at h
  split at h
  · exact (mem_onKey.mp h).2.2
  · have := (List.mem_filter.mp h).2
    simp [hkind] at this

theorem condemned_subset {relations : List Relation} (h : r ∈ condemned column relations) : r ∈ relations := by
  unfold condemned at h
  split at h
  · exact (mem_onKey.mp h).1
  · exact List.mem_of_mem_filter h

variable {processed : List (String × String)}

/-- What a column drops, the column condemned. -/
theorem dropped_condemned {s₀ : Sync} (hdistinct : Distinct s.relations) (hstart : SameRelations s s₀)
    (hend : SameRelations (executeAll takes m.tableName (dropDdl column s₀.relations) s₀) s') (hr : r ∈ s'.dropped) :
    r ∈ s.dropped ∨ r ∈ condemned column s.relations := by
  rw [hend.dropped] at hr
  obtain hold | ⟨hrel, hremoved⟩ := executeAll_dropped (onlyDrops_dropDdl _ _) hr
  · exact .inl (hstart.dropped ▸ hold)
  · rw [hstart.relations] at hrel hremoved
    exact .inr ((removes_dropDdl_iff hdistinct hrel).mp hremoved)

theorem Reached.step (h : Reached upper m catalog processed s) (hs : Synced upper takes m catalog s s' e) :
    Reached upper m catalog (processed ++ [e]) s' := by
  have hbefore (r : Relation) (hr : r ∈ s.dropped) (hkind : r.kind = .unique) : ∃ e' ∈ processed ++ [e], some e'.1 ∈ r.keys := by
    obtain ⟨e', he', hkey⟩ := h.byKey r hr hkind
    exact ⟨e', List.mem_append_left _ he', hkey⟩
  cases hs with
  | idle hsame =>
    refine ⟨hsame.relations ▸ h.old, ?_, hsame.relations ▸ h.distinct, hsame.dropped ▸ hbefore⟩
    rw [hsame.relations, hsame.dropped]
    exact h.kept
  | adds hadded hrelations hdropped hdistinct =>
    refine ⟨fun r hr => ?_, fun r hr => ?_, hdistinct h.distinct, hdropped ▸ hbefore⟩
    · rw [hrelations] at hr
      exact (List.mem_append.mp hr).elim (h.old r) fun hr => .inr (hadded r hr)
    · rw [hrelations, hdropped]
      exact (h.kept r hr).imp (List.mem_append_left _) id
  | drops hobsolete hstart hend =>
    refine ⟨fun r hr => ?_, fun r hr => ?_, ?_, fun r hr hkind => ?_⟩
    · rw [hend.relations] at hr
      exact h.old r (hstart.relations ▸ executeAll_relations (onlyDrops_dropDdl _ _) hr)
    · rw [hend.relations, hend.dropped]
      obtain hrel | hdropped := h.kept r hr
      · exact kept_or_dropped (hstart.relations ▸ hrel)
      · exact .inr (Migrations.dropped_subset (hstart.dropped ▸ hdropped))
    · rw [hend.relations]
      exact executeAll_distinct (hstart.relations ▸ h.distinct)
    · obtain hold | hcondemned := dropped_condemned h.distinct hstart hend hr
      · exact hbefore r hold hkind
      · exact ⟨e, List.mem_append_right _ List.mem_cons_self, condemned_unique hcondemned hkind⟩

theorem reached_start : Reached upper m catalog [] { relations := catalog.relations } where
  old _ hr := .inl hr
  kept _ hr := .inl hr
  distinct := catalog.distinct
  byKey _ hr := absurd hr List.not_mem_nil

theorem Reached.run {rest : List (String × String)} (h : Reached upper m catalog processed s) (hrest : ∀ e ∈ rest, e ∈ m.schema) :
    Reached upper m catalog (processed ++ rest) (rest.foldl (syncColumn upper takes m catalog) s) := by
  induction rest generalizing processed s with
  | nil =>
    rw [List.append_nil]
    exact h
  | cons e rest ih =>
    rw [List.forall_mem_cons] at hrest
    have hnext := ih (h.step (syncColumn_synced upper catalog hrest.1 takes s)) hrest.2
    rwa [List.append_assoc] at hnext

theorem Stale.key_unique {column' : String} (h : Stale upper m r) (hkey : some column ∈ r.keys) (hkey' : some column' ∈ r.keys) :
    column = column' := by
  obtain ⟨d, hcolumns, _⟩ := h
  have hd (c : String) (hc : some c ∈ r.keys) : c = d := by
    have hmem : some c ∈ r.columns := List.mem_append_left _ hc
    rw [hcolumns, List.mem_singleton] at hmem
    exact Option.some.inj hmem
  rw [hd column hkey, hd column' hkey']

theorem Reached.old_or_declared (h : Reached upper m catalog processed s) (hr : r ∈ s.relations) :
    r ∈ catalog.relations ∨ r.kind = .unique ∧ ∀ column, some column ∈ r.keys → Declared upper m column := by
  obtain hold | ⟨name, column, rfl, hdeclared⟩ := h.old r hr
  · exact .inl hold
  · refine .inr ⟨rfl, fun column' hkey => ?_⟩
    rw [uniqueOn, List.mem_singleton, Option.some.injEq] at hkey
    exact hkey ▸ hdeclared

/-- While only stale relations were dropped, the constraints on the key of a later column are those of the start. -/
theorem Reached.mem_onKey_iff (h : Reached upper m catalog processed s) (hstale : ∀ r ∈ s.dropped, Stale upper m r)
    (he : Obsolete upper m catalog e) (hnew : e.1 ∉ processed.map Prod.fst) :
    r ∈ onKey e.1 s.relations ↔ r ∈ onKey e.1 catalog.relations := by
  rw [mem_onKey, mem_onKey]
  refine and_congr_left fun ⟨hkind, hkey⟩ => ⟨fun hr => ?_, fun hr => ?_⟩
  · obtain hold | ⟨_, hdeclared⟩ := h.old_or_declared hr
    · exact hold
    · exact absurd (hdeclared e.1 hkey) he.undeclared
  · obtain hrel | hdropped := h.kept r hr
    · exact hrel
    · obtain ⟨e', he', hkey'⟩ := h.byKey r hdropped hkind
      have hsame := (hstale r hdropped).key_unique hkey hkey'
      exact absurd (hsame ▸ List.mem_map_of_mem he') hnew

theorem Reached.condemned_iff (h : Reached upper m catalog processed s) (hstale : ∀ r ∈ s.dropped, Stale upper m r)
    (he : Obsolete upper m catalog e) (hnew : e.1 ∉ processed.map Prod.fst) (hr : r ∈ s.relations) :
    r ∈ condemned e.1 s.relations ↔ r ∈ condemned e.1 catalog.relations := by
  have hsame (r : Relation) := h.mem_onKey_iff hstale he hnew (r := r)
  have hempty : onKey e.1 s.relations = [] ↔ onKey e.1 catalog.relations = [] := by
    simp only [List.eq_nil_iff_forall_not_mem, hsame]
  unfold condemned
  by_cases hkey : onKey e.1 s.relations = []
  · rw [if_neg (not_not.mpr hkey), if_neg (not_not.mpr (hempty.mp hkey)), List.mem_filter, List.mem_filter]
    refine and_congr_left fun hlike => iff_of_true hr ?_
    obtain hold | ⟨hkind, _⟩ := h.old_or_declared hr
    · exact hold
    · simp [hkind] at hlike
  · rw [if_pos hkey, if_pos (fun hnil => hkey (hempty.mpr hnil))]
    exact hsame r

/-- Of columns not yet processed that condemn only stale relations, only those go. -/
theorem Reached.run_stale {rest : List (String × String)} (h : Reached upper m catalog processed s)
    (hall : ∀ e, Obsolete upper m catalog e → ∀ r ∈ condemned e.1 catalog.relations, Stale upper m r)
    (hrest : ∀ e ∈ rest, e ∈ m.schema) (hdistinct : ((processed ++ rest).map Prod.fst).Nodup)
    (hstale : ∀ r ∈ s.dropped, Stale upper m r) :
    ∀ r ∈ (rest.foldl (syncColumn upper takes m catalog) s).dropped, Stale upper m r := by
  induction rest generalizing processed s with
  | nil => exact hstale
  | cons e rest ih =>
    rw [List.forall_mem_cons] at hrest
    have hsynced := syncColumn_synced upper catalog hrest.1 takes s
    refine ih (h.step hsynced) hrest.2 (by rwa [List.append_assoc]) fun r hr => ?_
    have hnew : e.1 ∉ processed.map Prod.fst := by
      rw [List.map_append, List.map_cons] at hdistinct
      intro hmem
      exact (List.disjoint_of_nodup_append hdistinct) hmem List.mem_cons_self
    cases hsynced with
    | idle hsame => exact hstale r (hsame.dropped ▸ hr)
    | adds _ _ hdropped _ => exact hstale r (hdropped ▸ hr)
    | drops hobsolete hstart hend =>
      obtain hold | hcondemned := dropped_condemned h.distinct hstart hend hr
      · exact hstale r hold
      · have hrel := condemned_subset hcondemned
        exact hall e hobsolete r ((h.condemned_iff hstale hobsolete hnew hrel).mp hcondemned)

theorem dropped_mono {rest : List (String × String)} (hrest : ∀ e ∈ rest, e ∈ m.schema) (hr : r ∈ s.dropped) :
    r ∈ (rest.foldl (syncColumn upper takes m catalog) s).dropped := by
  induction rest generalizing s with
  | nil => exact hr
  | cons e rest ih =>
    rw [List.forall_mem_cons] at hrest
    exact ih hrest.2 ((syncColumn_synced upper catalog hrest.1 takes s).dropped_subset hr)

/-- Where the database accepts everything, a column drops what it condemns. -/
theorem stale_of_run (h : ∀ r ∈ (runConstraintMigrations upper (fun _ => true) m catalog).dropped, Stale upper m r)
    (he : Obsolete upper m catalog e) (hr : r ∈ condemned e.1 catalog.relations) : Stale upper m r := by
  obtain ⟨before, rest, hschema⟩ := List.append_of_mem he.schema
  have hmem (e' : String × String) (he' : e' ∈ before ∨ e' ∈ rest) : e' ∈ m.schema := by
    rw [hschema]
    simp only [List.mem_append, List.mem_cons]
    exact he'.imp id .inr
  generalize hs : before.foldl (syncColumn upper (fun _ => true) m catalog) { relations := catalog.relations } = s
  have hrun : runConstraintMigrations upper (fun _ => true) m catalog =
      rest.foldl (syncColumn upper (fun _ => true) m catalog) (syncColumn upper (fun _ => true) m catalog s e) := by
    rw [runConstraintMigrations, hschema, List.foldl_append, hs, List.foldl_cons]
  have hreached : Reached upper m catalog before s :=
    hs ▸ reached_start.run fun e' he' => hmem e' (.inl he')
  have hlater (r : Relation) (hr : r ∈ (syncColumn upper (fun _ => true) m catalog s e).dropped) : Stale upper m r :=
    h r (hrun ▸ dropped_mono (fun e' he' => hmem e' (.inr he')) hr)
  have hstale (r : Relation) (hr : r ∈ s.dropped) : Stale upper m r :=
    hlater r ((syncColumn_synced upper catalog he.schema _ s).dropped_subset hr)
  obtain hrel | hdropped := hreached.kept r (condemned_subset hr)
  · have hnew : e.1 ∉ before.map Prod.fst := by
      have hdistinct := m.distinct
      rw [hschema, List.map_append, List.map_cons] at hdistinct
      intro hmem
      exact (List.disjoint_of_nodup_append hdistinct) hmem List.mem_cons_self
    have hcondemned := (hreached.condemned_iff hstale he hnew hrel).mpr hr
    obtain ⟨s₀, hstart, hend⟩ := syncColumn_obsolete he (fun _ => true) s
    obtain ⟨d, hd, hremoves⟩ := (removes_dropDdl_iff hreached.distinct hrel).mpr hcondemned
    refine hlater r ?_
    rw [hend.dropped]
    exact executeAll_removed (hstart.relations ▸ hrel) (hstart.relations ▸ hd) hremoves
  · exact hstale r hdropped

end Columns

/-- Only stale relations are dropped, whatever the database accepts, exactly where
the obsolete columns condemn nothing else. -/
theorem drops_stale_iff (upper : String → String) (m : Model) (catalog : Catalog) :
    (∀ takes, ∀ r ∈ (runConstraintMigrations upper takes m catalog).dropped, Stale upper m r) ↔
      ∀ e, Obsolete upper m catalog e → ∀ r ∈ condemned e.1 catalog.relations, Stale upper m r := by
  constructor
  · intro h e he r hr
    exact stale_of_run (h _) he hr
  · intro h takes
    exact reached_start.run_stale h (fun _ he => he) m.distinct fun _ hr => absurd hr List.not_mem_nil

/-! A column whose own unique index is gone from the model, in a composite constraint. -/

def members : Model where
  tableName := "members"
  schema := [("name", "VARCHAR(100)"), ("team", "VARCHAR(100)"), ("UNIQUE_name_team", "UNIQUE(name, team)")]
  distinct := by decide
  indexes := []

def membersCatalog : Catalog where
  columns := [⟨"name", true, none⟩, ⟨"team", true, none⟩]
  relations :=
    [⟨"uq_name", .index, true, [some "name"], [], "CREATE UNIQUE INDEX uq_name ON public.members USING btree (name)"⟩,
      ⟨"unique_name_team", .unique, true, [some "name", some "team"], [],
        "CREATE UNIQUE INDEX unique_name_team ON public.members USING btree (name, team)"⟩]
  distinct := by decide

theorem composite_constraint_dropped : ¬ ∀ (upper : String → String) (m : Model) (catalog : Catalog) (takes : Nat → Bool),
    ∀ r ∈ (runConstraintMigrations upper takes m catalog).dropped, Stale upper m r := by
  intro h
  obtain ⟨column, hcolumns, _⟩ := h id members membersCatalog (fun _ => true)
    ⟨"unique_name_team", .unique, true, [some "name", some "team"], [],
      "CREATE UNIQUE INDEX unique_name_team ON public.members USING btree (name, team)"⟩ (by decide)
  cases hcolumns

end XgenSdk.Migrations
