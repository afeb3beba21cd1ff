import XgenSdk.Db.SchemaDefaults

/-! Which unique indexes a boot leaves. -/
namespace XgenSdk.Migrations
open XgenSdk.Py XgenSdk.Runs

/-! What goes, told from the relations at the start. -/

section Sweeps
variable {upper : String → String} {m : Model} {catalog : Catalog} {relations : List Relation} {column : String}
  {e e' : String × String} {r : Relation} {s s' : Sync} {processed before : List (String × String)}

/-- A unique index on the column alone that is not the primary key's. -/
def Singly (column : String) (r : Relation) : Prop := r.isUnique = true ∧ r.kind ≠ .primary ∧ r.columns = [some column]

theorem mem_uniqueColumns : column ∈ uniqueColumns relations ↔ ∃ r ∈ relations, Singly column r := by
  simp only [uniqueColumns, List.mem_flatMap, List.mem_filter, List.mem_filterMap, id]
  constructor
  · rintro ⟨r, ⟨hr, hunique⟩, hcolumn⟩
    simp only [Bool.and_eq_true, decide_eq_true_eq] at hunique
    obtain ⟨⟨hindex, hkind⟩, hlength⟩ := hunique
    obtain ⟨k, hk⟩ := List.length_eq_one_iff.mp hlength
    refine ⟨r, hr, hindex, by simpa using hkind, ?_⟩
    obtain ⟨a, ha, rfl⟩ := hcolumn
    rw [hk, List.mem_singleton] at ha
    rw [hk, ha]
  · rintro ⟨r, hr, hindex, hkind, hcolumns⟩
    exact ⟨r, ⟨hr, by simp [hindex, hkind, hcolumns]⟩, by simp [hcolumns]⟩

/-- A column with a unique index that the model does not ask for. -/
structure Loose (upper : String → String) (m : Model) (relations : List Relation) (e : String × String) : Prop where
  schema : e ∈ m.schema
  column : e.1 ∈ columnNames m.schema
  base : e.1 ∉ baseColumns
  undeclared : ¬ Declared upper m e.1
  unique : e.1 ∈ uniqueColumns relations

/-- No unique constraint with the column in its key is left by the loose columns before it, so that its indexes go. -/
def DropsIndexes (upper : String → String) (m : Model) (relations : List Relation) (before : List (String × String))
    (e : String × String) : Prop :=
  ∀ r ∈ relations, r.kind = .unique → some e.1 ∈ r.keys → ∃ e' ∈ before, Loose upper m relations e' ∧ some e'.1 ∈ r.keys

/-- A constraint goes with the first loose column in its key, an index with the first loose column
that it reads like and that drops indexes. -/
def Gone (upper : String → String) (m : Model) (relations : List Relation) (processed : List (String × String)) (r : Relation) :
    Prop :=
  (r.kind = .unique ∧ ∃ e ∈ processed, Loose upper m relations e ∧ some e.1 ∈ r.keys) ∨
    (r.kind = .index ∧ ∃ before e rest, processed = before ++ e :: rest ∧ Loose upper m relations e ∧
      DropsIndexes upper m relations before e ∧ like (uniquePattern e.1) r.definition.toList = true)

theorem gone_nil : ¬ Gone upper m relations [] r := by
  rintro (⟨-, e, he, -⟩ | ⟨-, before, e, rest, h, -⟩)
  · cases he
  · simp at h

theorem gone_concat_iff : Gone upper m relations (processed ++ [e]) r ↔ Gone upper m relations processed r ∨
    (Loose upper m relations e ∧ ((r.kind = .unique ∧ some e.1 ∈ r.keys) ∨
      (r.kind = .index ∧ DropsIndexes upper m relations processed e ∧ like (uniquePattern e.1) r.definition.toList = true))) := by
  constructor
  · rintro (⟨hkind, e', he', hloose, hkey⟩ | ⟨hkind, before, e', rest, hsplit, hloose, hdrops, hlike⟩)
    · obtain he' | he' := List.mem_append.mp he'
      · exact .inl (.inl ⟨hkind, e', he', hloose, hkey⟩)
      · rw [List.mem_singleton.mp he'] at hloose hkey
        exact .inr ⟨hloose, .inl ⟨hkind, hkey⟩⟩
    · obtain ⟨rfl, rfl, -⟩ | ⟨rest', -, hprocessed⟩ := concat_eq_iff.mp hsplit
      · exact .inr ⟨hloose, .inr ⟨hkind, hdrops, hlike⟩⟩
      · exact .inl (.inr ⟨hkind, before, e', rest', hprocessed, hloose, hdrops, hlike⟩)
  · rintro ((⟨hkind, e', he', hloose, hkey⟩ | ⟨hkind, before, e', rest, hsplit, hloose, hdrops, hlike⟩) | ⟨hloose, ⟨hkind, hkey⟩ | ⟨hkind, hdrops, hlike⟩⟩)
    · exact .inl ⟨hkind, e', List.mem_append_left _ he', hloose, hkey⟩
    · exact .inr ⟨hkind, before, e', rest ++ [e], concat_eq_iff.mpr (.inr ⟨rest, rfl, hsplit⟩), hloose, hdrops, hlike⟩
    · exact .inl ⟨hkind, e, List.mem_append_right _ List.mem_cons_self, hloose, hkey⟩
    · exact .inr ⟨hkind, processed, e, [], rfl, hloose, hdrops, hlike⟩

/-! One column. -/

theorem mem_executeAll_drops {tableName : String} {ds : List Ddl} (h : OnlyDrops ds) :
    r ∈ (executeAll (fun _ => true) tableName ds s).relations ↔ r ∈ s.relations ∧ ∀ d ∈ ds, d.removes r = false := by
  induction ds generalizing s with
  | nil => simp [executeAll]
  | cons d ds ih =>
    have hrest : OnlyDrops ds := fun d' hd' => h d' (List.mem_cons_of_mem d hd')
    have hstep : (executeDdl (fun _ => true) tableName s d).relations = s.relations.filter fun r => !d.removes r := by
      rw [executeDdl, if_pos rfl]
      dsimp only
      rw [h d List.mem_cons_self, List.append_nil]
    have hnext := ih hrest (s := executeDdl (fun _ => true) tableName s d)
    rw [hstep, List.mem_filter, Bool.not_eq_true', and_assoc] at hnext
    rw [List.forall_mem_cons]
    exact hnext

theorem mem_dropped (hdistinct : Distinct s.relations) {tableName : String} :
    r ∈ (executeAll (fun _ => true) tableName (dropDdl column s.relations) s).relations ↔
      r ∈ s.relations ∧ r ∉ condemned column s.relations := by
  rw [mem_executeAll_drops (onlyDrops_dropDdl _ _)]
  refine and_congr_right fun hr => ?_
  rw [← removes_dropDdl_iff hdistinct hr]
  simp

/-- A column that is to be unique and is not. -/
structure Wanted (upper : String → String) (m : Model) (relations : List Relation) (e : String × String) : Prop where
  schema : e ∈ m.schema
  column : e.1 ∈ columnNames m.schema
  base : e.1 ∉ baseColumns
  declared : Declared upper m e.1
  unique : e.1 ∉ uniqueColumns relations

/-- After some columns: what is left, and what was made. -/
structure Swept (upper : String → String) (m : Model) (relations : List Relation) (processed : List (String × String)) (s : Sync) :
    Prop where
  kept : ∀ r ∈ relations, r ∈ s.relations ↔ ¬ Gone upper m relations processed r
  old : ∀ r ∈ s.relations, r ∈ relations ∨ ∃ name, ∃ e ∈ processed, Wanted upper m relations e ∧ r = uniqueOn m.tableName name e.1
  made : ∀ e ∈ processed, Wanted upper m relations e → ∃ name, uniqueOn m.tableName name e.1 ∈ s.relations
  distinct : Distinct s.relations

theorem swept_start (h : Distinct relations) : Swept upper m relations [] { relations := relations } where
  kept _ hr := iff_of_true hr gone_nil
  old _ hr := .inl hr
  made _ he := absurd he List.not_mem_nil
  distinct := h

/-- What is there with the column in its key was there from the start, when the column is not declared. -/
theorem Swept.of_key (h : Swept upper m relations processed s) (hundeclared : ¬ Declared upper m column) (hr : r ∈ s.relations)
    (hkey : some column ∈ r.keys) : r ∈ relations := by
  obtain hold | ⟨name, e, -, hwanted, rfl⟩ := h.old r hr
  · exact hold
  · rw [uniqueOn, List.mem_singleton, Option.some.injEq] at hkey
    exact absurd (hkey ▸ hwanted.declared) hundeclared

/-- The column drops indexes where no constraint is left for it. -/
theorem Swept.onKey_nil_iff (h : Swept upper m relations processed s) (hloose : Loose upper m relations e) :
    onKey e.1 s.relations = [] ↔ DropsIndexes upper m relations processed e := by
  rw [List.eq_nil_iff_forall_not_mem]
  constructor
  · intro hnone r hr hkind hkey
    have hgone : ¬ r ∈ s.relations := fun hin => hnone r (mem_onKey.mpr ⟨hin, hkind, hkey⟩)
    rw [h.kept r hr, not_not] at hgone
    obtain ⟨-, e', he', hloose', hkey'⟩ | ⟨hindex, -⟩ := hgone
    · exact ⟨e', he', hloose', hkey'⟩
    · rw [hkind] at hindex
      cases hindex
  · intro hdrops r hr
    obtain ⟨hin, hkind, hkey⟩ := mem_onKey.mp hr
    have hold := h.of_key hloose.undeclared hin hkey
    obtain ⟨e', he', hloose', hkey'⟩ := hdrops r hold hkind hkey
    exact (h.kept r hold).mp hin (.inl ⟨hkind, e', he', hloose', hkey'⟩)

theorem Swept.condemned_iff (h : Swept upper m relations processed s) (hloose : Loose upper m relations e) (hr : r ∈ s.relations) :
    r ∈ condemned e.1 s.relations ↔ (r.kind = .unique ∧ some e.1 ∈ r.keys) ∨
      (r.kind = .index ∧ DropsIndexes upper m relations processed e ∧ like (uniquePattern e.1) r.definition.toList = true) := by
  rw [condemned]
  by_cases hnil : onKey e.1 s.relations = []
  · rw [if_neg (not_not.mpr hnil), List.mem_filter, Bool.and_eq_true, decide_eq_true_eq]
    have hdrops := (h.onKey_nil_iff hloose).mp hnil
    constructor
    · rintro ⟨-, hkind, hlike⟩
      exact .inr ⟨hkind, hdrops, hlike⟩
    · rintro (⟨hkind, hkey⟩ | ⟨hkind, -, hlike⟩)
      · have hin := mem_onKey.mpr ⟨hr, hkind, hkey⟩
        rw [hnil] at hin
        cases hin
      · exact ⟨hr, hkind, hlike⟩
  · rw [if_pos hnil, mem_onKey]
    constructor
    · rintro ⟨-, hkind, hkey⟩
      exact .inl ⟨hkind, hkey⟩
    · rintro (⟨hkind, hkey⟩ | ⟨-, hdrops, -⟩)
      · exact ⟨hr, hkind, hkey⟩
      · exact absurd ((h.onKey_nil_iff hloose).mpr hdrops) hnil

theorem Loose.not_wanted (h : Loose upper m relations e) : ¬ Wanted upper m relations e := fun hwanted => h.undeclared hwanted.declared

theorem Swept.idle (h : Swept upper m relations processed s) (hloose : ¬ Loose upper m relations e)
    (hwanted : ¬ Wanted upper m relations e) (hsame : s'.relations = s.relations) :
    Swept upper m relations (processed ++ [e]) s' := by
  refine ⟨fun r hr => ?_, fun r hr => ?_, fun e' he' hwanted' => ?_, hsame ▸ h.distinct⟩
  · rw [hsame, h.kept r hr, gone_concat_iff]
    exact not_congr (or_iff_left fun hlast => hloose hlast.1).symm
  · rw [hsame] at hr
    refine (h.old r hr).imp_right ?_
    rintro ⟨name, e', he', hwanted', rfl⟩
    exact ⟨name, e', List.mem_append_left _ he', hwanted', rfl⟩
  · obtain he' | he' := List.mem_append.mp he'
    · rw [hsame]
      exact h.made e' he' hwanted'
    · rw [List.mem_singleton.mp he'] at hwanted'
      exact absurd hwanted' hwanted

theorem Swept.adds (h : Swept upper m relations processed s) (hwanted : Wanted upper m relations e) {name : String}
    (hnew : name ∉ s.relations.map Relation.name)
    (hrelations : s'.relations = s.relations ++ [uniqueOn m.tableName name e.1]) :
    Swept upper m relations (processed ++ [e]) s' := by
  refine ⟨fun r hr => ?_, fun r hr => ?_, fun e' he' hwanted' => ?_, ?_⟩
  · rw [gone_concat_iff, or_iff_left fun hlast : Loose upper m relations e ∧ _ => hlast.1.not_wanted hwanted, ← h.kept r hr, hrelations,
      List.mem_append, List.mem_singleton]
    refine or_iff_left ?_
    rintro rfl
    exact hwanted.unique (mem_uniqueColumns.mpr ⟨_, hr, rfl, by simp [uniqueOn], rfl⟩)
  · rw [hrelations] at hr
    obtain hr | hr := List.mem_append.mp hr
    · refine (h.old r hr).imp_right ?_
      rintro ⟨name', e', he', hwanted', rfl⟩
      exact ⟨name', e', List.mem_append_left _ he', hwanted', rfl⟩
    · exact .inr ⟨name, e, List.mem_append_right _ List.mem_cons_self, hwanted, List.mem_singleton.mp hr⟩
  · rw [hrelations]
    obtain he' | he' := List.mem_append.mp he'
    · obtain ⟨name', hin⟩ := h.made e' he' hwanted'
      exact ⟨name', List.mem_append_left _ hin⟩
    · rw [List.mem_singleton.mp he']
      exact ⟨name, List.mem_append_right _ List.mem_cons_self⟩
  · rw [hrelations, Distinct, List.map_append]
    exact List.Nodup.append h.distinct (List.nodup_singleton _) (by simpa [uniqueOn] using hnew)

theorem Swept.drops (h : Swept upper m relations processed s) (hloose : Loose upper m relations e)
    (hrelations : ∀ r, r ∈ s'.relations ↔ r ∈ s.relations ∧ r ∉ condemned e.1 s.relations) (hdistinct : Distinct s'.relations) :
    Swept upper m relations (processed ++ [e]) s' := by
  refine ⟨fun r hr => ?_, fun r hr => ?_, fun e' he' hwanted' => ?_, hdistinct⟩
  · rw [hrelations, gone_concat_iff, not_or, ← h.kept r hr]
    refine and_congr_right fun hin => ?_
    rw [h.condemned_iff hloose hin]
    exact not_congr (and_iff_right hloose).symm
  · refine (h.old r ((hrelations r).mp hr).1).imp_right ?_
    rintro ⟨name', e', he', hwanted', rfl⟩
    exact ⟨name', e', List.mem_append_left _ he', hwanted', rfl⟩
  · obtain he' | he' := List.mem_append.mp he'
    · obtain ⟨name', hin⟩ := h.made e' he' hwanted'
      refine ⟨name', (hrelations _).mpr ⟨hin, fun hcondemned => ?_⟩⟩
      obtain ⟨-, hkey⟩ | ⟨hkind, -⟩ := (h.condemned_iff hloose hin).mp hcondemned
      · rw [uniqueOn, List.mem_singleton, Option.some.injEq] at hkey
        exact hloose.undeclared (hkey ▸ hwanted'.declared)
      · cases hkind
    · rw [List.mem_singleton.mp he'] at hwanted'
      exact absurd hwanted' hloose.not_wanted

theorem executeAll_congr {tableName : String} {ds : List Ddl} (h : s.relations = s'.relations) :
    (executeAll (fun _ => true) tableName ds s).relations = (executeAll (fun _ => true) tableName ds s').relations := by
  induction ds generalizing s s' with
  | nil => exact h
  | cons d ds ih =>
    have hstep : (executeDdl (fun _ => true) tableName s d).relations = (executeDdl (fun _ => true) tableName s' d).relations := by
      rw [executeDdl, executeDdl, if_pos rfl, if_pos rfl]
      dsimp only
      rw [h]
    exact ih hstep

/-- Of the statements of a column only those about uniqueness touch the relations. -/
theorem relations_between {tableName : String} {ds ds' ds'' : List Ddl} (h : ∀ d ∈ ds, ∃ column action, d = .alterColumn column action)
    (h'' : ∀ d ∈ ds'', ∃ column action, d = .alterColumn column action) :
    (executeAll (fun _ => true) tableName (ds ++ ds' ++ ds'') s).relations = (executeAll (fun _ => true) tableName ds' s).relations := by
  rw [executeAll_append, executeAll_append, (executeAll_alter h'').relations]
  exact executeAll_congr (executeAll_alter h).relations

theorem uniqueDdl_keep (tableName : String) (b : Bool) (relations : List Relation) :
    uniqueDdl tableName column b b relations = [] := by cases b <;> rfl

theorem uniqueDdl_drop (tableName : String) (relations : List Relation) :
    uniqueDdl tableName column false true relations = dropDdl column relations := rfl

theorem Swept.step (h : Swept upper m catalog.relations processed s) (he : e ∈ m.schema)
    (hpresent : e.1 ∈ columnNames m.schema → (catalog.columns.find? fun c => c.name = e.1).isSome = true)
    (hfree : Wanted upper m catalog.relations e → constraintName m.tableName e.1 ∉ s.relations.map Relation.name) :
    Swept upper m catalog.relations (processed ++ [e]) (syncColumn upper (fun _ => true) m catalog s e) := by
  have hdistinct : Distinct (syncColumn upper (fun _ => true) m catalog s e).relations := by
    rw [syncColumn_eq]
    exact executeAll_distinct h.distinct
  rw [syncColumn_eq] at hdistinct ⊢
  by_cases hcolumn : e.1 ∈ columnNames m.schema ∧ e.1 ∉ baseColumns
  · obtain ⟨current, hcurrent⟩ := Option.isSome_iff_exists.mp (hpresent hcolumn.1)
    have hddl : columnDdl upper m catalog s.relations e =
        notNullDdl (parseColumnConstraints upper e.2) current ++
          uniqueDdl m.tableName e.1 (expectedUnique upper m e) ((uniqueColumns catalog.relations).contains e.1) s.relations ++
          defaultDdl upper (parseColumnConstraints upper e.2) current := by
      rw [columnDdl, List.contains_iff_mem.mpr hcolumn.1, Bool.not_true, if_neg Bool.false_ne_true, hcurrent]
      dsimp only
      rw [if_neg (by simpa using hcolumn.2)]
    rw [hddl] at hdistinct ⊢
    have hrelations (ds : List Ddl) : (executeAll (fun _ => true) m.tableName (notNullDdl (parseColumnConstraints upper e.2) current ++
        ds ++ defaultDdl upper (parseColumnConstraints upper e.2) current) s).relations =
        (executeAll (fun _ => true) m.tableName ds s).relations :=
      relations_between (notNullDdl_alter _ _) (defaultDdl_alter _ _)
    by_cases hdeclared : Declared upper m e.1
    · rw [(expectedUnique_iff he).mpr hdeclared] at hdistinct ⊢
      by_cases hunique : e.1 ∈ uniqueColumns catalog.relations
      · rw [List.contains_iff_mem.mpr hunique, uniqueDdl_keep]
        exact h.idle (fun hloose => hloose.undeclared hdeclared) (fun hwanted => hwanted.unique hunique) (hrelations [])
      · have hwanted : Wanted upper m catalog.relations e := ⟨he, hcolumn.1, hcolumn.2, hdeclared, hunique⟩
        have hcontains : (uniqueColumns catalog.relations).contains e.1 = false := by simpa using hunique
        refine h.adds hwanted (hfree hwanted) ?_
        rw [hcontains, hrelations]
        have hfresh : (s.relations.any fun r => r.name = constraintName m.tableName e.1) = false := by
          simpa using hfree hwanted
        simp [uniqueDdl, executeAll, executeDdl, Ddl.removes, Ddl.added, hfresh]
    · have hexpected : expectedUnique upper m e = false := by
        rw [← Bool.not_eq_true, expectedUnique_iff he]
        exact hdeclared
      rw [hexpected] at hdistinct ⊢
      by_cases hunique : e.1 ∈ uniqueColumns catalog.relations
      · rw [List.contains_iff_mem.mpr hunique, uniqueDdl_drop] at hdistinct ⊢
        refine h.drops ⟨he, hcolumn.1, hcolumn.2, hdeclared, hunique⟩ (fun r => ?_) hdistinct
        rw [hrelations]
        exact mem_dropped h.distinct
      · have hcontains : (uniqueColumns catalog.relations).contains e.1 = false := by simpa using hunique
        rw [hcontains, uniqueDdl_keep]
        exact h.idle (fun hloose => hunique hloose.unique) (fun hwanted => hdeclared hwanted.declared) (hrelations [])
  · have hnone : columnDdl upper m catalog s.relations e = [] := by
      unfold columnDdl
      split
      · rfl
      · rename_i hname
        have hbase : e.1 ∈ baseColumns := by
          by_contra hbase
          exact hcolumn ⟨by simpa using hname, hbase⟩
        cases catalog.columns.find? fun c => c.name = e.1 with
        | none => rfl
        | some current => exact if_pos (List.contains_iff_mem.mpr hbase)
    rw [hnone]
    exact h.idle (fun hloose => hcolumn ⟨hloose.column, hloose.base⟩) (fun hwanted => hcolumn ⟨hwanted.column, hwanted.base⟩) rfl

end Sweeps
/-! The run over all columns. -/

section Tables
variable {upper : String → String} {m : TypedModel} {pg : Postgres} {t : Table} {catalog : Catalog} {s : Sync}
  {e : String × String} {processed : List (String × String)}

theorem issued_extends (upper : String → String) (m : Model) (catalog : Catalog) (rest : List (String × String)) (s : Sync) :
    ∃ ds, (rest.foldl (syncColumn upper (fun _ => true) m catalog) s).issued = s.issued ++ ds := by
  induction rest generalizing s with
  | nil => exact ⟨[], (List.append_nil _).symm⟩
  | cons e rest ih =>
    obtain ⟨ds, hds⟩ := ih (syncColumn upper (fun _ => true) m catalog s e)
    rw [List.foldl_cons, hds, syncColumn_eq, executeAll_issued, List.append_assoc]
    exact ⟨_, rfl⟩

/-- The constraint of a wanted column is added under a name that is free. -/
theorem free_of_taken (hrel : t.relations = s.relations)
    (hpresent : (catalog.columns.find? fun c => c.name = e.1).isSome = true) (hwanted : Wanted upper m.toModel catalog.relations e)
    (htaken : Along (execute m pg) Taken ((columnDdl upper m.toModel catalog s.relations e).map .sync) t) :
    constraintName m.tableName e.1 ∉ s.relations.map Relation.name := by
  obtain ⟨current, hcurrent⟩ := Option.isSome_iff_exists.mp hpresent
  have hexpected := (expectedUnique_iff hwanted.schema).mpr hwanted.declared
  have hcontains : (uniqueColumns catalog.relations).contains e.1 = false := by simpa using hwanted.unique
  have hddl : columnDdl upper m.toModel catalog s.relations e =
      notNullDdl (parseColumnConstraints upper e.2) current ++
        .addUnique (constraintName m.tableName e.1) e.1 :: defaultDdl upper (parseColumnConstraints upper e.2) current := by
    rw [columnDdl, List.contains_iff_mem.mpr hwanted.column, Bool.not_true, if_neg Bool.false_ne_true, hcurrent]
    dsimp only
    rw [if_neg (by simpa using hwanted.base), hexpected, hcontains, List.append_assoc]
    rfl
  rw [hddl, List.map_append, List.map_cons] at htaken
  have hfree := (htaken _ _ _ rfl).2.2
  rwa [executed_relations s hrel, (executeAll_alter (notNullDdl_alter _ _)).relations] at hfree

theorem Swept.run {rest : List (String × String)} (h : Swept upper m.toModel catalog.relations processed s)
    (hrest : ∀ e ∈ rest, e ∈ m.schema)
    (hpresent : ∀ e ∈ rest, e.1 ∈ columnNames m.schema → (catalog.columns.find? fun c => c.name = e.1).isSome = true)
    (hrel : t.relations = s.relations)
    (htaken : ∀ ds, (rest.foldl (syncColumn upper (fun _ => true) m.toModel catalog) s).issued = s.issued ++ ds →
      Along (execute m pg) Taken (ds.map .sync) t) :
    Swept upper m.toModel catalog.relations (processed ++ rest) (rest.foldl (syncColumn upper (fun _ => true) m.toModel catalog) s) := by
  induction rest generalizing processed s t with
  | nil =>
    rw [List.append_nil]
    exact h
  | cons e rest ih =>
    rw [List.forall_mem_cons] at hrest hpresent
    have hstep := syncColumn_eq upper (fun _ => true) m.toModel catalog s e
    generalize hds : columnDdl upper m.toModel catalog s.relations e = ds at hstep
    have hissued : (syncColumn upper (fun _ => true) m.toModel catalog s e).issued = s.issued ++ ds := by
      rw [hstep, executeAll_issued]
    obtain ⟨later, hlater⟩ := issued_extends upper m.toModel catalog rest (syncColumn upper (fun _ => true) m.toModel catalog s e)
    have hall : Along (execute m pg) Taken ((ds ++ later).map .sync) t :=
      htaken (ds ++ later) (by rw [List.foldl_cons, hlater, hissued, List.append_assoc])
    rw [List.map_append] at hall
    have hnext := h.step hrest.1 hpresent.1 fun hwanted =>
      free_of_taken hrel (hpresent.1 hwanted.column) hwanted (hds ▸ along_left hall)
    have hrun := ih (t := after (execute m pg) (ds.map .sync) t) hnext hrest.2 hpresent.2
      (by rw [hstep, executed_relations s hrel]) fun ds' hds' => by
        rw [hlater, List.append_cancel_left_eq] at hds'
        rw [← hds']
        exact along_right hall
    rwa [List.append_assoc] at hrun

end Tables

/-! The relations of the table before the boot. -/

section Left
variable {u : Uppercase} {m : TypedModel} {pg : Postgres} {t : Table} {name : String} {r : Relation} {e : String × String}

/-- What does not go with a stale column. -/
def relationsLeft (m : TypedModel) (pg : Postgres) (t : Table) : List Relation :=
  t.relations.filter fun r => (staleColumns m t).all fun column => !pg.takes column r

/-- The constraint that comes with a new column. -/
def IsNew (m : TypedModel) (t : Table) (r : Relation) : Prop :=
  ∃ key name, r = uniqueOn m.tableName key name ∧ name ∈ columnNames m.schema ∧ t.column name = none ∧
    (m.definition name).unique = true

theorem relations_alterColumnTypes (es : List ((String × String) × String)) :
    (after (execute m pg) (es.flatMap (alterColumnType u)) t).relations = t.relations := by
  have hsync (t : Table) (name action : String) : (t.sync m pg (.alterColumn name action)).relations = t.relations := by
    rw [sync_relations]
    simp [executeDdl, Ddl.removes, Ddl.added]
  have htype (t : Table) (name typeSql : String) : (t.alterType pg name typeSql).relations = t.relations := by
    unfold Table.alterType
    split <;> rfl
  have hone (t : Table) (e : (String × String) × String) : (after (execute m pg) (alterColumnType u e) t).relations = t.relations := by
    unfold alterColumnType
    split
    · rfl
    · rw [after_cons, execute]
      cases extractDefault u.text e.1.2 with
      | none => rw [Option.map_none, Option.toList_none, after_nil, htype]
      | some value =>
        rw [Option.map_some, Option.toList_some, after_cons, after_nil, execute, hsync, htype]
  induction es generalizing t with
  | nil => rfl
  | cons e es ih => rw [List.flatMap_cons, after_append, ih, hone]

theorem relations_dropColumns (names : List String) : (after (execute m pg) (names.map .dropColumn) t).relations =
    t.relations.filter fun r => names.all fun column => !pg.takes column r := by
  induction names generalizing t with
  | nil => simp [after]
  | cons n names ih =>
    rw [List.map_cons, after_cons, ih, execute, Table.dropColumn, Table.keep]
    dsimp only
    rw [List.filter_filter]
    congr 1
    funext r
    rw [List.all_cons, Bool.and_comm]

theorem relations_add (c : Column) : (t.add c).relations = t.relations := by
  unfold Table.add
  split <;> rfl

theorem relations_relate (h : r.name ∉ t.relations.map Relation.name) : (t.relate r).relations = t.relations ++ [r] := by
  rw [Table.relate, dif_neg h]

theorem relations_addColumn (h : t.column name = none) : ∃ first, (t.addColumn m pg name).relations = t.relations ++ first ∧
    (∀ r ∈ first, ∃ key, r = uniqueOn m.tableName key name ∧ (m.definition name).unique = true) ∧
    ((m.definition name).unique = true → ∃ key, uniqueOn m.tableName key name ∈ first) := by
  have hnone : ¬ (t.column name).isSome = true := by simp [h]
  rw [Table.addColumn, if_neg hnone]
  dsimp only
  split
  · rename_i hunique
    have hfree : (uniqueOn m.tableName (pg.keyName m.tableName t.relations name) name).name ∉
        (t.add (newColumn m pg name)).relations.map Relation.name := by
      rw [relations_add]
      exact pg.fresh m.tableName t.relations name
    refine ⟨[uniqueOn m.tableName (pg.keyName m.tableName t.relations name) name], ?_, fun r hr => ?_,
      fun _ => ⟨_, List.mem_singleton_self _⟩⟩
    · rw [relations_relate hfree, relations_add]
    · exact ⟨_, List.mem_singleton.mp hr, hunique⟩
  · rename_i hunique
    exact ⟨[], by rw [relations_add, List.append_nil], by simp, fun h => absurd h hunique⟩

/-- New columns keep what is there, and bring the constraints of those that are unique. -/
theorem relations_addColumns (es : List (String × String)) (hnodup : (es.map Prod.fst).Nodup)
    (hnew : ∀ e ∈ es, t.column e.1 = none) : ∃ added,
      (after (execute m pg) (es.map fun e => .addColumn e.1 e.2) t).relations = t.relations ++ added ∧
      (∀ r ∈ added, ∃ key, ∃ e ∈ es, r = uniqueOn m.tableName key e.1 ∧ (m.definition e.1).unique = true) ∧
      ∀ e ∈ es, (m.definition e.1).unique = true → ∃ key, uniqueOn m.tableName key e.1 ∈ added := by
  induction es generalizing t with
  | nil => exact ⟨[], (List.append_nil _).symm, by simp, by simp⟩
  | cons e es ih =>
    rw [List.map_cons, List.nodup_cons] at hnodup
    rw [List.forall_mem_cons] at hnew
    have hlater : ∀ e' ∈ es, (t.addColumn m pg e.1).column e'.1 = none := by
      intro e' he'
      have hne : e.1 ≠ e'.1 := fun heq => hnodup.1 (heq ▸ List.mem_map_of_mem he')
      rw [column_addColumn, hnew.2 e' he', if_neg hne, Option.or_none]
    obtain ⟨added, hrelations, hadded, hmade⟩ := ih hnodup.2 hlater
    have hone : ∃ first, (t.addColumn m pg e.1).relations = t.relations ++ first ∧
        (∀ r ∈ first, ∃ key, r = uniqueOn m.tableName key e.1 ∧ (m.definition e.1).unique = true) ∧
        ((m.definition e.1).unique = true → ∃ key, uniqueOn m.tableName key e.1 ∈ first) :=
      relations_addColumn hnew.1
    obtain ⟨first, hfirst, hfirstAdded, hfirstMade⟩ := hone
    refine ⟨first ++ added, ?_, ?_, ?_⟩
    · rw [List.map_cons, after_cons, execute, hrelations, hfirst, List.append_assoc]
    · intro r hr
      obtain hr | hr := List.mem_append.mp hr
      · obtain ⟨key, rfl, hunique⟩ := hfirstAdded r hr
        exact ⟨key, e, List.mem_cons_self, rfl, hunique⟩
      · obtain ⟨key, e', he', rfl, hunique⟩ := hadded r hr
        exact ⟨key, e', List.mem_cons_of_mem e he', rfl, hunique⟩
    · intro e' he' hunique
      obtain rfl | he' := List.mem_cons.mp he'
      · obtain ⟨key, hin⟩ := hfirstMade hunique
        exact ⟨key, List.mem_append_left _ hin⟩
      · obtain ⟨key, hin⟩ := hmade e' he' hunique
        exact ⟨key, List.mem_append_right _ hin⟩

theorem missingColumns_nodup : ((missingColumns m t).map Prod.fst).Nodup := (List.filter_sublist.map _).nodup m.distinct

/-- Before the constraints: what did not go with a column, and the constraints of the new ones. -/
theorem staged_relations : ∃ added, (staged u m t pg).relations =
      (t.relations ++ added).filter (fun r => (staleColumns m t).all fun column => !pg.takes column r) ∧
      (∀ r ∈ added, IsNew m t r) ∧
      ∀ name ∈ columnNames m.schema, t.column name = none → (m.definition name).unique = true →
        ∃ key, uniqueOn m.tableName key name ∈ added := by
  have hnone (e : String × String) (he : e ∈ missingColumns m t) : e.1 ∈ columnNames m.schema ∧ t.column e.1 = none :=
    mem_missingColumns.mp (List.mem_map_of_mem he)
  obtain ⟨added, hrelations, hadded, hmade⟩ := @relations_addColumns m pg t (missingColumns m t) missingColumns_nodup
    fun e he => (hnone e he).2
  refine ⟨added, ?_, fun r hr => ?_, fun name hname habsent hunique => ?_⟩
  · rw [staged, columnStatements, after_append, after_append, relations_dropColumns, relations_alterColumnTypes, hrelations]
  · obtain ⟨key, e, he, rfl, hunique⟩ := hadded r hr
    exact ⟨key, e.1, rfl, (hnone e he).1, (hnone e he).2, hunique⟩
  · obtain ⟨e, he, rfl⟩ := List.mem_map.mp (mem_missingColumns.mpr ⟨hname, habsent⟩)
    exact hmade e he hunique

theorem IsNew.stays (h : IsNew m t r) : ((staleColumns m t).all fun column => !pg.takes column r) = true := by
  obtain ⟨key, name, rfl, hname, -⟩ := h
  rw [List.all_eq_true]
  intro column hcolumn
  have hne : column ≠ name := by
    rintro rfl
    exact not_stale_of_mem hname hcolumn
  simp [Postgres.takes, uniqueOn, Relation.columns, hne]

theorem mem_staged (hr : r ∈ (staged u m t pg).relations) : r ∈ relationsLeft m pg t ∨ IsNew m t r := by
  obtain ⟨added, hrelations, hadded, -⟩ := @staged_relations u m pg t
  rw [hrelations, List.mem_filter] at hr
  obtain ⟨hin, hstays⟩ := hr
  obtain hin | hin := List.mem_append.mp hin
  · exact .inl (List.mem_filter.mpr ⟨hin, hstays⟩)
  · exact .inr (hadded r hin)

theorem left_staged (hr : r ∈ relationsLeft m pg t) : r ∈ (staged u m t pg).relations := by
  obtain ⟨added, hrelations, -, -⟩ := @staged_relations u m pg t
  obtain ⟨hin, hstays⟩ := List.mem_filter.mp hr
  rw [hrelations]
  exact List.mem_filter.mpr ⟨List.mem_append_left _ hin, hstays⟩

theorem new_staged (hname : name ∈ columnNames m.schema) (hnone : t.column name = none)
    (hunique : (m.definition name).unique = true) : ∃ key, uniqueOn m.tableName key name ∈ (staged u m t pg).relations := by
  obtain ⟨added, hrelations, hadded, hmade⟩ := @staged_relations u m pg t
  obtain ⟨key, hin⟩ := hmade name hname hnone hunique
  refine ⟨key, ?_⟩
  rw [hrelations]
  exact List.mem_filter.mpr ⟨List.mem_append_right _ hin, (hadded _ hin).stays⟩

/-- The column of a new constraint is declared unique. -/
theorem declared_of_unique (hname : name ∈ columnNames m.schema) (hunique : (m.definition name).unique = true) :
    Declared u.text m.toModel name := .inr ⟨_, mem_schema hname, unique_parsed u hunique⟩

theorem IsNew.key (h : IsNew m t r) {column : String} (hkey : some column ∈ r.keys) : Declared u.text m.toModel column := by
  obtain ⟨key, name, rfl, hname, -, hunique⟩ := h
  rw [uniqueOn, List.mem_singleton, Option.some.injEq] at hkey
  rw [hkey]
  exact declared_of_unique hname hunique

theorem loose_staged_iff : Loose u.text m.toModel (staged u m t pg).relations e ↔ Loose u.text m.toModel (relationsLeft m pg t) e := by
  constructor
  · rintro ⟨hschema, hcolumn, hbase, hundeclared, hunique⟩
    refine ⟨hschema, hcolumn, hbase, hundeclared, ?_⟩
    obtain ⟨r, hr, hsingly⟩ := mem_uniqueColumns.mp hunique
    obtain hleft | hnew := mem_staged hr
    · exact mem_uniqueColumns.mpr ⟨r, hleft, hsingly⟩
    · obtain ⟨key, name, rfl, hname, -, hdeclared⟩ := hnew
      have hcolumns := hsingly.2.2
      simp only [uniqueOn, Relation.columns, List.map_nil, List.append_nil, List.cons.injEq, Option.some.injEq, and_true] at hcolumns
      exact absurd (hcolumns ▸ declared_of_unique hname hdeclared) hundeclared
  · rintro ⟨hschema, hcolumn, hbase, hundeclared, hunique⟩
    refine ⟨hschema, hcolumn, hbase, hundeclared, ?_⟩
    obtain ⟨r, hr, hsingly⟩ := mem_uniqueColumns.mp hunique
    exact mem_uniqueColumns.mpr ⟨r, left_staged hr, hsingly⟩

theorem dropsIndexes_staged_iff {before : List (String × String)} (hundeclared : ¬ Declared u.text m.toModel e.1) :
    DropsIndexes u.text m.toModel (staged u m t pg).relations before e ↔
      DropsIndexes u.text m.toModel (relationsLeft m pg t) before e := by
  simp only [DropsIndexes, loose_staged_iff]
  constructor
  · intro h r hr
    exact h r (left_staged hr)
  · intro h r hr hkind hkey
    obtain hleft | hnew := mem_staged hr
    · exact h r hleft hkind hkey
    · exact absurd (hnew.key hkey) hundeclared

theorem gone_staged_iff {processed : List (String × String)} : Gone u.text m.toModel (staged u m t pg).relations processed r ↔
    Gone u.text m.toModel (relationsLeft m pg t) processed r := by
  simp only [Gone, loose_staged_iff]
  refine or_congr_right (and_congr_right fun _ => exists_congr fun before => exists_congr fun e => exists_congr fun rest =>
    and_congr_right fun _ => and_congr_right fun hloose => and_congr_left fun _ => ?_)
  exact dropsIndexes_staged_iff hloose.undeclared

end Left
end XgenSdk.Migrations
