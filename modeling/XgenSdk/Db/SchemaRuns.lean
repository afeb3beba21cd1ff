import XgenSdk.Db.SchemaMigrations

/-! What a boot makes of the columns of a table. -/
namespace XgenSdk.Migrations
open XgenSdk.Py XgenSdk.Runs

section Lookups
variable {t : Table} {name column : String}

theorem Table.column_name {c : Column} (h : t.column name = some c) : c.name = name := by
  simpa using List.find?_some h

theorem Table.column_isSome : (t.column name).isSome = true ↔ name ∈ t.columns.map fun c => c.name := by
  simp [Table.column]

theorem column_add (c : Column) : (t.add c).column name = (t.column name).or (if c.name = name then some c else none) := by
  unfold Table.add
  split
  · rename_i hin
    by_cases hname : c.name = name
    · have hsome := Table.column_isSome.mpr (hname ▸ hin)
      obtain ⟨d, hd⟩ := Option.isSome_iff_exists.mp hsome
      rw [hd, Option.some_or]
    · rw [if_neg hname, Option.or_none]
  · rw [Table.column, List.find?_append]
    by_cases hname : c.name = name <;> simp [hname, Table.column]

theorem column_relate (r : Relation) : (t.relate r).column name = t.column name := by
  unfold Table.relate
  split <;> rfl

theorem column_alter (f : Column → Column) :
    (t.alter column f).column name = (t.column name).map fun c => if c.name = column then { f c with name := c.name } else c := by
  rw [Table.column, Table.column, Table.alter, List.find?_map]
  congr 2
  funext c
  rw [Function.comp_apply]
  split <;> rfl

theorem column_alter_ne (f : Column → Column) (h : name ≠ column) : (t.alter column f).column name = t.column name := by
  rw [column_alter]
  cases hc : t.column name with
  | none => rfl
  | some c => simp [Table.column_name hc, h]

theorem column_alter_self (f : Column → Column) :
    (t.alter column f).column column = (t.column column).map fun c => { f c with name := c.name } := by
  rw [column_alter]
  cases hc : t.column column with
  | none => rfl
  | some c => simp [Table.column_name hc]

theorem column_sync_relations (m : TypedModel) (pg : Postgres) (d : Ddl) (h : ∀ action, d ≠ .alterColumn name action) :
    (t.sync m pg d).column name = t.column name := by
  cases d with
  | alterColumn column action =>
    have hname : name ≠ column := fun he => h action (he ▸ rfl)
    exact column_alter_ne _ hname
  | addUnique _ _ => rfl
  | dropConstraint _ => rfl
  | dropIndex _ => rfl

variable (m : TypedModel) (pg : Postgres)

theorem column_sync_alter (action : String) : (t.sync m pg (.alterColumn column action)).column column =
    (t.column column).map fun c => { altered pg action c with name := c.name } := column_alter_self _

theorem column_addColumn : (t.addColumn m pg column).column name =
    (t.column name).or (if column = name then some (newColumn m pg column) else none) := by
  unfold Table.addColumn
  split
  · rename_i hsome
    by_cases hname : column = name
    · obtain ⟨c, hc⟩ := Option.isSome_iff_exists.mp hsome
      rw [← hname, hc, Option.some_or]
    · rw [if_neg hname, Option.or_none]
  · dsimp only
    split
    · rw [column_relate, column_add]
      rfl
    · rw [column_add]
      rfl

theorem column_addColumns (es : List (String × String)) :
    (after (execute m pg) (es.map fun e => .addColumn e.1 e.2) t).column name =
      (t.column name).or (if name ∈ es.map Prod.fst then some (newColumn m pg name) else none) := by
  induction es generalizing t with
  | nil => simp [after]
  | cons e es ih =>
    have hstep : after (execute m pg) ((e :: es).map fun e => Statement.addColumn e.1 e.2) t =
        after (execute m pg) (es.map fun e => .addColumn e.1 e.2) (t.addColumn m pg e.1) := rfl
    rw [hstep, ih, column_addColumn]
    by_cases hname : e.1 = name
    · subst hname
      cases t.column e.1 <;> simp
    · have hother : name ∈ (e :: es).map Prod.fst ↔ name ∈ es.map Prod.fst := by simp [Ne.symm hname]
      simp only [if_neg hname, Option.or_none, hother]

theorem column_dropColumn : (t.dropColumn pg column).column name = if name = column then none else t.column name := by
  rw [Table.column, Table.dropColumn, Table.keep, List.find?_filter]
  by_cases hname : name = column
  · rw [if_pos hname, List.find?_eq_none]
    intro c _
    simp only [ne_eq, decide_not, Bool.not_eq_true', decide_eq_false_iff_not, decide_eq_true_eq, not_and]
    rintro hc rfl
    exact hc hname
  · rw [if_neg hname, Table.column]
    congr 1
    funext c
    by_cases hc : c.name = name
    · simp [hc, hname]
    · simp [hc]

theorem column_dropColumns (names : List String) : (after (execute m pg) (names.map .dropColumn) t).column name =
    if name ∈ names then none else t.column name := by
  induction names generalizing t with
  | nil => simp [after]
  | cons n names ih =>
    have hstep : after (execute m pg) ((n :: names).map .dropColumn) t =
        after (execute m pg) (names.map .dropColumn) (t.dropColumn pg n) := rfl
    rw [hstep, ih, column_dropColumn]
    by_cases hname : name = n <;> simp [hname]

/-! Altering a column to the type of the model. -/

theorem altered_setDefault (value : String) (c : Column) :
    altered pg ("SET DEFAULT " ++ value) c = { c with columnDefault := some (pg.rendered c.dataType value) } := by
  have hne (s : String) (hs : ("SET DEFAULT ".toList.isPrefixOf s.toList) = false) : "SET DEFAULT " ++ value ≠ s := by
    rintro rfl
    rw [String.toList_append, ← Bool.not_eq_true] at hs
    exact hs (List.isPrefixOf_iff_prefix.mpr (List.prefix_append _ _))
  have hdrop : String.ofList (("SET DEFAULT " ++ value).toList.drop 12) = value := by
    rw [String.toList_append, List.drop_left' (by decide), String.ofList_toList]
  rw [altered, if_neg (hne _ (by decide)), if_neg (hne _ (by decide)), if_neg (hne _ (by decide)), if_pos, hdrop]
  rw [String.toList_append]
  exact List.isPrefixOf_iff_prefix.mpr (List.prefix_append _ _)

variable {u : Uppercase} {e : (String × String) × String}

theorem column_alterType_ne (typeSql : String) (h : name ≠ column) : (t.alterType pg column typeSql).column name = t.column name := by
  unfold Table.alterType
  split
  · exact column_alter_ne _ h
  · rfl

theorem column_alterType_self {typeSql dataType : String} (h : typeNamed typeSql = some dataType) :
    (t.alterType pg column typeSql).column column = (t.column column).map fun c =>
      { c with dataType := dataType, columnDefault := c.columnDefault.map (pg.converted dataType) } := by
  rw [Table.alterType, h]
  exact column_alter_self _

theorem alterColumnType_eq {expected : String} (h : normalizePgType e.1.2 = some expected) : ∃ usingClause, alterColumnType u e =
    .alterType e.1.1 (extractTypeSql u.text e.1.2) usingClause ::
      ((extractDefault u.text e.1.2).map fun value => Statement.sync (.alterColumn e.1.1 ("SET DEFAULT " ++ value))).toList := by
  rw [alterColumnType, h]
  exact ⟨_, rfl⟩

theorem column_alterColumnType_ne (h : name ≠ e.1.1) : (after (execute m pg) (alterColumnType u e) t).column name = t.column name := by
  cases hexpected : normalizePgType e.1.2 with
  | none => rw [alterColumnType, hexpected, after_nil]
  | some expected =>
    obtain ⟨usingClause, hstatements⟩ := alterColumnType_eq (u := u) hexpected
    rw [hstatements, after_cons, execute]
    cases extractDefault u.text e.1.2 with
    | none => rw [Option.map_none, Option.toList_none, after_nil, column_alterType_ne pg _ h]
    | some value =>
      rw [Option.map_some, Option.toList_some, after_cons, after_nil, execute, column_sync_relations, column_alterType_ne pg _ h]
      intro action heq
      injection heq with hcolumn
      exact h hcolumn.symm

/-- The column gets the type, and the default if the model has one. -/
theorem column_alterColumnType_self {expected dataType : String} {c : Column} (hexpected : normalizePgType e.1.2 = some expected)
    (hnamed : typeNamed (extractTypeSql u.text e.1.2) = some dataType) (hc : t.column e.1.1 = some c) :
    ∃ c', (after (execute m pg) (alterColumnType u e) t).column e.1.1 = some c' ∧ c'.dataType = dataType ∧
      ∀ value, extractDefault u.text e.1.2 = some value → c'.columnDefault = some (pg.rendered dataType value) := by
  obtain ⟨usingClause, hstatements⟩ := alterColumnType_eq (u := u) hexpected
  rw [hstatements, after_cons, execute]
  have htyped : (t.alterType pg e.1.1 (extractTypeSql u.text e.1.2)).column e.1.1 =
      some { c with dataType := dataType, columnDefault := c.columnDefault.map (pg.converted dataType) } := by
    rw [column_alterType_self pg hnamed, hc, Option.map_some]
  cases hdefault : extractDefault u.text e.1.2 with
  | none =>
    rw [Option.map_none, Option.toList_none, after_nil]
    exact ⟨_, htyped, rfl, by simp⟩
  | some value =>
    rw [Option.map_some, Option.toList_some, after_cons, after_nil, execute, column_sync_alter, htyped, Option.map_some]
    refine ⟨_, rfl, by rw [altered_setDefault], fun value' hvalue => ?_⟩
    rw [altered_setDefault]
    simp only [Option.some.injEq] at hvalue
    rw [hvalue]

theorem column_alterColumnTypes_ne (es : List ((String × String) × String)) (h : ∀ e ∈ es, name ≠ e.1.1) :
    (after (execute m pg) (es.flatMap (alterColumnType u)) t).column name = t.column name := by
  induction es generalizing t with
  | nil => rfl
  | cons e es ih =>
    rw [List.forall_mem_cons] at h
    rw [List.flatMap_cons, after_append, ih h.2, column_alterColumnType_ne m pg h.1]

theorem column_alterColumnTypes_self {es : List ((String × String) × String)} (hes : (es.map fun e => e.1.1).Nodup) (he : e ∈ es)
    {expected dataType : String} {c : Column} (hexpected : normalizePgType e.1.2 = some expected)
    (hnamed : typeNamed (extractTypeSql u.text e.1.2) = some dataType) (hc : t.column e.1.1 = some c) :
    ∃ c', (after (execute m pg) (es.flatMap (alterColumnType u)) t).column e.1.1 = some c' ∧ c'.dataType = dataType ∧
      ∀ value, extractDefault u.text e.1.2 = some value → c'.columnDefault = some (pg.rendered dataType value) := by
  induction es generalizing t with
  | nil => cases he
  | cons e' es ih =>
    rw [List.map_cons, List.nodup_cons] at hes
    rw [List.flatMap_cons, after_append]
    obtain rfl | hin := List.mem_cons.mp he
    · have hlater : ∀ e' ∈ es, e.1.1 ≠ e'.1.1 := fun e' he' hsame => hes.1 (hsame ▸ List.mem_map_of_mem he')
      rw [column_alterColumnTypes_ne m pg es hlater]
      exact column_alterColumnType_self m pg hexpected hnamed hc
    · have hother : e.1.1 ≠ e'.1.1 := by
        intro hsame
        exact hes.1 (hsame ▸ List.mem_map_of_mem hin)
      exact ih hes.2 hin (by rw [column_alterColumnType_ne m pg hother, hc])

end Lookups

/-! The columns added, altered and dropped. -/

section Stages
variable {u : Uppercase} {m : TypedModel} {t : Table} {pg : Postgres} {name : String}

theorem mem_columnNames : name ∈ columnNames m.schema ↔ ∃ e ∈ m.schema, e.1 = name ∧ isConstraintKey name = false := by
  simp only [columnNames, List.mem_filter, List.mem_map, Bool.not_eq_true']
  constructor
  · rintro ⟨⟨e, he, rfl⟩, hkey⟩
    exact ⟨e, he, rfl, hkey⟩
  · rintro ⟨e, he, rfl, hkey⟩
    exact ⟨⟨e, he, rfl⟩, hkey⟩

theorem mem_schema (h : name ∈ columnNames m.schema) : (name, (m.definition name).text) ∈ m.schema := by
  obtain ⟨e, he, rfl, -⟩ := mem_columnNames.mp h
  rw [← m.written e he h]
  exact he

theorem mem_missingColumns : name ∈ (missingColumns m t).map Prod.fst ↔ name ∈ columnNames m.schema ∧ t.column name = none := by
  simp only [missingColumns, List.mem_map, List.mem_filter, Bool.and_eq_true, List.contains_iff_mem, Option.isNone_iff_eq_none]
  constructor
  · rintro ⟨e, ⟨-, hname, hnone⟩, rfl⟩
    exact ⟨hname, hnone⟩
  · rintro ⟨hname, hnone⟩
    exact ⟨_, ⟨mem_schema hname, hname, hnone⟩, rfl⟩

theorem mem_typeMismatchColumns {x : (String × String) × String} : x ∈ typeMismatchColumns m t ↔
    x.1 ∈ m.schema ∧ x.1.1 ∈ columnNames m.schema ∧ ∃ c expected, t.column x.1.1 = some c ∧
      normalizePgType x.1.2 = some expected ∧ c.dataType ≠ expected ∧ x.2 = c.dataType := by
  rw [typeMismatchColumns, List.mem_filterMap]
  constructor
  · rintro ⟨e, he, hx⟩
    split at hx
    · rename_i hname
      obtain ⟨c, hc, hx⟩ := Option.bind_eq_some_iff.mp hx
      obtain ⟨expected, hexpected, hx⟩ := Option.bind_eq_some_iff.mp hx
      split at hx
      · rename_i hne
        rw [Option.some.injEq] at hx
        subst hx
        exact ⟨he, List.contains_iff_mem.mp hname, c, expected, hc, hexpected, hne, rfl⟩
      · cases hx
    · cases hx
  · rintro ⟨he, hname, c, expected, hc, hexpected, hne, htype⟩
    refine ⟨x.1, he, ?_⟩
    rw [if_pos (List.contains_iff_mem.mpr hname), hc, Option.bind_some, hexpected, Option.bind_some, if_pos hne, ← htype]

theorem map_filterMap_sublist {α β γ : Type} {f : α → Option β} {g : β → γ} {k : α → γ} (h : ∀ a b, f a = some b → g b = k a)
    (l : List α) : ((l.filterMap f).map g).Sublist (l.map k) := by
  induction l with
  | nil => exact List.Sublist.slnil
  | cons a l ih =>
    cases hf : f a with
    | none =>
      rw [List.filterMap_cons_none hf]
      exact ih.cons _
    | some b =>
      rw [List.filterMap_cons_some hf, List.map_cons, List.map_cons, h a b hf]
      exact ih.cons_cons _

theorem typeMismatchColumns_nodup : ((typeMismatchColumns m t).map fun x => x.1.1).Nodup := by
  refine (map_filterMap_sublist (k := Prod.fst) (fun e x hx => ?_) m.schema).nodup m.distinct
  split at hx
  · obtain ⟨c, -, hx⟩ := Option.bind_eq_some_iff.mp hx
    obtain ⟨expected, -, hx⟩ := Option.bind_eq_some_iff.mp hx
    split at hx
    · rw [← Option.some.inj hx]
    · cases hx
  · cases hx

theorem mem_staleColumns : name ∈ staleColumns m t ↔
    (t.column name).isSome = true ∧ name ∉ columnNames m.schema ∧ name ∉ baseColumns := by
  rw [staleColumns, List.mem_filter, ← Table.column_isSome, Bool.and_eq_true, Bool.not_eq_true', Bool.not_eq_true',
    ← Bool.not_eq_true, ← Bool.not_eq_true, List.contains_iff_mem, List.contains_iff_mem]

/-- The table with its columns as the model has them. -/
def staged (u : Uppercase) (m : TypedModel) (t : Table) (pg : Postgres) : Table :=
  after (execute m pg) (columnStatements u m t) t

theorem staged_column : (staged u m t pg).column name = if name ∈ staleColumns m t then none else
    (after (execute m pg) ((typeMismatchColumns m t).flatMap (alterColumnType u))
      (after (execute m pg) ((missingColumns m t).map fun e => .addColumn e.1 e.2) t)).column name := by
  rw [staged, columnStatements, after_append, after_append, column_dropColumns]

theorem not_stale_of_mem (h : name ∈ columnNames m.schema) : name ∉ staleColumns m t := fun hstale =>
  (mem_staleColumns.mp hstale).2.1 h

theorem staged_missing (h : name ∈ columnNames m.schema) (hnone : t.column name = none) :
    (staged u m t pg).column name = some (newColumn m pg name) := by
  rw [staged_column, if_neg (not_stale_of_mem h), column_alterColumnTypes_ne, column_addColumns, hnone, Option.none_or,
    if_pos (mem_missingColumns.mpr ⟨h, hnone⟩)]
  rintro x hx rfl
  obtain ⟨-, -, c, -, hc, -⟩ := mem_typeMismatchColumns.mp hx
  rw [hnone] at hc
  cases hc

theorem staged_same {c : Column} (h : name ∈ columnNames m.schema) (hc : t.column name = some c)
    (hsame : normalizePgType (m.definition name).text = some c.dataType) : (staged u m t pg).column name = some c := by
  rw [staged_column, if_neg (not_stale_of_mem h), column_alterColumnTypes_ne, column_addColumns, hc, Option.some_or]
  rintro x hx rfl
  obtain ⟨hschema, -, c', expected, hc', hexpected, hne, -⟩ := mem_typeMismatchColumns.mp hx
  rw [m.written x.1 hschema h, hsame] at hexpected
  rw [hc] at hc'
  exact hne (by rw [← Option.some.inj hc', Option.some.inj hexpected])

theorem staged_altered {c : Column} {expected dataType : String} (h : name ∈ columnNames m.schema) (hc : t.column name = some c)
    (hexpected : normalizePgType (m.definition name).text = some expected) (hne : c.dataType ≠ expected)
    (hnamed : typeNamed (extractTypeSql u.text (m.definition name).text) = some dataType) :
    ∃ c', (staged u m t pg).column name = some c' ∧ c'.dataType = dataType ∧
      ∀ value, extractDefault u.text (m.definition name).text = some value → c'.columnDefault = some (pg.rendered dataType value) := by
  rw [staged_column, if_neg (not_stale_of_mem h)]
  have hadded : (after (execute m pg) ((missingColumns m t).map fun e => .addColumn e.1 e.2) t).column name = some c := by
    rw [column_addColumns, hc, Option.some_or]
  have hin : ((name, (m.definition name).text), c.dataType) ∈ typeMismatchColumns m t :=
    mem_typeMismatchColumns.mpr ⟨mem_schema h, h, c, expected, hc, hexpected, hne, rfl⟩
  exact column_alterColumnTypes_self m pg typeMismatchColumns_nodup hin hexpected hnamed hadded

/-- No other column is left. -/
theorem staged_stale (h : name ∉ columnNames m.schema) (hbase : name ∉ baseColumns) : (staged u m t pg).column name = none := by
  rw [staged_column]
  split
  · rfl
  · rename_i hstale
    rw [column_alterColumnTypes_ne, column_addColumns, if_neg, Option.or_none]
    · rw [mem_staleColumns, not_and] at hstale
      by_contra hsome
      exact hstale (Option.isSome_iff_ne_none.mpr hsome) ⟨h, hbase⟩
    · exact fun hin => h (mem_missingColumns.mp hin).1
    · rintro x hx rfl
      exact h (mem_typeMismatchColumns.mp hx).2.1

end Stages
/-! The constraints of the columns. -/

section Constraints
variable {upper : String → String} {m : TypedModel} {t : Table} {pg : Postgres} {name : String} {catalog : Catalog}
variable {e : String × String} {ds : List Ddl} {relations : List Relation}

/-- What is executed for a column. -/
def columnDdl (upper : String → String) (m : Model) (catalog : Catalog) (relations : List Relation) (e : String × String) : List Ddl :=
  if !(columnNames m.schema).contains e.1 then []
  else match catalog.columns.find? fun c => c.name = e.1 with
    | none => []
    | some current =>
      if baseColumns.contains e.1 then []
      else
        let expected := parseColumnConstraints upper e.2
        notNullDdl expected current ++
          uniqueDdl m.tableName e.1 (expectedUnique upper m e) ((uniqueColumns catalog.relations).contains e.1) relations ++
          defaultDdl upper expected current

theorem executeAll_append (takes : Nat → Bool) (tableName : String) (ds ds' : List Ddl) (s : Sync) :
    executeAll takes tableName (ds ++ ds') s = executeAll takes tableName ds' (executeAll takes tableName ds s) :=
  List.foldl_append

theorem executeAll_issued (takes : Nat → Bool) (tableName : String) (ds : List Ddl) (s : Sync) :
    (executeAll takes tableName ds s).issued = s.issued ++ ds := by
  induction ds generalizing s with
  | nil => exact (List.append_nil _).symm
  | cons d ds ih =>
    have hstep : (executeDdl takes tableName s d).issued = s.issued ++ [d] := by
      unfold executeDdl
      split <;> rfl
    have hnext := ih (executeDdl takes tableName s d)
    rw [hstep, List.append_assoc] at hnext
    exact hnext

theorem syncColumn_eq (upper : String → String) (takes : Nat → Bool) (m : Model) (catalog : Catalog) (s : Sync) (e : String × String) :
    syncColumn upper takes m catalog s e = executeAll takes m.tableName (columnDdl upper m catalog s.relations e) s := by
  unfold syncColumn columnDdl
  split
  · rfl
  · cases catalog.columns.find? fun c => c.name = e.1 with
    | none => rfl
    | some current =>
      dsimp only
      split
      · rfl
      · rw [executeAll_append, executeAll_append]
        rw [(executeAll_alter (notNullDdl_alter (parseColumnConstraints upper e.2) current)).relations]

theorem sync_relations (d : Ddl) :
    (t.sync m pg d).relations = (executeDdl (fun _ => true) m.tableName { relations := t.relations } d).relations := by
  cases d <;> rfl

/-- The table and the synchronisation have the same relations. -/
theorem executed_relations (s : Sync) (h : t.relations = s.relations) :
    (after (execute m pg) (ds.map .sync) t).relations = (executeAll (fun _ => true) m.tableName ds s).relations := by
  induction ds generalizing t s with
  | nil => exact h
  | cons d ds ih =>
    rw [List.map_cons, after_cons]
    refine ih (s := executeDdl (fun _ => true) m.tableName s d) ?_
    rw [execute, sync_relations, h]
    rfl

theorem executed_column (h : ∀ d ∈ ds, ∀ action, d ≠ .alterColumn name action) :
    (after (execute m pg) (ds.map .sync) t).column name = t.column name := by
  induction ds generalizing t with
  | nil => rfl
  | cons d ds ih =>
    rw [List.forall_mem_cons] at h
    rw [List.map_cons, after_cons, ih h.2, execute, column_sync_relations m pg d h.1]

theorem notNullDdl_column (expected : Constraints) (current : ColumnInfo) :
    ∀ d ∈ notNullDdl expected current, ∃ action, d = .alterColumn current.name action := by
  unfold notNullDdl
  split
  · simp
  · split <;> simp

theorem defaultDdl_column (expected : Constraints) (current : ColumnInfo) :
    ∀ d ∈ defaultDdl upper expected current, ∃ action, d = .alterColumn current.name action := by
  unfold defaultDdl
  split
  · split <;> simp
  · split <;> simp

theorem uniqueDdl_column (tableName columnName : String) (expected current : Bool) (relations : List Relation) :
    ∀ d ∈ uniqueDdl tableName columnName expected current relations, ∀ name action, d ≠ .alterColumn name action := by
  unfold uniqueDdl
  split
  · simp
  · split
    · dsimp only
      split <;> simp
    · simp

/-- Of the columns only that of the entry changes. -/
theorem columnDdl_column_ne (h : name ≠ e.1) :
    ∀ d ∈ columnDdl upper m.toModel catalog relations e, ∀ action, d ≠ .alterColumn name action := by
  intro d hd action
  unfold columnDdl at hd
  split at hd
  · cases hd
  · cases hfind : catalog.columns.find? fun c => c.name = e.1 with
    | none =>
      rw [hfind] at hd
      cases hd
    | some current =>
      have hcurrent : current.name = e.1 := by simpa using List.find?_some hfind
      rw [hfind] at hd
      dsimp only at hd
      split at hd
      · cases hd
      · obtain hd | hd := List.mem_append.mp hd
        · obtain hd | hd := List.mem_append.mp hd
          · obtain ⟨action', rfl⟩ := notNullDdl_column _ _ d hd
            rintro heq
            injection heq with hcolumn
            exact h (by rw [← hcurrent, hcolumn])
          · exact uniqueDdl_column _ _ _ _ _ d hd name action
        · obtain ⟨action', rfl⟩ := defaultDdl_column _ _ d hd
          rintro heq
          injection heq with hcolumn
          exact h (by rw [← hcurrent, hcolumn])

/-- The default that a column has once it is synchronised. -/
def syncedDefault (upper : String → String) (pg : Postgres) (expected : Constraints) (c : Column) : Option String :=
  match expected.default with
  | some value =>
    if c.columnDefault.any fun d => normalizedDefault upper d = upper value then c.columnDefault
    else some (pg.rendered c.dataType value)
  | none => if c.columnDefault.any fun d => d ≠ "" && (find "nextval".toList d.toList).isNone then none else c.columnDefault

def syncedColumn (upper : String → String) (pg : Postgres) (expected : Constraints) (c : Column) : Column :=
  { c with isNullable := !expected.notNull, columnDefault := syncedDefault upper pg expected c }

theorem executed_notNull {c : Column} (expected : Constraints) (hc : t.column name = some c) :
    (after (execute m pg) ((notNullDdl expected c.toColumnInfo).map .sync) t).column name =
      some { c with isNullable := !expected.notNull } := by
  obtain rfl := Table.column_name hc
  unfold notNullDdl
  cases hn : expected.notNull <;> cases hi : c.isNullable
  · simp [execute, column_sync_alter, hc, altered]
  · have hsame : { c with isNullable := true } = c := by rw [← hi]
    simp [hsame, hc]
  · have hsame : { c with isNullable := false } = c := by rw [← hi]
    simp [hsame, hc]
  · simp [execute, column_sync_alter, hc, altered]

theorem executed_default {c : Column} (expected : Constraints) (hc : t.column name = some c) (current : ColumnInfo)
    (hname : current.name = c.name) (hdefault : current.columnDefault = c.columnDefault) :
    (after (execute m pg) ((defaultDdl upper expected current).map .sync) t).column name =
      some { c with columnDefault := syncedDefault upper pg expected c } := by
  obtain rfl := Table.column_name hc
  unfold defaultDdl syncedDefault
  cases expected.default with
  | some value =>
    dsimp only
    rw [hdefault]
    split
    · simp [hc]
    · simp [execute, hname, column_sync_alter, hc, altered_setDefault]
  | none =>
    dsimp only
    rw [hdefault]
    split
    · simp [execute, hname, column_sync_alter, hc, altered]
    · simp [hc]

/-- What a column becomes when its entry is synchronised. -/
def syncedEntry (upper : String → String) (m : TypedModel) (pg : Postgres) (e : String × String) (c : Column) : Column :=
  if e.1 ∈ columnNames m.schema ∧ e.1 ∉ baseColumns then syncedColumn upper pg (parseColumnConstraints upper e.2) c else c

theorem executed_entry (hcatalog : (catalog.columns.find? fun c => c.name = e.1) = (t.column e.1).map Column.toColumnInfo) :
    (after (execute m pg) ((columnDdl upper m.toModel catalog relations e).map .sync) t).column e.1 =
      (t.column e.1).map (syncedEntry upper m pg e) := by
  unfold columnDdl
  by_cases hname : e.1 ∈ columnNames m.schema
  · rw [List.contains_iff_mem.mpr hname, Bool.not_true, if_neg Bool.false_ne_true, hcatalog]
    cases hc : t.column e.1 with
    | none => simp [hc]
    | some c =>
      rw [Option.map_some, Option.map_some]
      dsimp only
      by_cases hbase : e.1 ∈ baseColumns
      · rw [if_pos (List.contains_iff_mem.mpr hbase), List.map_nil, after_nil, hc, syncedEntry, if_neg (not_and_not_right.mpr fun _ => hbase)]
      · rw [if_neg (by simpa using hbase), List.map_append, List.map_append, after_append, after_append]
        have hnull := @executed_notNull m t pg e.1 c (parseColumnConstraints upper e.2) hc
        rw [← executed_column fun d hd action => uniqueDdl_column _ _ _ _ _ d hd e.1 action] at hnull
        rw [executed_default _ hnull c.toColumnInfo rfl rfl, syncedEntry, if_pos ⟨hname, hbase⟩]
        rfl
  · have hcontains : (columnNames m.schema).contains e.1 = false := by simpa using hname
    rw [hcontains, Bool.not_false, if_pos rfl, List.map_nil, after_nil]
    have hsame : syncedEntry upper m pg e = id := by
      funext c
      rw [syncedEntry, if_neg fun h => hname h.1]
      rfl
    rw [hsame, Option.map_id]
    rfl

/-- The run over some entries: its statements, and what they do to each column. -/
theorem executed_entries (rest : List (String × String)) (s : Sync) (hrel : t.relations = s.relations)
    (hnodup : (rest.map Prod.fst).Nodup)
    (hcatalog : ∀ e ∈ rest, (catalog.columns.find? fun c => c.name = e.1) = (t.column e.1).map Column.toColumnInfo) :
    ∃ ds, (rest.foldl (syncColumn upper (fun _ => true) m.toModel catalog) s).issued = s.issued ++ ds ∧
      (after (execute m pg) (ds.map .sync) t).relations = (rest.foldl (syncColumn upper (fun _ => true) m.toModel catalog) s).relations ∧
      (∀ name, name ∉ rest.map Prod.fst → (after (execute m pg) (ds.map .sync) t).column name = t.column name) ∧
      ∀ e ∈ rest, (after (execute m pg) (ds.map .sync) t).column e.1 = (t.column e.1).map (syncedEntry upper m pg e) := by
  induction rest generalizing s t with
  | nil => exact ⟨[], (List.append_nil _).symm, hrel, fun _ _ => rfl, fun e he => by cases he⟩
  | cons e rest ih =>
    rw [List.map_cons, List.nodup_cons] at hnodup
    rw [List.forall_mem_cons] at hcatalog
    generalize hds : columnDdl upper m.toModel catalog s.relations e = ds
    have hstep := syncColumn_eq upper (fun _ => true) m.toModel catalog s e
    rw [hds] at hstep
    have hother (name : String) (hne : name ≠ e.1) : (after (execute m pg) (ds.map .sync) t).column name = t.column name :=
      hds ▸ executed_column (columnDdl_column_ne hne)
    have hne (e' : String × String) (he' : e' ∈ rest) : e'.1 ≠ e.1 := fun heq => hnodup.1 (heq ▸ List.mem_map_of_mem he')
    obtain ⟨ds', hissued, hrelations, hrest, hentries⟩ := ih (t := after (execute m pg) (ds.map .sync) t)
      (syncColumn upper (fun _ => true) m.toModel catalog s e) (by rw [hstep, executed_relations s hrel]) hnodup.2
      fun e' he' => by rw [hother e'.1 (hne e' he'), hcatalog.2 e' he']
    refine ⟨ds ++ ds', ?_, ?_, fun name hname => ?_, fun e' he' => ?_⟩
    · rw [List.foldl_cons, hissued, hstep, executeAll_issued, List.append_assoc]
    · rw [List.map_append, after_append]
      exact hrelations
    · rw [List.map_cons, List.mem_cons, not_or] at hname
      rw [List.map_append, after_append, hrest name hname.2, hother name hname.1]
    · rw [List.map_append, after_append]
      obtain rfl | he' := List.mem_cons.mp he'
      · rw [hrest e'.1 hnodup.1, ← hds, executed_entry hcatalog.1]
      · rw [hentries e' he', hother e'.1 (hne e' he')]

theorem catalog_find : (t.catalog.columns.find? fun c => c.name = name) = (t.column name).map Column.toColumnInfo := by
  rw [Table.catalog, List.find?_map]
  rfl

end Constraints

/-! The whole boot, and when the next one is silent. -/

section Boot
variable {u : Uppercase} {m : TypedModel} {t : Table} {pg : Postgres} {name : String}

theorem run_eq (ht : t.columns ≠ []) : runSchemaMigrations u m t pg = columnStatements u m t ++
    (runConstraintMigrations u.text (fun _ => true) m.toModel (staged u m t pg).catalog).issued.map .sync := by
  rw [runSchemaMigrations, if_neg (by simpa using ht)]
  rfl

theorem booted_eq (ht : t.columns ≠ []) : booted u m t pg = after (execute m pg)
    ((runConstraintMigrations u.text (fun _ => true) m.toModel (staged u m t pg).catalog).issued.map .sync) (staged u m t pg) := by
  rw [booted, run_eq ht, after_append]
  rfl

/-- A column after the boot. -/
def bootedColumn (u : Uppercase) (m : TypedModel) (pg : Postgres) (name : String) (c : Column) : Column :=
  if name ∈ baseColumns then c else syncedColumn u.text pg (parseColumnConstraints u.text (m.definition name).text) c

theorem booted_spec (ht : t.columns ≠ []) :
    (booted u m t pg).relations = (runConstraintMigrations u.text (fun _ => true) m.toModel (staged u m t pg).catalog).relations ∧
    (∀ name ∈ columnNames m.schema,
      (booted u m t pg).column name = ((staged u m t pg).column name).map (bootedColumn u m pg name)) ∧
    ∀ name, name ∉ columnNames m.schema → (booted u m t pg).column name = (staged u m t pg).column name := by
  obtain ⟨ds, hissued, hrelations, hrest, hentries⟩ := @executed_entries u.text m (staged u m t pg) pg (staged u m t pg).catalog
    m.schema { relations := (staged u m t pg).relations } rfl m.distinct fun e _ => catalog_find
  have hbooted : booted u m t pg = after (execute m pg) (ds.map .sync) (staged u m t pg) := by
    rw [booted_eq ht]
    congr 2
  rw [hbooted]
  refine ⟨hrelations, fun name hname => ?_, fun name hname => ?_⟩
  · rw [hentries _ (mem_schema hname)]
    congr 1
    funext c
    rw [syncedEntry, bootedColumn]
    by_cases hbase : name ∈ baseColumns
    · rw [if_pos hbase, if_neg fun h => h.2 hbase]
    · rw [if_neg hbase, if_pos ⟨hname, hbase⟩]
  · by_cases hkey : name ∈ m.schema.map Prod.fst
    · obtain ⟨e, he, rfl⟩ := List.mem_map.mp hkey
      have hsame : syncedEntry u.text m pg e = id := by
        funext c
        rw [syncedEntry, if_neg fun h => hname h.1]
        rfl
      rw [hentries e he, hsame, Option.map_id]
      rfl
    · exact hrest name hkey

theorem issued_nil_iff (upper : String → String) (takes : Nat → Bool) (m : Model) (catalog : Catalog) (rest : List (String × String))
    (s : Sync) : (rest.foldl (syncColumn upper takes m catalog) s).issued = [] ↔
      s.issued = [] ∧ ∀ e ∈ rest, columnDdl upper m catalog s.relations e = [] := by
  induction rest generalizing s with
  | nil => simp
  | cons e rest ih =>
    rw [List.foldl_cons, ih, syncColumn_eq, executeAll_issued, List.append_eq_nil_iff, List.forall_mem_cons, and_assoc]
    refine and_congr_right fun _ => and_congr_right fun hnone => ?_
    rw [hnone]
    rfl

/-- What is left to be said of a column. -/
structure Quiet (u : Uppercase) (m : TypedModel) (t : Table) (name : String) (c : Column) : Prop where
  type : normalizePgType (m.definition name).text = some c.dataType
  constraints : name ∉ baseColumns →
    notNullDdl (parseColumnConstraints u.text (m.definition name).text) c.toColumnInfo = [] ∧
    uniqueDdl m.tableName name (expectedUnique u.text m.toModel (name, (m.definition name).text))
      ((uniqueColumns t.relations).contains name) t.relations = [] ∧
    defaultDdl u.text (parseColumnConstraints u.text (m.definition name).text) c.toColumnInfo = []

theorem columnDdl_nil_iff {c : Column} (hname : name ∈ columnNames m.schema) (hc : t.column name = some c) :
    columnDdl u.text m.toModel t.catalog t.relations (name, (m.definition name).text) = [] ↔
      (name ∉ baseColumns →
        notNullDdl (parseColumnConstraints u.text (m.definition name).text) c.toColumnInfo = [] ∧
        uniqueDdl m.tableName name (expectedUnique u.text m.toModel (name, (m.definition name).text))
          ((uniqueColumns t.relations).contains name) t.relations = [] ∧
        defaultDdl u.text (parseColumnConstraints u.text (m.definition name).text) c.toColumnInfo = []) := by
  unfold columnDdl
  rw [List.contains_iff_mem.mpr hname, Bool.not_true, if_neg Bool.false_ne_true]
  dsimp only
  rw [catalog_find, hc, Option.map_some]
  dsimp only
  by_cases hbase : name ∈ baseColumns
  · rw [if_pos (List.contains_iff_mem.mpr hbase)]
    exact iff_of_true rfl fun h => absurd hbase h
  · rw [if_neg (by simpa using hbase), List.append_eq_nil_iff, List.append_eq_nil_iff, and_assoc]
    exact ⟨fun h _ => h, fun h => h hbase⟩

theorem alterColumnType_ne_nil {x : (String × String) × String} (h : x ∈ typeMismatchColumns m t) : alterColumnType u x ≠ [] := by
  obtain ⟨-, -, -, expected, -, hexpected, -⟩ := mem_typeMismatchColumns.mp h
  obtain ⟨usingClause, hstatements⟩ := alterColumnType_eq (u := u) hexpected
  rw [hstatements]
  exact List.cons_ne_nil _ _

/-- The columns are as the model has them exactly where no column statement is made. -/
theorem columnStatements_nil_iff (hpresent : ∀ name ∈ columnNames m.schema, (t.column name).isSome = true)
    (hstale : staleColumns m t = []) : columnStatements u m t = [] ↔
      ∀ name ∈ columnNames m.schema, ∀ c, t.column name = some c → normalizePgType (m.definition name).text = some c.dataType := by
  have hmissing : missingColumns m t = [] := by
    rw [← List.map_eq_nil_iff, List.eq_nil_iff_forall_not_mem]
    intro name hname
    obtain ⟨hcolumn, hnone⟩ := mem_missingColumns.mp hname
    have hsome := hpresent name hcolumn
    rw [hnone] at hsome
    cases hsome
  rw [columnStatements, hmissing, hstale, List.map_nil, List.nil_append, List.map_nil, List.append_nil, List.flatMap_eq_nil_iff]
  constructor
  · intro h name hname c hc
    have hnormal := normalizePgType_text (m.definition name)
    rw [hnormal, Option.some.injEq]
    by_contra hne
    have hin : ((name, (m.definition name).text), c.dataType) ∈ typeMismatchColumns m t :=
      mem_typeMismatchColumns.mpr ⟨mem_schema hname, hname, c, _, hc, hnormal, Ne.symm hne, rfl⟩
    exact alterColumnType_ne_nil hin (h _ hin)
  · intro h x hx
    obtain ⟨hschema, hname, c, expected, hc, hexpected, hne, -⟩ := mem_typeMismatchColumns.mp hx
    rw [m.written _ hschema hname, h _ hname c hc] at hexpected
    exact absurd (Option.some.inj hexpected) hne

/-- Nothing is executed for a table whose columns are those of the model, each of them quiet. -/
theorem run_nil_iff (hpresent : ∀ name ∈ columnNames m.schema, (t.column name).isSome = true) (hstale : staleColumns m t = []) :
    runSchemaMigrations u m t pg = [] ↔ ∀ name ∈ columnNames m.schema, ∀ c, t.column name = some c → Quiet u m t name c := by
  by_cases ht : t.columns = []
  · refine iff_of_true (by rw [runSchemaMigrations, ht]; rfl) fun name _ c hc => ?_
    rw [Table.column, ht] at hc
    cases hc
  · rw [run_eq ht, List.append_eq_nil_iff, List.map_eq_nil_iff]
    constructor
    · rintro ⟨hstatements, hissued⟩ name hname c hc
      have hstaged : staged u m t pg = t := by rw [staged, hstatements, after_nil]
      rw [hstaged] at hissued
      have hnone := ((issued_nil_iff u.text _ m.toModel t.catalog m.schema { relations := t.relations }).mp hissued).2
      exact ⟨(columnStatements_nil_iff hpresent hstale).mp hstatements name hname c hc,
        (columnDdl_nil_iff hname hc).mp (hnone _ (mem_schema hname))⟩
    · intro h
      have hstatements : columnStatements u m t = [] :=
        (columnStatements_nil_iff hpresent hstale).mpr fun name hname c hc => (h name hname c hc).type
      have hstaged : staged u m t pg = t := by rw [staged, hstatements, after_nil]
      refine ⟨hstatements, ?_⟩
      rw [hstaged]
      refine (issued_nil_iff u.text _ m.toModel t.catalog m.schema { relations := t.relations }).mpr ⟨rfl, fun e he => ?_⟩
      by_cases hname : e.1 ∈ columnNames m.schema
      · obtain ⟨c, hc⟩ := Option.isSome_iff_exists.mp (hpresent e.1 hname)
        have hdefinition : e = (e.1, (m.definition e.1).text) := by rw [← m.written e he hname]
        rw [hdefinition]
        exact (columnDdl_nil_iff hname hc).mpr (h e.1 hname c hc).constraints
      · have hcontains : (columnNames m.schema).contains e.1 = false := by simpa using hname
        rw [columnDdl, hcontains]
        rfl

end Boot

end XgenSdk.Migrations
