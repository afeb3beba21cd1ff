import XgenSdk.Db.SchemaUniques

/-! When the boot after a boot has nothing to do. -/
namespace XgenSdk.Migrations
open XgenSdk.Py XgenSdk.Runs

/-! The unique indexes after a boot. -/

section Converging
variable {u : Uppercase} {m : TypedModel} {pg : Postgres} {t : Table} {name : String} {r : Relation}

/-- One of the unique indexes of the column outlives the boot. -/
def Outlives (u : Uppercase) (m : TypedModel) (t : Table) (pg : Postgres) (name : String) : Prop :=
  ∃ r ∈ relationsLeft m pg t, Singly name r ∧ ¬ Gone u.text m.toModel (relationsLeft m pg t) m.schema r

/-- The column is added with a unique constraint. -/
def ComesUnique (m : TypedModel) (t : Table) (name : String) : Prop :=
  t.column name = none ∧ (m.definition name).unique = true

/-- A column that has a unique index is declared unique exactly if one of its unique indexes is left,
or it is new and unique. -/
def UniqueHolds (u : Uppercase) (m : TypedModel) (t : Table) (pg : Postgres) (name : String) : Prop :=
  name ∈ uniqueColumns (relationsLeft m pg t) →
    (Declared u.text m.toModel name ↔ Outlives u m t pg name ∨ ComesUnique m t name)

/-- In the definition that the catalog shows of a unique index stands its column behind `UNIQUE`. -/
def Described (m : TypedModel) (t : Table) : Prop :=
  ∀ r ∈ t.relations, ∀ name ∈ columnNames m.schema, Singly name r → like (uniquePattern name) r.definition.toList = true

theorem swept_booted (haccepted : Accepted u m t pg) (ht : t.columns ≠ []) : ∃ s : Sync, s.relations = (booted u m t pg).relations ∧
    Swept u.text m.toModel (staged u m t pg).relations m.schema s := by
  refine ⟨_, (booted_spec ht).1.symm, ?_⟩
  have htaken := haccepted
  rw [Accepted, run_eq ht] at htaken
  have hpresent (e : String × String) (_ : e ∈ m.schema) (hname : e.1 ∈ columnNames m.schema) :
      ((staged u m t pg).catalog.columns.find? fun c => c.name = e.1).isSome = true := by
    obtain ⟨c, hc, -⟩ := staged_spec haccepted hname
    rw [catalog_find, hc]
    rfl
  have hstart : Swept u.text m.toModel (staged u m t pg).catalog.relations [] { relations := (staged u m t pg).relations } :=
    swept_start (staged u m t pg).distinct
  have hrun := hstart.run (t := staged u m t pg) (fun _ he => he) hpresent rfl fun ds hds => by
    rw [List.nil_append] at hds
    have hlater := along_right htaken
    rw [runConstraintMigrations] at hlater
    exact hds ▸ hlater
  exact hrun

theorem unique_staged_iff (hname : name ∈ columnNames m.schema) : name ∈ uniqueColumns (staged u m t pg).relations ↔
    name ∈ uniqueColumns (relationsLeft m pg t) ∨ ComesUnique m t name := by
  rw [mem_uniqueColumns, mem_uniqueColumns]
  constructor
  · rintro ⟨r, hr, hsingly⟩
    obtain hleft | ⟨key, column, rfl, -, hnone, hunique⟩ := mem_staged hr
    · exact .inl ⟨r, hleft, hsingly⟩
    · have hcolumns := hsingly.2.2
      simp only [uniqueOn, Relation.columns, List.map_nil, List.append_nil, List.cons.injEq, Option.some.injEq, and_true] at hcolumns
      exact .inr (hcolumns ▸ ⟨hnone, hunique⟩)
  · rintro (⟨r, hr, hsingly⟩ | ⟨hnone, hunique⟩)
    · exact ⟨r, left_staged hr, hsingly⟩
    · obtain ⟨key, hin⟩ := @new_staged u m pg t name hname hnone hunique
      exact ⟨_, hin, rfl, by simp [uniqueOn], rfl⟩

theorem Outlives.unique (h : Outlives u m t pg name) : name ∈ uniqueColumns (relationsLeft m pg t) := by
  obtain ⟨r, hr, hsingly, -⟩ := h
  exact mem_uniqueColumns.mpr ⟨r, hr, hsingly⟩

/-- What makes a column unique after the boot: an index that outlives it, or a new constraint. -/
theorem unique_booted_iff (haccepted : Accepted u m t pg) (ht : t.columns ≠ []) (hname : name ∈ columnNames m.schema)
    (hbase : name ∉ baseColumns) : name ∈ uniqueColumns (booted u m t pg).relations ↔
      Outlives u m t pg name ∨ ComesUnique m t name ∨
        (Declared u.text m.toModel name ∧ name ∉ uniqueColumns (staged u m t pg).relations) := by
  obtain ⟨s, hs, hswept⟩ := swept_booted haccepted ht
  rw [← hs, mem_uniqueColumns]
  constructor
  · rintro ⟨r, hr, hsingly⟩
    obtain hold | ⟨key, e, he, hwanted, rfl⟩ := hswept.old r hr
    · have hkept := (hswept.kept r hold).mp hr
      rw [gone_staged_iff] at hkept
      obtain hleft | ⟨key, column, rfl, -, hnone, hunique⟩ := mem_staged hold
      · exact .inl ⟨r, hleft, hsingly, hkept⟩
      · have hcolumns := hsingly.2.2
        simp only [uniqueOn, Relation.columns, List.map_nil, List.append_nil, List.cons.injEq, Option.some.injEq, and_true] at hcolumns
        exact .inr (.inl (hcolumns ▸ ⟨hnone, hunique⟩))
    · have hcolumns := hsingly.2.2
      simp only [uniqueOn, Relation.columns, List.map_nil, List.append_nil, List.cons.injEq, Option.some.injEq, and_true] at hcolumns
      exact .inr (.inr (hcolumns ▸ ⟨hwanted.declared, hwanted.unique⟩))
  · rintro (⟨r, hr, hsingly, hstays⟩ | ⟨hnone, hunique⟩ | ⟨hdeclared, hunique⟩)
    · rw [← gone_staged_iff (u := u)] at hstays
      exact ⟨r, (hswept.kept r (left_staged hr)).mpr hstays, hsingly⟩
    · obtain ⟨key, hin⟩ := @new_staged u m pg t name hname hnone hunique
      refine ⟨_, (hswept.kept _ hin).mpr ?_, rfl, by simp [uniqueOn], rfl⟩
      rintro (⟨-, e, -, hloose, hkey⟩ | ⟨hkind, -⟩)
      · rw [uniqueOn, List.mem_singleton, Option.some.injEq] at hkey
        exact hloose.undeclared (hkey ▸ declared_of_unique hname hunique)
      · cases hkind
    · obtain ⟨key, hin⟩ := hswept.made (name, (m.definition name).text) (mem_schema hname)
        ⟨mem_schema hname, hname, hbase, hdeclared, hunique⟩
      exact ⟨_, hin, rfl, by simp [uniqueOn], rfl⟩

/-- An index that is left of an undeclared column is found again. -/
theorem dropDdl_ne_nil (hdescribed : Described m t) (haccepted : Accepted u m t pg) (ht : t.columns ≠ [])
    (hname : name ∈ columnNames m.schema) (houtlives : Outlives u m t pg name) : dropDdl name (booted u m t pg).relations ≠ [] := by
  obtain ⟨r, hr, hsingly, hstays⟩ := houtlives
  obtain ⟨s, hs, hswept⟩ := swept_booted haccepted ht
  rw [← gone_staged_iff (u := u)] at hstays
  have hin : r ∈ (booted u m t pg).relations := hs ▸ (hswept.kept r (left_staged hr)).mpr hstays
  have hlike := hdescribed r (List.mem_filter.mp hr).1 name hname hsingly
  have hindex : r.name ∈ indexNames name (booted u m t pg).relations :=
    List.mem_map_of_mem (List.mem_filter.mpr ⟨hin, hlike⟩)
  unfold dropDdl
  split
  · rename_i hnames
    simpa using hnames
  · rw [Ne, List.map_eq_nil_iff]
    exact List.ne_nil_of_mem hindex

theorem unique_quiet_iff (hdescribed : Described m t) (haccepted : Accepted u m t pg) (ht : t.columns ≠ [])
    (hname : name ∈ columnNames m.schema) (hbase : name ∉ baseColumns) :
    uniqueDdl m.tableName name (expectedUnique u.text m.toModel (name, (m.definition name).text))
      ((uniqueColumns (booted u m t pg).relations).contains name) (booted u m t pg).relations = [] ↔ UniqueHolds u m t pg name := by
  have hexpected : expectedUnique u.text m.toModel (name, (m.definition name).text) = true ↔ Declared u.text m.toModel name :=
    expectedUnique_iff (mem_schema hname)
  have hcurrent := unique_booted_iff haccepted ht hname hbase
  rw [unique_staged_iff hname] at hcurrent
  have hcomes : ComesUnique m t name → Declared u.text m.toModel name := fun h => declared_of_unique hname h.2
  have hquiet : uniqueDdl m.tableName name (expectedUnique u.text m.toModel (name, (m.definition name).text))
      ((uniqueColumns (booted u m t pg).relations).contains name) (booted u m t pg).relations = [] ↔
      (Declared u.text m.toModel name ↔ name ∈ uniqueColumns (booted u m t pg).relations) := by
    rw [← hexpected, ← List.contains_iff_mem]
    cases hdeclared : expectedUnique u.text m.toModel (name, (m.definition name).text) <;>
      cases hunique : (uniqueColumns (booted u m t pg).relations).contains name
    · exact iff_of_true rfl Iff.rfl
    · refine iff_of_false ?_ (by simp)
      rw [uniqueDdl_drop]
      have hundeclared : ¬ Declared u.text m.toModel name := by
        rw [← hexpected, hdeclared]
        exact Bool.false_ne_true
      obtain houtlives | hcase | hcase := hcurrent.mp (List.contains_iff_mem.mp hunique)
      · exact dropDdl_ne_nil hdescribed haccepted ht hname houtlives
      · exact absurd (hcomes hcase) hundeclared
      · exact absurd hcase.1 hundeclared
    · exact iff_of_false (by simp [uniqueDdl]) (by simp)
    · exact iff_of_true rfl Iff.rfl
  rw [hquiet, hcurrent, UniqueHolds]
  by_cases hunique : name ∈ uniqueColumns (relationsLeft m pg t)
  · simp only [hunique, true_or, not_true_eq_false, and_false, or_false, true_imp_iff]
  · have hleft : ¬ Outlives u m t pg name := fun h => hunique h.unique
    simp only [hunique, hleft, false_or, false_imp_iff, iff_true]
    by_cases hcase : ComesUnique m t name
    · exact iff_of_true (hcomes hcase) (.inl hcase)
    · simp only [hcase, false_or, not_false_eq_true, and_true]

/-! The boot after the boot. -/

theorem notNullDdl_synced {expected : Constraints} (c : Column) :
    notNullDdl expected (syncedColumn u.text pg expected c).toColumnInfo = [] := by
  unfold notNullDdl syncedColumn
  cases expected.notNull <;> rfl

theorem dataType_booted (c : Column) : (bootedColumn u m pg name c).dataType = c.dataType := by
  rw [bootedColumn]
  by_cases hbase : name ∈ baseColumns
  · rw [if_pos hbase]
  · rw [if_neg hbase, syncedColumn]

theorem booted_stale (ht : t.columns ≠ []) : staleColumns m (booted u m t pg) = [] := by
  rw [List.eq_nil_iff_forall_not_mem]
  intro name hstale
  obtain ⟨hsome, hname, hbase⟩ := mem_staleColumns.mp hstale
  rw [(booted_spec ht).2.2 name hname, staged_stale hname hbase] at hsome
  cases hsome

theorem quiet_booted_iff (hdescribed : Described m t) (haccepted : Accepted u m t pg) (ht : t.columns ≠ [])
    (hname : name ∈ columnNames m.schema) {c : Column} (hc : (staged u m t pg).column name = some c) :
    Quiet u m (booted u m t pg) name (bootedColumn u m pg name c) ↔
      TypeHolds m t name ∧ (name ∉ baseColumns → DefaultHolds u m t pg name ∧ UniqueHolds u m t pg name) := by
  have htype := type_quiet_iff haccepted hname hc
  have hdefault := default_quiet_iff haccepted hname hc
  have hsynced (hbase : name ∉ baseColumns) :
      bootedColumn u m pg name c = syncedColumn u.text pg (parseColumnConstraints u.text (m.definition name).text) c := if_neg hbase
  constructor
  · rintro ⟨hquiet, hconstraints⟩
    rw [dataType_booted] at hquiet
    refine ⟨htype.mp hquiet, fun hbase => ?_⟩
    obtain ⟨-, hunique, hvalue⟩ := hconstraints hbase
    rw [hsynced hbase] at hvalue
    exact ⟨hdefault.mp hvalue, (unique_quiet_iff hdescribed haccepted ht hname hbase).mp hunique⟩
  · rintro ⟨hholds, hrest⟩
    refine ⟨by rw [dataType_booted]; exact htype.mpr hholds, fun hbase => ?_⟩
    obtain ⟨hvalue, hunique⟩ := hrest hbase
    rw [hsynced hbase]
    exact ⟨notNullDdl_synced c, (unique_quiet_iff hdescribed haccepted ht hname hbase).mpr hunique, hdefault.mpr hvalue⟩

/-- The boot after a boot has nothing to do exactly where every column of the model has a type,
a default and a uniqueness that the code reads back from the catalog. -/
theorem converges_iff (hdescribed : Described m t) (haccepted : Accepted u m t pg) : Converges u m t pg ↔
    t.columns = [] ∨ ∀ name ∈ columnNames m.schema, TypeHolds m t name ∧
      (name ∉ baseColumns → DefaultHolds u m t pg name ∧ UniqueHolds u m t pg name) := by
  by_cases ht : t.columns = []
  · refine iff_of_true ?_ (.inl ht)
    have hrun : runSchemaMigrations u m t pg = [] := by rw [runSchemaMigrations, ht]; rfl
    rw [Converges, booted, hrun, after_nil, hrun]
  · have hcolumn (name : String) (hname : name ∈ columnNames m.schema) : ∃ c, (staged u m t pg).column name = some c ∧
        (booted u m t pg).column name = some (bootedColumn u m pg name c) := by
      obtain ⟨c, hc, -⟩ := staged_spec haccepted hname
      exact ⟨c, hc, by rw [(booted_spec ht).2.1 name hname, hc, Option.map_some]⟩
    have hpresent : ∀ name ∈ columnNames m.schema, ((booted u m t pg).column name).isSome = true := by
      intro name hname
      obtain ⟨c, -, hbooted⟩ := hcolumn name hname
      rw [hbooted]
      rfl
    rw [Converges, run_nil_iff hpresent (booted_stale ht), or_iff_right ht]
    refine forall₂_congr fun name hname => ?_
    obtain ⟨c, hc, hbooted⟩ := hcolumn name hname
    rw [hbooted, ← quiet_booted_iff hdescribed haccepted ht hname hc]
    simp

end Converging

/-! A table of articles. -/

set_option maxRecDepth 8000 in
theorem quote_of_toUpper {c : Char} (h : '\'' ∈ [c.toUpper]) : c = '\'' := by
  rw [List.mem_singleton] at h
  have hall : ∀ n < 128, '\'' = (Char.ofNat n).toUpper → Char.ofNat n = '\'' := by decide
  have hcase := hall c.toNat (ascii_of_toUpper (h ▸ by decide))
  simp only [Char.ofNat_toNat] at hcase
  exact hcase h

def asciiUpper : Uppercase where
  char c := [c.toUpper]
  ascii _ _ := rfl
  quote _ := quote_of_toUpper
  nonempty _ := List.cons_ne_nil _ _

/-- A name that no relation has. -/
def freshName (base : String) (relations : List Relation) : String :=
  if base ∈ relations.map Relation.name then base ++ String.join (relations.map Relation.name) else base

theorem length_le_join {name : String} {names : List String} (h : name ∈ names) : name.length ≤ (String.join names).length := by
  induction names with
  | nil => cases h
  | cons n names ih =>
    rw [String.join_cons, String.length_append]
    obtain rfl | h := List.mem_cons.mp h
    · omega
    · have := ih h
      omega

theorem freshName_fresh {base : String} (hbase : 0 < base.length) (relations : List Relation) :
    freshName base relations ∉ relations.map Relation.name := by
  unfold freshName
  split
  · intro hin
    have hlength := length_le_join hin
    rw [String.length_append] at hlength
    omega
  · assumption

def postgres : Postgres where
  rendered dataType value :=
    if lower value.toList = "true".toList ∨ lower value.toList = "false".toList then String.ofList (lower value.toList)
    else if "'".toList.isPrefixOf value.toList then value ++ "::" ++ dataType else value
  boolean _ _ h := if_pos (List.mem_pair.mp h)
  sequence tableName column := "nextval('" ++ tableName ++ "_" ++ column ++ "_seq'::regclass)"
  keyName tableName relations column := freshName (tableName ++ "_" ++ column ++ "_key") relations
  fresh tableName relations column := by
    refine freshName_fresh ?_ relations
    rw [String.length_append]
    exact Nat.lt_add_left _ (by decide)
  converted _ shown := shown
  needs _ _ := false

def blank : Gap := ⟨[' '], by decide⟩

def varchar : TypeText where
  key := "varchar"
  known := by decide
  words := ["VARCHAR".toList]
  spelled := by decide
  modifier := some "20".toList
  arguments := by decide

def boolean : TypeText where
  key := "boolean"
  known := by decide
  words := ["BOOLEAN".toList]
  spelled := by decide
  modifier := none
  arguments _ h := by cases h

def withDefault (type : TypeText) (literal : Literal) : ColumnDef where
  type := type
  before := []
  default := some (blank, { word := ⟨"DEFAULT".toList, by decide⟩, gap := blank, literal := literal })
  after := []

def statusDef : ColumnDef := withDefault varchar (.quoted "draft".toList ⟨[], by decide⟩)

def publishedDef : ColumnDef := withDefault boolean (.boolean ⟨"TRUE".toList, by decide⟩)

def articles (column : String) (d : ColumnDef) : TypedModel where
  tableName := "articles"
  schema := [(column, d.text)]
  distinct := List.nodup_singleton _
  indexes := []
  definition _ := d
  written e he _ := by
    rw [List.mem_singleton.mp he]

def stored (column dataType shown : String) : Table where
  columns := [{ name := column, isNullable := true, columnDefault := some shown, dataType := dataType }]
  relations := []
  named := List.nodup_singleton _
  distinct := List.nodup_nil

theorem described_stored (column dataType shown : String) (d : ColumnDef) :
    Described (articles column d) (stored column dataType shown) := fun _ hr => absurd hr List.not_mem_nil

theorem accepted_of_alter {u : Uppercase} {m : TypedModel} {t : Table} {pg : Postgres} {column action : String}
    (hrun : runSchemaMigrations u m t pg = [.sync (.alterColumn column action)]) (hplain : IsPlain column) : Accepted u m t pg := by
  rw [Accepted, hrun]
  exact (@along_concat _ _ _ _ [] t _).mpr ⟨along_nil, hplain⟩

set_option maxRecDepth 8000 in
/-- A default in quotes is set again at every boot. -/
theorem draft_repeated : Described (articles "status" statusDef) (stored "status" "character varying" "'draft'::character varying") ∧
    Accepted asciiUpper (articles "status" statusDef) (stored "status" "character varying" "'draft'::character varying") postgres ∧
    ¬ Converges asciiUpper (articles "status" statusDef) (stored "status" "character varying" "'draft'::character varying") postgres :=
  ⟨described_stored _ _ _ _, @accepted_of_alter _ _ _ _ "status" "SET DEFAULT 'draft'" (by decide) ⟨by decide, by decide⟩, by
    rw [Converges]
    decide⟩

set_option maxRecDepth 8000 in
theorem published_converges : Converges asciiUpper (articles "published" publishedDef) (stored "published" "boolean" "false") postgres := by
  refine (converges_iff (described_stored _ _ _ _)
    (@accepted_of_alter _ _ _ _ "published" "SET DEFAULT TRUE" (by decide) ⟨by decide, by decide⟩)).mpr (.inr ?_)
  intro name _
  have hplain : ¬ (find "[]".toList (lower publishedDef.chars)).isSome = true := by decide
  refine ⟨fun hmark => absurd hmark hplain, fun _ => ⟨trivial, fun hunique => ?_⟩⟩
  obtain ⟨r, hr, -⟩ := mem_uniqueColumns.mp hunique
  exact absurd hr List.not_mem_nil

end XgenSdk.Migrations
