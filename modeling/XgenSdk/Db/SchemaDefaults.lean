import XgenSdk.Db.SchemaRuns

/-! When the boot after a boot has nothing to do. -/
namespace XgenSdk.Migrations
open XgenSdk.Py XgenSdk.Runs XgenSdk.Words

/-! Defaults. -/

section Defaults
variable {u : Uppercase} {m : TypedModel} {t : Table} {pg : Postgres} {name value shown : String}

/-- The code takes what the catalog shows for the value. -/
def Reads (u : Uppercase) (shown value : String) : Prop := normalizedDefault u.text shown = u.text value

theorem unquoted_head (l : List Char) :
    (((stripChars l).dropWhile (· = '\'')).reverse.dropWhile (· = '\'')).reverse.head? ≠ some '\'' := by
  intro h
  generalize hw : (stripChars l).dropWhile (· = '\'') = w at h
  have hhead : w.head? ≠ some '\'' := by
    intro hhead
    rw [← hw] at hhead
    have hfirst := List.head?_dropWhile_not (p := (· = '\'')) (l := stripChars l)
    rw [hhead] at hfirst
    simp at hfirst
  have hsuffix : (w.reverse.dropWhile (· = '\'')).reverse <+: w := by
    have hsuffix := List.dropWhile_suffix (p := fun c => decide (c = '\'')) (l := w.reverse)
    rw [← List.reverse_prefix, List.reverse_reverse] at hsuffix
    exact hsuffix
  obtain ⟨x, hx⟩ := hsuffix
  rw [← hx, List.head?_append, h] at hhead
  exact hhead rfl

theorem upper_head {s : String} (h : (u.text s).toList.head? = some '\'') : s.toList.head? = some '\'' := by
  rw [Uppercase.text, String.toList_ofList] at h
  cases hs : s.toList with
  | nil =>
    rw [hs] at h
    cases h
  | cons c l =>
    rw [hs, List.flatMap_cons, List.head?_append_of_ne_nil _ (u.nonempty c)] at h
    rw [List.head?_cons, u.quote c (List.mem_of_mem_head? h)]

/-- What starts with a quote is never what the catalog shows: the code takes the quotes off there alone. -/
theorem not_reads_quoted (h : value.toList.head? = some '\'') : ¬ Reads u shown value := by
  intro hreads
  have hvalue : (u.text value).toList.head? = some '\'' := by
    obtain ⟨l, hl⟩ := List.head?_eq_some_iff.mp h
    rw [Uppercase.text, String.toList_ofList, hl, List.flatMap_cons, u.ascii '\'' (by decide)]
    rfl
  rw [← hreads, normalizedDefault] at hvalue
  have hhead := upper_head hvalue
  rw [String.toList_ofList] at hhead
  exact unquoted_head _ hhead

theorem any_reads {shown : Option String} :
    shown.any (fun d => normalizedDefault u.text d = u.text value) = true ↔ ∃ d, shown = some d ∧ Reads u d value := by
  rw [Option.any_eq_true]
  simp only [decide_eq_true_eq, Reads]

theorem defaultDdl_some_iff {expected : Constraints} (h : expected.default = some value) (current : ColumnInfo) :
    defaultDdl u.text expected current = [] ↔ ∃ shown, current.columnDefault = some shown ∧ Reads u shown value := by
  rw [defaultDdl, h, ← any_reads]
  dsimp only
  split <;> simp_all

theorem syncedDefault_some_iff {expected : Constraints} (h : expected.default = some value) (c : Column) :
    (∃ shown, syncedDefault u.text pg expected c = some shown ∧ Reads u shown value) ↔
      (∃ shown, c.columnDefault = some shown ∧ Reads u shown value) ∨ Reads u (pg.rendered c.dataType value) value := by
  rw [syncedDefault, h]
  dsimp only
  split
  · rename_i hany
    have hreads := any_reads.mp hany
    exact iff_of_true hreads (.inl hreads)
  · rename_i hany
    rw [any_reads] at hany
    simp [hany]

theorem defaultDdl_none {expected : Constraints} (h : expected.default = none) (c : Column) :
    defaultDdl u.text expected (syncedColumn u.text pg expected c).toColumnInfo = [] := by
  have hsynced : (syncedColumn u.text pg expected c).columnDefault = syncedDefault u.text pg expected c := rfl
  rw [defaultDdl, h]
  dsimp only
  rw [hsynced, syncedDefault, h]
  dsimp only
  split <;> rfl

/-- Once it is synchronised, a column is left alone where the code reads its value back: from what
the catalog showed before, or from what it shows for the value. -/
theorem defaultDdl_synced_iff {expected : Constraints} {c : Column} :
    defaultDdl u.text expected (syncedColumn u.text pg expected c).toColumnInfo = [] ↔
      ∀ value, expected.default = some value → (∃ shown, c.columnDefault = some shown ∧ Reads u shown value) ∨
        Reads u (pg.rendered c.dataType value) value := by
  cases hdefault : expected.default with
  | none => exact iff_of_true (defaultDdl_none hdefault c) (by simp)
  | some value =>
    simp only [Option.some.injEq, forall_eq']
    rw [defaultDdl_some_iff hdefault, ← syncedDefault_some_iff hdefault]
    rfl

end Defaults
/-! Literals. -/

section Literals
variable {u : Uppercase} {m : TypedModel} {t : Table} {pg : Postgres} {name dataType : String}

set_option maxRecDepth 8000 in
theorem toLower_toUpper {c : Char} (h : c.toNat < 128) : c.toUpper.toLower = c.toLower := by
  have hall : ∀ n < 128, (Char.ofNat n).toUpper.toLower = (Char.ofNat n).toLower := by decide
  simpa using hall c.toNat h

theorem normalizedDefault_boolean (upper : String → String) :
    ∀ k ∈ ["true", "false"], normalizedDefault upper k = upper k := by
  have hbare : ∀ k ∈ ["true", "false"], find "::".toList k.toList = none ∧
      String.ofList (((stripChars k.toList).dropWhile (· = '\'')).reverse.dropWhile (· = '\'')).reverse = k := by decide
  intro k hk
  obtain ⟨hcast, hquotes⟩ := hbare k hk
  simp only [normalizedDefault, hcast, hquotes]

/-- A boolean is shown in lower case, and read in upper case. -/
theorem reads_boolean {l : List Char} (h : l.map Char.toUpper ∈ ["TRUE".toList, "FALSE".toList]) :
    Reads u (pg.rendered dataType (String.ofList l)) (String.ofList l) := by
  have hwords : ∀ k ∈ ["TRUE".toList, "FALSE".toList], lower k ∈ ["true".toList, "false".toList] ∧ ∀ x ∈ k, x.toNat < 128 := by
    decide
  have hascii : ∀ x ∈ l, x.toNat < 128 := fun x hx => ascii_of_toUpper ((hwords _ h).2 _ (List.mem_map_of_mem hx))
  have hlow : lower l = lower (l.map Char.toUpper) := by
    rw [lower, lower, List.map_map]
    exact List.map_congr_left fun c hc => (toLower_toUpper (hascii c hc)).symm
  have hid : (String.ofList l).toList = l := String.toList_ofList
  have hshown : lower (String.ofList l).toList ∈ ["true".toList, "false".toList] := by
    rw [hid, hlow]
    exact (hwords _ h).1
  rw [pg.boolean dataType _ hshown, Reads, normalizedDefault_boolean]
  · have hlower : ∀ x ∈ lower l, x.toNat < 128 := by
      have hletters : ∀ k ∈ ["true".toList, "false".toList], ∀ x ∈ k, x.toNat < 128 := by decide
      rw [hid] at hshown
      exact hletters _ hshown
    rw [Uppercase.text, Uppercase.text, String.toList_ofList, String.toList_ofList, upper_ascii u hlower, upper_ascii u hascii,
      lower, List.map_map]
    congr 1
    exact List.map_congr_left fun c hc => toUpper_toLower (hascii c hc)
  · simp only [List.mem_cons, List.not_mem_nil, or_false] at hshown ⊢
    exact hshown.imp (fun h => by rw [h]; rfl) fun h => by rw [h]; rfl

/-! Brackets. -/

theorem find_isSome {sub l : List Char} (h : (find sub l).isSome = true) : sub <:+: l := by
  obtain ⟨i, hi⟩ := Option.isSome_iff_exists.mp h
  rw [find, List.findIdx?_eq_some_iff_getElem] at hi
  obtain ⟨hlt, hstarts, -⟩ := hi
  exact (List.isPrefixOf_iff_prefix.mp hstarts).isInfix.trans ((List.mem_tails _ _).mp (List.getElem_mem hlt)).isInfix

set_option maxRecDepth 8000 in
theorem bracket_of_toLower {c : Char} (h : c.toLower = '[') : c = '[' := by
  have hall : ∀ n < 128, (Char.ofNat n).toLower = '[' → Char.ofNat n = '[' := by decide
  have hcase := hall c.toNat (ascii_of_toLower (h ▸ by decide))
  simp only [Char.ofNat_toNat] at hcase
  exact hcase h

set_option maxRecDepth 8000 in
theorem keys_bracket : ∀ k ∈ modelToPgType.map Prod.fst, '[' ∈ k.toList → informationSchemaName k = "ARRAY" := by decide

theorem not_bracket_of_upper {l : List Char} (keywords : List (List Char)) (h : l.map Char.toUpper ∈ keywords)
    (hkeywords : ∀ k ∈ keywords, '[' ∉ k) : '[' ∉ l := fun hin => hkeywords _ h (List.mem_map_of_mem (f := Char.toUpper) hin)

theorem not_bracket_gap (g : Gap) : '[' ∉ g.val := fun hin => absurd (g.property.2 _ hin) (by decide)

theorem not_bracket_flags (fs : List (Gap × Flag)) : '[' ∉ flagsText fs := by
  intro hin
  obtain ⟨f, -, hin⟩ := List.mem_flatMap.mp hin
  obtain ⟨g, ⟨n, gap, null⟩ | w⟩ := f
  · simp only [Flag.text, List.mem_append] at hin
    obtain hin | (hin | hin) | hin := hin
    · exact not_bracket_gap g hin
    · exact not_bracket_of_upper ["NOT".toList] (by simp [n.property]) (by simp) hin
    · exact not_bracket_gap gap hin
    · exact not_bracket_of_upper ["NULL".toList] (by simp [null.property]) (by simp) hin
  · obtain hin | hin := List.mem_append.mp hin
    · exact not_bracket_gap g hin
    · exact not_bracket_of_upper ["UNIQUE".toList] (by simp [Flag.text, w.property]) (by simp) hin

theorem not_bracket_literal {l : Literal} (h : ∀ body t, l ≠ .quoted body t) : '[' ∉ l.text := by
  cases l with
  | number t => exact fun hin => absurd ((numeral_chars t.property).2 _ hin) (by decide)
  | boolean t => exact not_bracket_of_upper _ t.property (by simp)
  | quoted body t => exact absurd rfl (h body t)

/-- A bracket that is not in a string is in the type. -/
theorem sqlType_of_bracket {d : ColumnDef} (h : ∀ body t, d.literal ≠ some (.quoted body t))
    (hmark : (find "[]".toList (lower d.chars)).isSome = true) : d.sqlType = "ARRAY" := by
  have hlow : '[' ∈ lower d.chars := (find_isSome hmark).subset (by simp)
  obtain ⟨c, hc, hcase⟩ := List.mem_map.mp hlow
  obtain rfl := bracket_of_toLower hcase
  rw [chars_eq, List.mem_append, List.mem_append, List.mem_append] at hc
  obtain hc | hc | hc | hc := hc
  · obtain hc | hc := List.mem_append.mp hc
    · have hkey : '[' ∈ d.type.key.toList := lower_words d.type ▸ List.mem_map_of_mem (f := Char.toLower) hc
      exact keys_bracket _ d.type.known hkey
    · cases hm : d.type.modifier with
      | none => simp [hm] at hc
      | some m =>
        rw [hm] at hc
        exact absurd (modifier_chars d.type hm _ hc) (by decide)
  · exact absurd hc (not_bracket_flags d.before)
  · cases hd : d.default with
    | none => simp [ColumnDef.defaultText, hd] at hc
    | some x =>
      simp only [ColumnDef.defaultText, hd, Option.elim_some, DefaultClause.text, List.mem_append] at hc
      obtain hc | (hc | hc) | hc := hc
      · exact absurd hc (not_bracket_gap x.1)
      · exact absurd hc (not_bracket_of_upper ["DEFAULT".toList] (by simp [x.2.word.property]) (by simp))
      · exact absurd hc (not_bracket_gap x.2.gap)
      · refine absurd hc (not_bracket_literal fun body t hl => h body t ?_)
        rw [ColumnDef.literal, hd, Option.map_some, hl]
  · exact absurd hc (not_bracket_flags d.after)

end Literals

/-! The type and the default of a column after a boot. -/

section Columns
variable {u : Uppercase} {m : TypedModel} {t : Table} {pg : Postgres} {name : String} {c : Column}

/-- A `[]` makes an array for the code, wherever it stands. -/
def TypeHolds (m : TypedModel) (t : Table) (name : String) : Prop :=
  (find "[]".toList (lower (m.definition name).chars)).isSome = true →
    (m.definition name).sqlType = "ARRAY" ∨ ∃ c, t.column name = some c ∧ c.dataType = "ARRAY"

/-- No string; and a number is one that the catalog shows so that the code reads it back,
unless the table has it already. -/
def DefaultHolds (u : Uppercase) (m : TypedModel) (t : Table) (pg : Postgres) (name : String) : Prop :=
  match (m.definition name).literal with
  | some (.quoted _ _) => False
  | some (.number n) =>
    Reads u (pg.rendered (m.definition name).sqlType (String.ofList n)) (String.ofList n) ∨
      ∃ c shown, t.column name = some c ∧ c.dataType = (m.definition name).sqlType ∧ c.columnDefault = some shown ∧
        Reads u shown (String.ofList n)
  | _ => True

theorem ne_nil_of_column (h : t.column name = some c) : t.columns ≠ [] := by
  intro hnil
  rw [Table.column, hnil] at h
  cases h

/-- A column that is altered is not a serial one. -/
theorem accepted_named {expected : String} (haccepted : Accepted u m t pg) (hname : name ∈ columnNames m.schema)
    (hc : t.column name = some c) (hexpected : normalizePgType (m.definition name).text = some expected)
    (hne : c.dataType ≠ expected) : typeNamed (extractTypeSql u.text (m.definition name).text) = some (m.definition name).sqlType := by
  have hin : ((name, (m.definition name).text), c.dataType) ∈ typeMismatchColumns m t :=
    mem_typeMismatchColumns.mpr ⟨mem_schema hname, hname, c, expected, hc, hexpected, hne, rfl⟩
  obtain ⟨usingClause, hstatements⟩ := alterColumnType_eq (u := u) (e := ((name, (m.definition name).text), c.dataType)) hexpected
  have hissued : .alterType name (extractTypeSql u.text (m.definition name).text) usingClause ∈ runSchemaMigrations u m t pg := by
    rw [run_eq (ne_nil_of_column hc), columnStatements]
    refine List.mem_append_left _ (List.mem_append_left _ (List.mem_append_right _ (List.mem_flatMap.mpr ⟨_, hin, ?_⟩)))
    rw [hstatements]
    exact List.mem_cons_self
  obtain ⟨front, rest, hrun⟩ := List.append_of_mem hissued
  have htaken := (haccepted front _ rest hrun).2
  rw [typeNamed_text] at htaken ⊢
  split at htaken
  · cases htaken
  · rename_i hserial
    rw [if_neg hserial]

theorem extractDefault_literal {d : ColumnDef} {l : Literal} (h : d.literal = some l) (hl : ∀ body t, l ≠ .quoted body t) :
    extractDefault u.text d.text = some (String.ofList l.text) := by
  cases l with
  | number t => exact extractDefault_number u h
  | boolean t => exact extractDefault_boolean u h
  | quoted body t => exact absurd rfl (hl body t)

/-- A column as the model has it stays; any other one comes to the type and the default of the model. -/
theorem staged_spec (haccepted : Accepted u m t pg) (hname : name ∈ columnNames m.schema) :
    ∃ c, (staged u m t pg).column name = some c ∧
      ((t.column name = some c ∧ normalizePgType (m.definition name).text = some c.dataType) ∨
        ((∀ c', t.column name = some c' → normalizePgType (m.definition name).text ≠ some c'.dataType) ∧
          c.dataType = (m.definition name).sqlType ∧
          ∀ l, (m.definition name).literal = some l → (∀ body t, l ≠ .quoted body t) →
            c.columnDefault = some (pg.rendered (m.definition name).sqlType (String.ofList l.text)))) := by
  cases hc : t.column name with
  | none =>
    refine ⟨_, staged_missing hname hc, .inr ⟨by simp, rfl, fun l hl _ => ?_⟩⟩
    rw [newColumn]
    dsimp only
    rw [hl, Option.map_some, Option.some_or]
  | some c =>
    have hnormal := normalizePgType_text (m.definition name)
    by_cases hsame : normalizePgType (m.definition name).text = some c.dataType
    · exact ⟨c, staged_same hname hc hsame, .inl ⟨rfl, hsame⟩⟩
    · have hne : c.dataType ≠ if (find "[]".toList (lower (m.definition name).chars)).isSome then "ARRAY" else (m.definition name).sqlType := by
        intro heq
        exact hsame (by rw [hnormal, heq])
      obtain ⟨c', hc', htype, hdefault⟩ := staged_altered hname hc hnormal hne (accepted_named haccepted hname hc hnormal hne)
      refine ⟨c', hc', .inr ⟨fun c'' heq => by rw [← Option.some.inj heq]; exact hsame, htype, fun l hl hquoted => ?_⟩⟩
      exact hdefault _ (extractDefault_literal hl hquoted)

theorem type_quiet_iff (haccepted : Accepted u m t pg) (hname : name ∈ columnNames m.schema)
    (hc : (staged u m t pg).column name = some c) :
    normalizePgType (m.definition name).text = some c.dataType ↔ TypeHolds m t name := by
  obtain ⟨c', hc', hcase⟩ := staged_spec haccepted hname
  rw [hc, Option.some.injEq] at hc'
  subst hc'
  have hnormal := normalizePgType_text (m.definition name)
  obtain ⟨hold, hsame⟩ | ⟨hdiffers, htype, -⟩ := hcase
  · refine iff_of_true hsame fun hmark => .inr ⟨c, hold, ?_⟩
    rw [hnormal, if_pos hmark] at hsame
    exact (Option.some.inj hsame).symm
  · rw [hnormal, Option.some.injEq, htype, TypeHolds]
    constructor
    · intro h hmark
      rw [if_pos hmark] at h
      exact .inl h.symm
    · intro h
      split
      · rename_i hmark
        obtain harray | ⟨c', hc', harray⟩ := h hmark
        · exact harray.symm
        · have hne := hdiffers c' hc'
          rw [hnormal, if_pos hmark, harray] at hne
          exact absurd rfl hne
      · rfl

theorem default_quiet_iff (haccepted : Accepted u m t pg) (hname : name ∈ columnNames m.schema)
    (hc : (staged u m t pg).column name = some c) :
    defaultDdl u.text (parseColumnConstraints u.text (m.definition name).text)
      (syncedColumn u.text pg (parseColumnConstraints u.text (m.definition name).text) c).toColumnInfo = [] ↔
      DefaultHolds u m t pg name := by
  rw [defaultDdl_synced_iff, default_parsed, DefaultHolds]
  cases hl : (m.definition name).literal with
  | none =>
    refine iff_of_true (fun value hvalue => ?_) trivial
    rw [extractDefault_none u (Option.map_eq_none_iff.mp hl)] at hvalue
    cases hvalue
  | some l =>
    cases l with
    | number n =>
      dsimp only
      rw [extractDefault_number u hl]
      simp only [Option.some.injEq, forall_eq']
      have hnormal : normalizePgType (m.definition name).text = some (m.definition name).sqlType := by
        rw [normalizePgType_text]
        split
        · rename_i hmark
          rw [sqlType_of_bracket (by simp [hl]) hmark]
        · rfl
      obtain ⟨c', hc', hcase⟩ := staged_spec haccepted hname
      rw [hc, Option.some.injEq] at hc'
      subst hc'
      obtain ⟨hold, hsame⟩ | ⟨hdiffers, htype, hdefault⟩ := hcase
      · rw [hnormal, Option.some.injEq] at hsame
        rw [← hsame, or_comm]
        refine or_congr_right ⟨?_, ?_⟩
        · rintro ⟨shown, hshown, hreads⟩
          exact ⟨c, shown, hold, hsame.symm, hshown, hreads⟩
        · rintro ⟨c', shown, hc', -, hshown, hreads⟩
          rw [hold, Option.some.injEq] at hc'
          exact ⟨shown, hc' ▸ hshown, hreads⟩
      · rw [hdefault _ hl (by simp), htype]
        constructor
        · rintro (⟨shown, hshown, hreads⟩ | hreads)
          · rw [Option.some.injEq] at hshown
            exact .inl (hshown ▸ hreads)
          · exact .inl hreads
        · rintro (hreads | ⟨c', shown, hc', htype', -⟩)
          · exact .inr hreads
          · exact absurd (htype' ▸ hnormal) (hdiffers c' hc')
    | boolean b =>
      refine iff_of_true (fun value hvalue => .inr ?_) trivial
      rw [extractDefault_boolean u hl, Option.some.injEq] at hvalue
      rw [← hvalue]
      exact reads_boolean b.property
    | quoted body cast =>
      refine iff_of_false (fun h => ?_) id
      obtain ⟨value, hvalue, hhead⟩ := extractDefault_quoted u hl
      obtain ⟨shown, -, hreads⟩ | hreads := h value hvalue
      · exact not_reads_quoted hhead hreads
      · exact not_reads_quoted hhead hreads

end Columns

end XgenSdk.Migrations
