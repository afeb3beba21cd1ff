import XgenSdk.Config.ByName
import Mathlib.Data.List.Find

/-! What a name is read as after it has been written: the same setting, or another one. -/
namespace XgenSdk.Config.ByName
open XgenSdk.Py XgenSdk.Interleave

/-! The settings. -/

/-- A setting with this env name and this path is in one of the stores. -/
def Site.Holds (s : Site) (envName path : String) : Prop :=
  (∃ config, s.redis envName = some config ∧ textAt "path" config "" = path) ∨
    ∃ row ∈ s.rows, row.envName = envName ∧ row.configPath = path

/-- The stores hold settings with distinct env names and distinct paths; no env name is in the manager's own namespaces. -/
structure WellFormed (s : Site) : Prop where
  payload : ∀ envName config, s.redis envName = some config → reserved envName = false ∧ envName ≠ "" ∧
    ∃ value dataType category path, path ≠ "" ∧ config = payloadOf value dataType category path envName
  row : ∀ row ∈ s.rows, reserved row.envName = false ∧ row.envName ≠ "" ∧ row.configPath ≠ ""
  paths : (s.rows.map (·.configPath)).Nodup
  distinct : ∀ {envName path envName' path' : String}, s.Holds envName path → s.Holds envName' path' → (envName = envName' ↔ path = path')

/-- A scalar of this type. -/
def IsScalar (dataType : String) : Json → Prop
  | .str _ => dataType = "string"
  | .int _ => dataType = "int"
  | .float _ => dataType = "float"
  | .bool _ => dataType = "bool"
  | _ => False

/-- The text of the value in the table is read as the value. -/
def ReadsBack (pr : Process) (value : Json) : Prop :=
  Serializer.safeDeserialize pr.lib (some (Serializer.safeSerialize pr.lib value)) (Serializer.inferDataType value) = value

/-- The setting that is written is the one that is read, no other changes, and a setting whose env name or path is the name wins. -/
structure Agrees (pr : Process) (index : Option NameIndex) (name : String) (value : Json) (scan' : List String) (now' : Nat) (t : Target)
    (s : Site) (o : Outcome Bool) : Prop where
  read : getConfigByName pr index name scan' o.memory { o.site with now := now' } = .ok value
  others : ∀ envName, envName ≠ t.envName → o.site.redis envName = s.redis envName ∧
    ∀ row, row.envName = envName → (row ∈ o.site.rows ↔ row ∈ s.rows)
  exact : (∃ envName path, s.Holds envName path ∧ (envName = name ∨ path = name)) → t.envName = name ∨ t.path = name

/-- Where the two ways to look for a name cannot differ. -/
structure SameSetting (pr : Process) (name : String) (value : Json) (scan scan' : List String) (now' : Nat) (m : Memory) (s : Site) : Prop where
  nonempty : name ≠ ""
  ordinary : name ≠ versionName
  /-- A setting that is found by its path is read from the table. -/
  text : s.redis name = none → ((∃ row ∈ s.rows, row.envName = name) → ∃ row ∈ s.rows, row.configPath = name) →
    ∀ envName, envName ≠ name → s.Holds envName name → missRecent pr m now' name = true ∨ ReadsBack pr value
  /-- The first setting of the sweep has the name as its path if any has, and the last segment is no one else's. -/
  sweep : s.redis name = none → (∀ row ∈ s.rows, row.envName ≠ name ∧ row.configPath ≠ name) →
    ∀ config, (getAllConfigs scan s).find? (takes name) = some config →
      ((∃ envName, s.Holds envName name) → textAt "path" config "" = name) ∧
      ((¬ ∃ envName, s.Holds envName name) →
        ∀ config', (getAllConfigs scan' s).find? (takes name) = some config' → config' = config ∨ Json.get "value" (.obj config') = value)

section Index

/-! The index of the names. -/

/-- The first settings that an index has under a name. -/
def named (name : String) (config : Fields) : Bool := name ≠ "" && (textAt "env_name" config "" = name || textAt "path" config "" = name)

def ends (name : String) (config : Fields) : Bool := name ≠ "" && textAt "path" config "" ≠ "" && lastSegment (textAt "path" config "") = name

theorem get_setDefault (d : Dict String Json) (key : String) (value : Json) (name : String) :
    (setDefault d key value).get name = (d.get name).or (if key = name then some value else none) := by
  unfold setDefault
  by_cases hkey : key = name
  · subst hkey
    cases hget : d.get key with
    | some v => simp [hget]
    | none => simp [Dict.get_set]
  · rw [if_neg hkey, Option.or_none]
    split
    · rfl
    · rw [Dict.get_set, if_neg hkey]

/-- A name that is set where it is not empty. -/
theorem get_setNonempty (d : Dict String Json) (key : String) (value : Json) (name : String) :
    (if key = "" then d else setDefault d key value).get name = (d.get name).or (if name ≠ "" ∧ key = name then some value else none) := by
  by_cases hkey : key = ""
  · subst hkey
    have hnot : ¬ (name ≠ "" ∧ "" = name) := fun h => h.1 h.2.symm
    rw [if_pos rfl, if_neg hnot, Option.or_none]
  · have hname : (name ≠ "" ∧ key = name) = (key = name) := propext (and_iff_right_of_imp fun h => h ▸ hkey)
    rw [if_neg hkey, get_setDefault]
    simp only [hname]

theorem exact_add (names : Names) (config : Fields) (name : String) :
    (names.add config).exact.get name = (names.exact.get name).or (if named name config then some (Json.get "value" (.obj config)) else none) := by
  have hexact : (names.add config).exact = (if textAt "path" config "" = "" then
      (if textAt "env_name" config "" = "" then names.exact
        else setDefault names.exact (textAt "env_name" config "") (Json.get "value" (.obj config)))
      else setDefault (if textAt "env_name" config "" = "" then names.exact
        else setDefault names.exact (textAt "env_name" config "") (Json.get "value" (.obj config)))
        (textAt "path" config "") (Json.get "value" (.obj config))) := by
    unfold Names.add
    dsimp only
    split <;> rfl
  rw [hexact, get_setNonempty, get_setNonempty, Option.or_assoc]
  congr 1
  unfold named
  by_cases hname : name = ""
  · simp [hname]
  · by_cases henv : textAt "env_name" config "" = name
    · simp [hname, henv]
    · simp [hname, henv]

theorem tail_add (names : Names) (config : Fields) (name : String) :
    (names.add config).tail.get name = (names.tail.get name).or (if ends name config then some (Json.get "value" (.obj config)) else none) := by
  unfold Names.add ends
  dsimp only
  by_cases hpath : textAt "path" config "" = ""
  · rw [if_pos hpath]
    simp [hpath]
  · rw [if_neg hpath]
    dsimp only
    rw [get_setNonempty]
    simp [hpath]

/-- An index that is built setting by setting holds the first of each name. -/
theorem get_foldl {index : Names → Dict String Json} {p : Fields → Bool} {name : String}
    (hadd : ∀ names config, (index (names.add config)).get name =
      ((index names).get name).or (if p config then some (Json.get "value" (.obj config)) else none)) (configs : List Fields) (names : Names) :
    (index (configs.foldl Names.add names)).get name =
      ((index names).get name).or ((configs.find? p).map fun config => Json.get "value" (.obj config)) := by
  induction configs generalizing names with
  | nil => simp
  | cons config configs ih =>
    rw [List.foldl_cons, ih, hadd, Option.or_assoc, List.find?_cons]
    cases p config with
    | true => simp
    | false => simp

theorem exact_get (configs : List Fields) (name : String) :
    (namesOf configs).exact.get name = (configs.find? (named name)).map fun config => Json.get "value" (.obj config) := by
  rw [namesOf, get_foldl (fun names config => exact_add names config name), Dict.get_empty, Option.none_or]

theorem tail_get (configs : List Fields) (name : String) :
    (namesOf configs).tail.get name = (configs.find? (ends name)).map fun config => Json.get "value" (.obj config) := by
  rw [namesOf, get_foldl (fun names config => tail_add names config name), Dict.get_empty, Option.none_or]

end Index

section Settings
variable {pr : Process} {kind : DbKind} {m : Memory} {s : Site} {name : String} {scan : List String} {t : Target}

/-! The payloads and the rows of well-formed stores. -/

section Payloads
variable (value : Json) (dataType category path envName default : String)

theorem textAt_path : textAt "path" (payloadOf value dataType category path envName) default = path := rfl

theorem textAt_envName : textAt "env_name" (payloadOf value dataType category path envName) default = envName := rfl

end Payloads

theorem of_not_reserved (h : reserved name = false) :
    ¬ ":category:".toList <:+: ':' :: name.toList ∧ ¬ ":_meta:".toList <:+: ':' :: name.toList := by
  obtain ⟨hcategory, hmeta⟩ := Bool.or_eq_false_iff.mp h
  exact ⟨of_decide_eq_false hcategory, of_decide_eq_false hmeta⟩

theorem ordinary_ne (h : reserved name = false) : name ≠ versionName := by
  rintro rfl
  exact (of_not_reserved h).2 (by decide)

theorem ownKey_of_ordinary (h : reserved name = false) : s.ownKey name = false := by
  have hversion := ordinary_ne h
  have hcategory : categoryNamed name = none := by
    unfold categoryNamed
    split
    · rename_i hprefix
      have hcons : ':' :: "category:".toList <+: ':' :: name.toList := (List.prefix_cons_inj ':').mpr (List.isPrefixOf_iff_prefix.mp hprefix)
      exact absurd hcons.isInfix (of_not_reserved h).1
    · rfl
  simp [Site.ownKey, hversion, hcategory]

/-- The config that Redis has for a setting. -/
theorem payload_names (hwf : WellFormed s) {envName : String} {config : Fields} (default : String) (h : s.redis envName = some config) :
    textAt "env_name" config "" = envName ∧ s.Holds envName (textAt "path" config "") ∧ textAt "path" config "" ≠ "" ∧
      targetOf config default = ⟨textAt "path" config "", textAt "type" config "string", textAt "category" config "", envName⟩ := by
  obtain ⟨-, -, value, dataType, category, path, hpath, rfl⟩ := hwf.payload envName config h
  exact ⟨rfl, .inl ⟨_, h, rfl⟩, hpath, rfl⟩

theorem mem_getAllConfigs {config : Fields} : config ∈ getAllConfigs scan s ↔ ∃ envName ∈ scan, reserved envName = false ∧ s.redis envName = some config := by
  unfold getAllConfigs
  simp only [List.mem_filterMap, List.mem_filter, Bool.not_eq_true', and_assoc]

theorem find_getAllConfigs (p : Fields → Bool) : (getAllConfigs scan s).find? p =
    ((scan.filter fun name => !reserved name).find? fun envName => (s.redis envName).any p).bind s.redis := by
  unfold getAllConfigs
  rw [List.find?_filterMap]

/-- Rows of which some are replaced by one. -/
theorem mem_replaced {rows : List Row} {p : Row → Prop} [DecidablePred p] (row : Row) (h : ∃ r ∈ rows, p r) (r : Row) :
    r ∈ rows.map (fun r => if p r then row else r) ↔ r = row ∨ (r ∈ rows ∧ ¬ p r) := by
  rw [List.mem_map]
  constructor
  · rintro ⟨r', hr', rfl⟩
    by_cases hp : p r'
    · exact .inl (if_pos hp)
    · rw [if_neg hp]
      exact .inr ⟨hr', hp⟩
  · rintro (rfl | ⟨hr, hp⟩)
    · obtain ⟨r', hr', hp⟩ := h
      exact ⟨r', hr', if_pos hp⟩
    · exact ⟨r, hr, if_neg hp⟩

theorem length_filter_path {rows : List Row} (h : (rows.map (·.configPath)).Nodup) (path : String) :
    (rows.filter fun r => r.configPath = path).length ≤ 1 := by
  induction rows with
  | nil => exact Nat.zero_le 1
  | cons r rows ih =>
    rw [List.map_cons, List.nodup_cons] at h
    by_cases hr : r.configPath = path
    · have hnone : (rows.filter fun r => r.configPath = path) = [] := by
        rw [List.filter_eq_nil_iff]
        intro r' hr' hpath
        exact h.1 (List.mem_map.mpr ⟨r', hr', (of_decide_eq_true hpath).trans hr.symm⟩)
      rw [List.filter_cons_of_pos (by simpa using hr), hnone]
      exact Nat.le_refl 1
    · rw [List.filter_cons_of_neg (by simpa using hr)]
      exact ih h.2

/-- The rows after a setting is saved. -/
theorem mem_savedRows {row : Row} (hpaths : (s.rows.map (·.configPath)).Nodup)
    (hsame : ∀ r ∈ s.rows, r.envName = row.envName ↔ r.configPath = row.configPath) (r : Row) :
    r ∈ savedRows kind s row ↔ r = row ∨ (r ∈ s.rows ∧ r.envName ≠ row.envName) := by
  -- Without a row of the setting the new one is added.
  have happend : (¬ ∃ r ∈ s.rows, r.configPath = row.configPath) →
      (r ∈ s.rows ++ [row] ↔ r = row ∨ (r ∈ s.rows ∧ r.envName ≠ row.envName)) := by
    intro hnone
    rw [List.mem_append, List.mem_singleton, or_comm]
    refine or_congr_right (and_iff_left_of_imp fun hr heq => hnone ⟨r, hr, (hsame r hr).mp heq⟩).symm
  have hany : (s.rows.any fun r => r.configPath = row.configPath) = true ↔ ∃ r ∈ s.rows, r.configPath = row.configPath := by
    simp only [List.any_eq_true, decide_eq_true_eq]
  cases kind with
  | pool =>
    rw [savedRows, Site.upserted]
    split
    · rename_i htaken
      rw [mem_replaced row (hany.mp htaken)]
      exact or_congr_right (and_congr_right fun hr => not_congr (hsame r hr).symm)
    · rename_i hfree
      exact happend fun h => hfree (hany.mpr h)
  | appDb =>
    have hselect : (s.select .envName row.envName).isSome = true ↔ ∃ r ∈ s.rows, r.envName = row.envName := by
      rw [Site.select, List.find?_isSome]
      constructor
      · rintro ⟨r, hr, h⟩
        exact ⟨r, hr, of_decide_eq_true h⟩
      · rintro ⟨r, hr, h⟩
        exact ⟨r, hr, decide_eq_true h⟩
    rw [savedRows]
    split
    · rename_i hfound
      have hone : ¬ 1 < (s.rows.filter fun r => r.envName = row.envName).length := by
        have heq : (s.rows.filter fun r => r.envName = row.envName) = s.rows.filter fun r => r.configPath = row.configPath :=
          List.filter_congr fun r hr => by rw [decide_eq_decide]; exact hsame r hr
        rw [heq]
        exact Nat.not_lt.mpr (length_filter_path hpaths row.configPath)
      have hfree : ¬ (s.rows.any fun r => r.envName ≠ row.envName && r.configPath = row.configPath) = true := by
        simp only [List.any_eq_true, Bool.and_eq_true, decide_eq_true_eq]
        rintro ⟨r, hr, hne, heq⟩
        exact hne ((hsame r hr).mpr heq)
      have hupdated : s.updated row = some ((s.rows.filter fun r => r.envName = row.envName).length,
          s.rows.map fun r => if r.envName = row.envName then row else r) :=
        if_neg fun h => h.elim hone fun h => hfree h.2
      rw [hupdated]
      exact mem_replaced row (hselect.mp hfound) r
    · rename_i hmissing
      have hnone : ¬ ∃ r ∈ s.rows, r.configPath = row.configPath := by
        rintro ⟨r, hr, heq⟩
        exact hmissing (hselect.mpr ⟨r, hr, (hsame r hr).mpr heq⟩)
      rw [if_neg fun h => hnone (hany.mp h)]
      exact happend hnone

theorem select_eq_some {column : Column} {key : String} {row : Row} (h : s.select column key = some row) :
    row ∈ s.rows ∧ Site.columnOf column row = key := by
  have hrow : decide (Site.columnOf column row = key) = true := by
    rw [Site.select] at h
    exact @List.find?_some _ (fun row => decide (Site.columnOf column row = key)) _ _ h
  exact ⟨List.mem_of_find?_eq_some h, of_decide_eq_true hrow⟩

theorem select_eq_none {column : Column} {key : String} : s.select column key = none ↔ ∀ row ∈ s.rows, Site.columnOf column row ≠ key := by
  rw [Site.select, List.find?_eq_none]
  exact forall₂_congr fun row _ => not_congr decide_eq_true_iff

theorem dbRow_eq (hname : name ≠ "") :
    dbRow pr s name = ((s.select .configPath name).or (s.select .envName name)).map (readRow pr name name) := by
  have hlookups : lookups name name = [(.configPath, name), (.envName, name)] := by simp [lookups, hname]
  rw [dbRow, hlookups]
  congr 1
  simp only [List.findSome?_cons, List.findSome?_nil]
  cases s.select .configPath name with
  | some row => rfl
  | none =>
    cases s.select .envName name with
    | some row => rfl
    | none => rfl

theorem dbRow_some {found : DbRow} (h : dbRow pr s name = some found) :
    ∃ row ∈ s.rows, readRow pr name name row = found ∧
      (row.configPath = name ∨ ((∀ row ∈ s.rows, row.configPath ≠ name) ∧ row.envName = name)) := by
  by_cases hname : name = ""
  · subst hname
    cases h
  · rw [dbRow_eq hname] at h
    obtain ⟨row, hrow, hread⟩ := Option.map_eq_some_iff.mp h
    obtain hpath | ⟨hnone, henv⟩ := Option.or_eq_some_iff.mp hrow
    · obtain ⟨hmem, hcolumn⟩ := select_eq_some hpath
      exact ⟨row, hmem, hread, .inl hcolumn⟩
    · obtain ⟨hmem, hcolumn⟩ := select_eq_some henv
      exact ⟨row, hmem, hread, .inr ⟨select_eq_none.mp hnone, hcolumn⟩⟩

theorem dbRow_none (hwf : WellFormed s) : dbRow pr s name = none ↔ ∀ row ∈ s.rows, row.envName ≠ name ∧ row.configPath ≠ name := by
  by_cases hname : name = ""
  · subst hname
    exact iff_of_true rfl fun row hrow => (hwf.row row hrow).2
  · rw [dbRow_eq hname, Option.map_eq_none_iff, Option.or_eq_none_iff, select_eq_none, select_eq_none]
    exact ⟨fun h row hrow => ⟨h.2 row hrow, h.1 row hrow⟩, fun h => ⟨fun row hrow => (h row hrow).2, fun row hrow => (h row hrow).1⟩⟩

/-- How the setting that is written was found. -/
inductive Resolved (pr : Process) (name : String) (scan : List String) (s : Site) (t : Target) : Prop where
  | key (config : Fields) (hconfig : s.redis name = some config) (hname : t.envName = name)
  | path (row : Row) (hkey : s.redis name = none) (hrow : row ∈ s.rows) (hpath : row.configPath = name) (htarget : t.path = name)
      (hname : t.envName = row.envName)
  | envName (row : Row) (hkey : s.redis name = none) (hrow : row ∈ s.rows) (hnone : ∀ row ∈ s.rows, row.configPath ≠ name)
      (hname : t.envName = name) (hrowName : row.envName = name)
  | sweep (config : Fields) (hkey : s.redis name = none) (hnone : ∀ row ∈ s.rows, row.envName ≠ name ∧ row.configPath ≠ name)
      (hconfig : (getAllConfigs scan s).find? (takes name) = some config) (hredis : s.redis t.envName = some config)
      (htarget : t.path = textAt "path" config "")

/-- A setting that is written is in the stores. -/
structure Known (s : Site) (t : Target) : Prop where
  holds : s.Holds t.envName t.path
  named : t.envName ≠ ""
  placed : t.path ≠ ""
  ordinary : reserved t.envName = false

theorem known_config (hwf : WellFormed s) {envName : String} {config : Fields} (h : s.redis envName = some config) (default : String) :
    Known s (targetOf config default) := by
  obtain ⟨hordinary, hnamed, value, dataType, category, path, hpath, rfl⟩ := hwf.payload envName config h
  exact ⟨.inl ⟨_, h, rfl⟩, hnamed, hpath, hordinary⟩

theorem known_row (hwf : WellFormed s) {row : Row} (h : row ∈ s.rows) :
    targetOfRow (readRow pr name name row) name = ⟨row.configPath, orText row.dataType "string",
        if row.configPath.toList.contains '.' then firstSegment row.configPath else "", row.envName⟩ ∧
      Known s (targetOfRow (readRow pr name name row) name) := by
  obtain ⟨hordinary, hnamed, hpath⟩ := hwf.row row h
  have htarget : targetOfRow (readRow pr name name row) name = ⟨row.configPath, orText row.dataType "string",
      if row.configPath.toList.contains '.' then firstSegment row.configPath else "", row.envName⟩ := by
    simp [targetOfRow, readRow, orText, hnamed, hpath]
  rw [htarget]
  exact ⟨rfl, .inr ⟨row, h, rfl, rfl⟩, hnamed, hpath, hordinary⟩

theorem resolve_resolved (hwf : WellFormed s) (hdb : pr.managerDb.isSome = true) (h : resolve pr name scan m s = some t) :
    Resolved pr name scan s t ∧ Known s t := by
  unfold resolve at h
  cases hkey : s.redis name with
  | some config =>
    rw [hkey, Option.isSome_some, Bool.true_or, if_pos rfl] at h
    obtain rfl := Option.some.inj h
    have hknown := known_config hwf hkey name
    exact ⟨.key config hkey (payload_names hwf name hkey).1, hknown⟩
  | none =>
    rw [hkey, probeDbRow_run name hdb] at h
    split_ifs at h
    · cases h
    · cases hrow : dbRow pr s name with
      | some found =>
        rw [hrow] at h
        obtain rfl := Option.some.inj h
        obtain ⟨row, hmem, rfl, hcase⟩ := dbRow_some hrow
        obtain ⟨htarget, hknown⟩ := @known_row pr s name hwf row hmem
        refine ⟨?_, hknown⟩
        obtain hpath | ⟨hnone, henv⟩ := hcase
        · exact .path row hkey hmem hpath (by rw [htarget]; exact hpath) (by rw [htarget])
        · exact .envName row hkey hmem hnone (by rw [htarget]; exact henv) henv
      | none =>
        rw [hrow] at h
        obtain ⟨config, hfind, rfl⟩ := Option.map_eq_some_iff.mp h
        obtain ⟨envName, -, -, hconfig⟩ := mem_getAllConfigs.mp (List.mem_of_find?_eq_some hfind)
        have hnames := (payload_names hwf "" hconfig).2.2.2
        refine ⟨.sweep config hkey ((dbRow_none hwf).mp hrow) hfind ?_ ?_, known_config hwf hconfig ""⟩
        · rw [hnames]
          exact hconfig
        · rw [hnames]

end Settings

section After
variable {pr : Process} {kind : DbKind} {m : Memory} {s : Site} {name : String} {scan scan' : List String} {t : Target} {value : Json}
  {now' : Nat} {o : Outcome Bool}

/-! The stores after the setting is written. -/

theorem cleaned_scalar {dataType : String} (h : IsScalar dataType value) : cleaned pr value dataType = value := by
  cases value with
  | str text =>
    obtain rfl : dataType = "string" := h
    rfl
  | int n => rfl
  | float x => rfl
  | bool b => rfl
  | null => exact h.elim
  | arr xs => exact h.elim
  | obj fields => exact h.elim

theorem inferDataType_scalar {dataType : String} (h : IsScalar dataType value) : Serializer.inferDataType value = dataType := by
  cases value with
  | str text => exact h.symm
  | int n => exact h.symm
  | float x => exact h.symm
  | bool b => exact h.symm
  | null => exact h.elim
  | arr xs => exact h.elim
  | obj fields => exact h.elim

theorem inferDataType_ne (value : Json) : Serializer.inferDataType value ≠ "" := by
  cases value <;> simp [Serializer.inferDataType]

/-- What Redis has of the setting. -/
def savedConfig (t : Target) (value : Json) : Fields :=
  payloadOf value t.dataType (orText t.category (firstSegment t.path)) t.path t.envName

/-- What the table has of it. -/
def savedRow (pr : Process) (t : Target) (value : Json) : Row :=
  ⟨t.path, some (Serializer.safeSerialize pr.lib value), t.dataType, t.envName⟩

/-- The setting is written, and nothing else. -/
structure Written (pr : Process) (t : Target) (value : Json) (m : Memory) (s : Site) (o : Outcome Bool) : Prop where
  connected : o.memory.connectionAvailable = true
  forgotten : o.memory.vc.values = .empty
  missed : ∀ name, name ≠ t.envName → o.memory.dbMissAt.get name = m.dbMissAt.get name
  redis : ∀ envName, o.site.redis envName = if envName = t.envName then some (savedConfig t value) else s.redis envName
  version : o.site.version = some (s.version.getD 0 + 1)
  rows : ∀ r, r ∈ o.site.rows ↔ r = savedRow pr t value ∨ (r ∈ s.rows ∧ r.envName ≠ t.envName)

theorem saves_written (hwf : WellFormed s) (hknown : Known s t) (hscalar : IsScalar t.dataType value) (h : Saves pr kind t value m s o) :
    Written pr t value m s o := by
  have hname : orText t.envName t.path = t.envName := if_neg hknown.named
  have hclean : cleaned pr value t.dataType = value := cleaned_scalar hscalar
  obtain ⟨hconnected, hforgotten, hmissed, hredis, hversion, hrows⟩ := h
  rw [hname] at hmissed hredis hrows
  rw [hclean] at hredis hrows
  refine ⟨hconnected, hforgotten, fun other hne => ?_, fun envName => ?_, hversion, fun r => ?_⟩
  · rw [hmissed, Dict.get_erase, if_neg (Ne.symm hne)]
  · rw [hredis, Function.update_apply]
    rfl
  · rw [hrows]
    exact mem_savedRows hwf.paths (fun r hr => hwf.distinct (.inr ⟨r, hr, rfl, rfl⟩) hknown.holds) r

/-- The stores when the name is read. -/
def later (o : Outcome Bool) (now' : Nat) : Site := { o.site with now := now' }

theorem redis_later (h : Written pr t value m s o) (hne : name ≠ t.envName) : (later o now').redis name = s.redis name :=
  (h.redis name).trans (if_neg hne)

theorem missRecent_later (h : Written pr t value m s o) (hne : name ≠ t.envName) :
    missRecent pr o.memory now' name = missRecent pr m now' name := by
  rw [missRecent, h.missed name hne, missRecent]

theorem found_envName (hknown : Known s t) (h : Written pr t value m s o) :
    found pr o.memory (later o now') t.envName = some value := by
  have hredis : (later o now').redis t.envName = some (savedConfig t value) := (h.redis t.envName).trans (if_pos rfl)
  have hvalue : redisValue (later o now') t.envName = some value := by
    rw [redisValue, ownKey_of_ordinary hknown.ordinary, if_neg Bool.false_ne_true, hredis]
    rfl
  rw [found, hvalue]

theorem redisValue_none (h : s.redis name = none) : redisValue s name = none := by
  rw [redisValue, h]
  exact ite_self none

/-- By its path the setting is read from the table. -/
theorem found_path (hwf : WellFormed s) (hknown : Known s t) (hscalar : IsScalar t.dataType value) (h : Written pr t value m s o)
    (hkey : s.redis t.path = none) (hne : t.path ≠ t.envName) :
    found pr o.memory (later o now') t.path = if missRecent pr m now' t.path then none
      else some (Serializer.safeDeserialize pr.lib (some (Serializer.safeSerialize pr.lib value)) (Serializer.inferDataType value)) := by
  have hselect : (later o now').select .configPath t.path = some (savedRow pr t value) := by
    cases hfound : (later o now').select .configPath t.path with
    | none => exact absurd rfl (select_eq_none.mp hfound (savedRow pr t value) ((h.rows _).mpr (.inl rfl)))
    | some row =>
      obtain ⟨hmem, hcolumn⟩ := select_eq_some hfound
      obtain rfl | ⟨hold, hother⟩ := (h.rows row).mp hmem
      · rfl
      · exact absurd ((hwf.distinct (.inr ⟨row, hold, rfl, rfl⟩) hknown.holds).mpr hcolumn) hother
  have hrow : dbRow pr (later o now') t.path = some (readRow pr t.path t.path (savedRow pr t value)) := by
    rw [dbRow_eq hknown.placed, hselect]
    rfl
  have htype : orText t.dataType "string" = Serializer.inferDataType value := by
    rw [← inferDataType_scalar hscalar]
    exact if_neg (inferDataType_ne value)
  rw [found, redisValue_none ((redis_later h hne).trans hkey), hrow]
  dsimp only
  have hnow : missRecent pr o.memory (later o now').now t.path = missRecent pr m now' t.path := missRecent_later h hne
  rw [hnow, Option.map_some, readRow, savedRow, htype]

/-- What is in neither store is not found. -/
theorem found_none (h : Written pr t value m s o) (hkey : s.redis name = none)
    (hnone : ∀ row ∈ s.rows, row.envName ≠ name ∧ row.configPath ≠ name) (hne : name ≠ t.envName) (hpath : t.path ≠ name) :
    found pr o.memory (later o now') name = none := by
  have hrows : ∀ row ∈ (later o now').rows, row.envName ≠ name ∧ row.configPath ≠ name := by
    intro row hrow
    obtain rfl | ⟨hold, -⟩ := (h.rows row).mp hrow
    · exact ⟨Ne.symm hne, hpath⟩
    · exact hnone row hold
  have hrow : dbRow pr (later o now') name = none := by
    by_cases hname : name = ""
    · subst hname
      rfl
    · have hbyPath : (later o now').select .configPath name = none := select_eq_none.mpr fun row hrow => (hrows row hrow).2
      have hbyName : (later o now').select .envName name = none := select_eq_none.mpr fun row hrow => (hrows row hrow).1
      rw [dbRow_eq hname, hbyPath, hbyName]
      rfl
  rw [found, redisValue_none ((redis_later h hne).trans hkey), hrow, Option.map_none]
  exact ite_self none

/-- The only item of its kind is the one that is found. -/
theorem find_only {α : Type} {p : α → Bool} {xs : List α} {a : α} (ha : a ∈ xs) (hp : p a = true) (honly : ∀ x ∈ xs, p x = true → x = a) :
    xs.find? p = some a := by
  cases hfind : xs.find? p with
  | none => exact absurd hp (List.find?_eq_none.mp hfind a ha)
  | some x => rw [honly x (List.mem_of_find?_eq_some hfind) (List.find?_some hfind)]

theorem named_iff (config : Fields) :
    named name config = true ↔ name ≠ "" ∧ (textAt "env_name" config "" = name ∨ textAt "path" config "" = name) := by
  simp [named]

/-- Through the index the setting is read by its path. -/
theorem exact_path (hwf : WellFormed s) (hknown : Known s t) (h : Written pr t value m s o)
    (hscan : ∀ envName, (o.site.redis envName).isSome = true → envName ∈ scan') (hkey : s.redis t.path = none) :
    (namesOf (getAllConfigs scan' (later o now'))).exact.get t.path = some value := by
  have hconfig : o.site.redis t.envName = some (savedConfig t value) := (h.redis t.envName).trans (if_pos rfl)
  have hfind : (getAllConfigs scan' (later o now')).find? (named t.path) = some (savedConfig t value) := by
    refine find_only ?_ ?_ ?_
    · exact mem_getAllConfigs.mpr ⟨t.envName, hscan t.envName (by rw [hconfig]; rfl), hknown.ordinary, hconfig⟩
    · exact (named_iff _).mpr ⟨hknown.placed, .inr rfl⟩
    · intro config hmem hnamed
      obtain ⟨envName, -, -, hredis⟩ := mem_getAllConfigs.mp hmem
      have hcase := h.redis envName
      by_cases henv : envName = t.envName
      · rw [if_pos henv] at hcase
        exact Option.some.inj (hredis.symm.trans hcase)
      · rw [if_neg henv] at hcase
        have hold : s.redis envName = some config := hcase.symm.trans hredis
        obtain ⟨hname, hholds, -, -⟩ := payload_names hwf "" hold
        obtain heq | heq := ((named_iff config).mp hnamed).2
        · rw [← hname, heq, hkey] at hold
          cases hold
        · rw [heq] at hholds
          exact absurd ((hwf.distinct hholds hknown.holds).mpr rfl) henv
  rw [exact_get, hfind]
  rfl

theorem takes_saved {config : Fields} (hwf : WellFormed s) (hconfig : s.redis t.envName = some config)
    (hpath : t.path = textAt "path" config "") (name : String) : takes name (savedConfig t value) = takes name config := by
  have henv := (payload_names hwf "" hconfig).1
  unfold takes
  rw [henv, ← hpath]
  rfl

/-- The sweep comes to the same setting before and after the writing. -/
theorem sweep_later (hwf : WellFormed s) (h : Written pr t value m s o) {config : Fields} (hconfig : s.redis t.envName = some config)
    (hpath : t.path = textAt "path" config "") {config' : Fields} (hfind : (getAllConfigs scan' s).find? (takes name) = some config') :
    (getAllConfigs scan' (later o now')).find? (takes name) = some (if textAt "env_name" config' "" = t.envName then savedConfig t value else config') := by
  have hsame : ∀ envName, ((later o now').redis envName).any (takes name) = (s.redis envName).any (takes name) := by
    intro envName
    have hcase : (later o now').redis envName = _ := h.redis envName
    rw [hcase]
    split
    · rename_i henv
      rw [henv, hconfig, Option.any_some, Option.any_some, takes_saved hwf hconfig hpath]
    · rfl
  rw [find_getAllConfigs] at hfind ⊢
  simp only [hsame]
  obtain ⟨envName, hfirst, hredis⟩ := Option.bind_eq_some_iff.mp hfind
  rw [hfirst, Option.bind_some]
  have hcase : (later o now').redis envName = _ := h.redis envName
  rw [hcase]
  have hnamed := (payload_names hwf "" hredis).1
  rw [hnamed]
  split
  · rfl
  · exact hredis

/-- By its last segment a setting is read through the index. -/
theorem names_tail (hwf : WellFormed s) (h : Written pr t value m s o) {config config' : Fields} (hconfig : s.redis t.envName = some config)
    (hpath : t.path = textAt "path" config "") (hname : name ≠ "") (hkey : s.redis name = none) (hne : name ≠ t.envName)
    (hother : ¬ ∃ envName, s.Holds envName name) (hfind : (getAllConfigs scan' s).find? (takes name) = some config') :
    ((namesOf (getAllConfigs scan' (later o now'))).exact.get name).or ((namesOf (getAllConfigs scan' (later o now'))).tail.get name) =
      some (if textAt "env_name" config' "" = t.envName then value else Json.get "value" (.obj config')) := by
  -- No setting that is swept has the name as its env name or its path.
  have hplain : ∀ c ∈ getAllConfigs scan' (later o now'), textAt "env_name" c "" ≠ name ∧ textAt "path" c "" ≠ name ∧ textAt "path" c "" ≠ "" := by
    intro c hc
    obtain ⟨envName, -, -, hredis⟩ := mem_getAllConfigs.mp hc
    have hcase : (later o now').redis envName = _ := h.redis envName
    rw [hredis] at hcase
    obtain ⟨-, hholds, hplaced, -⟩ := payload_names hwf "" hconfig
    by_cases henv : envName = t.envName
    · rw [if_pos henv] at hcase
      rw [Option.some.inj hcase]
      refine ⟨Ne.symm hne, fun heq => hother ⟨t.envName, ?_⟩, ?_⟩
      · rw [← hpath] at hholds
        rw [← heq]
        exact hholds
      · rw [← hpath] at hplaced
        exact hplaced
    · rw [if_neg henv] at hcase
      obtain ⟨hnamed, hheld, hpathed, -⟩ := payload_names hwf "" hcase.symm
      refine ⟨fun heq => ?_, fun heq => hother ⟨envName, heq ▸ hheld⟩, hpathed⟩
      rw [← hnamed, heq, hkey] at hcase
      cases hcase
  have hnamed : (getAllConfigs scan' (later o now')).find? (named name) = none := by
    rw [List.find?_eq_none]
    intro c hc hc'
    obtain ⟨hdiff, hdiff', -⟩ := hplain c hc
    exact ((named_iff c).mp hc').2.elim hdiff hdiff'
  have hends : (getAllConfigs scan' (later o now')).find? (ends name) = (getAllConfigs scan' (later o now')).find? (takes name) := by
    refine List.find?_congr fun c hc => ?_
    obtain ⟨hdiff, hdiff', hdiff''⟩ := hplain c hc
    simp [ends, takes, hname, hdiff, hdiff', hdiff'']
  rw [exact_get, tail_get, hnamed, hends, sweep_later hwf h hconfig hpath hfind, Option.map_none, Option.none_or, Option.map_some]
  split <;> rfl

theorem others_kept (h : Written pr t value m s o) (envName : String) (hne : envName ≠ t.envName) :
    o.site.redis envName = s.redis envName ∧ ∀ row, row.envName = envName → (row ∈ o.site.rows ↔ row ∈ s.rows) := by
  refine ⟨(h.redis envName).trans (if_neg hne), fun row hrow => ?_⟩
  rw [h.rows row, hrow]
  constructor
  · rintro (rfl | ⟨hold, -⟩)
    · exact absurd hrow.symm hne
    · exact hold
  · exact fun hold => .inr ⟨hold, hne⟩

theorem read_iff {index : Option NameIndex} (hdb : pr.managerDb.isSome = true) (h : Written pr t value m s o)
    (hindex : ∀ i, index = some i → i.version ≤ s.version.getD 0) :
    getConfigByName pr index name scan' o.memory (later o now') = .ok value ↔ name ≠ versionName ∧
      (found pr o.memory (later o now') name).or (((namesOf (getAllConfigs scan' (later o now'))).exact.get name).or
        ((namesOf (getAllConfigs scan' (later o now'))).tail.get name)) = some value := by
  have hversion : (later o now').version = some (s.version.getD 0 + 1) := h.version
  have hold : ∀ i, index = some i → i.version ≠ (later o now').version.getD 0 := by
    intro i hi
    have hle := hindex i hi
    rw [hversion, Option.getD_some]
    omega
  rw [getConfigByName_run name scan' h.connected hdb h.forgotten hold, hversion, Option.isSome_some]
  by_cases hname : name = versionName
  · rw [if_pos ⟨hname, rfl⟩]
    exact iff_of_false (fun h => by cases h) fun h => h.1 hname
  · rw [if_neg fun h => hname h.1]
    refine Iff.trans ?_ (and_iff_right hname).symm
    cases (found pr o.memory (later o now') name).or (((namesOf (getAllConfigs scan' (later o now'))).exact.get name).or
        ((namesOf (getAllConfigs scan' (later o now'))).tail.get name)) with
    | none => exact iff_of_false (fun h => by cases h) fun h => by cases h
    | some v => simp

/-- A setting that is written by its env name is read by it. -/
theorem agrees_envName {index : Option NameIndex} (hwf : WellFormed s) (hdb : pr.managerDb.isSome = true) (hresolved : Resolved pr name scan s t)
    (hknown : Known s t) (h : Written pr t value m s o) (hindex : ∀ i, index = some i → i.version ≤ s.version.getD 0) (hname : name = t.envName) :
    Agrees pr index name value scan' now' t s o ∧ SameSetting pr name value scan scan' now' m s := by
  subst hname
  refine ⟨⟨?_, others_kept h, fun _ => .inl rfl⟩, hknown.named, ordinary_ne hknown.ordinary, ?_, ?_⟩
  · refine (read_iff hdb h hindex).mpr ⟨ordinary_ne hknown.ordinary, ?_⟩
    rw [found_envName hknown h, Option.some_or]
  · intro hkey hrows envName hne hholds
    cases hresolved with
    | key config hconfig => cases hkey.symm.trans hconfig
    | path row _ _ _ htarget => exact absurd ((hwf.distinct hholds hknown.holds).mpr htarget.symm) hne
    | envName row _ hrow hnone _ hrowName =>
      obtain ⟨row', hrow', hpath⟩ := hrows ⟨row, hrow, hrowName⟩
      exact absurd hpath (hnone row' hrow')
    | sweep config _ _ _ hredis => cases hkey.symm.trans hredis
  · intro hkey hnone config hfind
    cases hresolved with
    | key config hconfig => cases hkey.symm.trans hconfig
    | path row _ hrow hpath => exact absurd hpath (hnone row hrow).2
    | envName row _ hrow _ _ hrowName => exact absurd hrowName (hnone row hrow).1
    | sweep config _ _ _ hredis => cases hkey.symm.trans hredis

/-- One that is written by its path is read from the table, or through the index. -/
theorem agrees_path {index : Option NameIndex} (hwf : WellFormed s) (hdb : pr.managerDb.isSome = true) (hresolved : Resolved pr name scan s t)
    (hknown : Known s t) (hscalar : IsScalar t.dataType value) (h : Written pr t value m s o)
    (hscan : ∀ envName, (o.site.redis envName).isSome = true → envName ∈ scan')
    (hindex : ∀ i, index = some i → i.version ≤ s.version.getD 0) (hname : name ≠ t.envName) (hpath : t.path = name) :
    Agrees pr index name value scan' now' t s o ↔ SameSetting pr name value scan scan' now' m s := by
  subst hpath
  have hkey : s.redis t.path = none := by
    cases hresolved with
    | key config hconfig heq => exact absurd heq.symm hname
    | path row hkey => exact hkey
    | envName row hkey => exact hkey
    | sweep config hkey => exact hkey
  have hread : getConfigByName pr index t.path scan' o.memory (later o now') = .ok value ↔
      t.path ≠ versionName ∧ (missRecent pr m now' t.path = true ∨ ReadsBack pr value) := by
    rw [read_iff hdb h hindex, found_path hwf hknown hscalar h hkey hname, exact_path hwf hknown h hscan hkey]
    refine and_congr_right fun _ => ?_
    by_cases hmiss : missRecent pr m now' t.path = true
    · simp [hmiss]
    · simp [hmiss, ReadsBack]
  constructor
  · intro hagrees
    obtain ⟨hversion, hback⟩ := hread.mp hagrees.read
    refine ⟨hknown.placed, hversion, fun _ _ _ _ _ => hback, ?_⟩
    intro _ hnone config hfind
    refine ⟨fun _ => ?_, fun hno => absurd ⟨t.envName, hknown.holds⟩ hno⟩
    cases hresolved with
    | key config hconfig heq => exact absurd heq.symm hname
    | path row _ hrow heq => exact absurd heq (hnone row hrow).2
    | envName row _ hrow _ _ hrowName => exact absurd hrowName (hnone row hrow).1
    | sweep config' _ _ hfind' _ htarget =>
      obtain rfl := Option.some.inj (hfind.symm.trans hfind')
      exact htarget.symm
  · intro hsame
    refine ⟨hread.mpr ⟨hsame.ordinary, ?_⟩, others_kept h, fun _ => .inr rfl⟩
    refine hsame.text hkey ?_ t.envName (Ne.symm hname) hknown.holds
    rintro ⟨row, hrow, hrowName⟩
    cases hresolved with
    | key config hconfig heq => exact absurd heq.symm hname
    | path row _ hrow heq => exact ⟨row, hrow, heq⟩
    | envName row _ _ _ heq => exact absurd heq.symm hname
    | sweep config _ hnone => exact absurd hrowName (hnone row hrow).1

theorem names_empty (configs : List Fields) : (namesOf configs).exact.get "" = none ∧ (namesOf configs).tail.get "" = none := by
  have hnamed : configs.find? (named "") = none := List.find?_eq_none.mpr fun config _ => by simp [named]
  have hends : configs.find? (ends "") = none := List.find?_eq_none.mpr fun config _ => by simp [ends]
  rw [exact_get, tail_get, hnamed, hends]
  exact ⟨rfl, rfl⟩

/-- One that is written by the last segment of its path is read if no other comes first. -/
theorem agrees_tail {index : Option NameIndex} (hwf : WellFormed s) (hdb : pr.managerDb.isSome = true) (hresolved : Resolved pr name scan s t)
    (hknown : Known s t) (h : Written pr t value m s o)
    (hscan : ∀ envName, (o.site.redis envName).isSome = true → envName ∈ scan')
    (hindex : ∀ i, index = some i → i.version ≤ s.version.getD 0) (hname : name ≠ t.envName) (hpath : t.path ≠ name) :
    Agrees pr index name value scan' now' t s o ↔ SameSetting pr name value scan scan' now' m s := by
  cases hresolved with
  | key config hconfig heq => exact absurd heq.symm hname
  | path row _ _ _ heq => exact absurd heq hpath
  | envName row _ _ _ heq => exact absurd heq.symm hname
  | sweep config hkey hnone hfind hredis htarget =>
    have hread : getConfigByName pr index name scan' o.memory (later o now') = .ok value ↔ name ≠ versionName ∧
        ((namesOf (getAllConfigs scan' (later o now'))).exact.get name).or ((namesOf (getAllConfigs scan' (later o now'))).tail.get name) =
          some value := by
      rw [read_iff hdb h hindex, found_none h hkey hnone hname hpath, Option.none_or]
    obtain ⟨config', hfind'⟩ : ∃ config', (getAllConfigs scan' s).find? (takes name) = some config' := by
      have hsaved : (o.site.redis t.envName).isSome = true := by
        rw [h.redis, if_pos rfl]
        rfl
      have hmem : config ∈ getAllConfigs scan' s := mem_getAllConfigs.mpr ⟨t.envName, hscan _ hsaved, hknown.ordinary, hredis⟩
      refine Option.ne_none_iff_exists'.mp fun hmissing => ?_
      exact List.find?_eq_none.mp hmissing config hmem (List.find?_some hfind)
    have hown : textAt "env_name" config' "" = t.envName ↔ config' = config := by
      obtain ⟨envName, -, -, hredis'⟩ := mem_getAllConfigs.mp (List.mem_of_find?_eq_some hfind')
      rw [(payload_names hwf "" hredis').1]
      constructor
      · rintro rfl
        exact Option.some.inj (hredis'.symm.trans hredis)
      · rintro rfl
        exact (payload_names hwf "" hredis').1.symm.trans (payload_names hwf "" hredis).1
    have htail : name ≠ "" → (¬ ∃ envName, s.Holds envName name) →
        (((namesOf (getAllConfigs scan' (later o now'))).exact.get name).or ((namesOf (getAllConfigs scan' (later o now'))).tail.get name) =
          some value ↔ config' = config ∨ Json.get "value" (.obj config') = value) := by
      intro hnonempty hother
      rw [names_tail hwf h hredis htarget hnonempty hkey hname hother hfind', Option.some.injEq]
      by_cases hsame : config' = config
      · rw [if_pos (hown.mpr hsame)]
        exact iff_of_true rfl (.inl hsame)
      · rw [if_neg fun heq => hsame (hown.mp heq)]
        exact (or_iff_right hsame).symm
    constructor
    · intro hagrees
      obtain ⟨hversion, hnames⟩ := hread.mp hagrees.read
      have hother : ¬ ∃ envName, s.Holds envName name := fun ⟨envName, hholds⟩ =>
        (hagrees.exact ⟨envName, name, hholds, .inr rfl⟩).elim (Ne.symm hname) hpath
      have hnonempty : name ≠ "" := by
        rintro rfl
        rw [(names_empty _).1, (names_empty _).2] at hnames
        cases hnames
      refine ⟨hnonempty, hversion, fun _ _ envName _ hholds => absurd ⟨envName, hholds⟩ hother, fun _ _ config₁ hfind₁ => ?_⟩
      obtain rfl := Option.some.inj (hfind.symm.trans hfind₁)
      refine ⟨fun hholds => absurd hholds hother, fun _ config₂ hfind₂ => ?_⟩
      obtain rfl := Option.some.inj (hfind'.symm.trans hfind₂)
      exact (htail hnonempty hother).mp hnames
    · intro hsame
      obtain ⟨hfirst, hlast⟩ := hsame.sweep hkey hnone config hfind
      have hother : ¬ ∃ envName, s.Holds envName name := fun hholds => hpath (htarget.trans (hfirst hholds))
      refine ⟨hread.mpr ⟨hsame.ordinary, (htail hsame.nonempty hother).mpr (hlast hother config' hfind')⟩, others_kept h, ?_⟩
      rintro ⟨envName, path, hholds, rfl | rfl⟩
      · obtain ⟨c, hc, -⟩ | ⟨row, hrow, heq, -⟩ := hholds
        · cases hkey.symm.trans hc
        · exact absurd heq (hnone row hrow).1
      · exact absurd ⟨envName, hholds⟩ hother

/-- A name that is written is read as the same setting exactly where the two ways to look for it cannot differ. -/
theorem agrees_iff {index : Option NameIndex} (hwf : WellFormed s) (hconnected : m.connectionAvailable = true)
    (hdb : pr.managerDb.isSome = true) (hindex : ∀ i, index = some i → i.version ≤ s.version.getD 0)
    (hresolve : resolve pr name scan m s = some t) (hscalar : IsScalar t.dataType value)
    (hupdate : updateConfigByName pr name value scan m s = some o)
    (hscan : ∀ envName, (o.site.redis envName).isSome = true → envName ∈ scan') :
    Agrees pr index name value scan' now' t s o ↔ SameSetting pr name value scan scan' now' m s := by
  obtain ⟨kind, hkind⟩ := Option.isSome_iff_exists.mp hdb
  obtain ⟨hresolved, hknown⟩ := resolve_resolved hwf hdb hresolve
  rw [updateConfigByName, hresolve, Option.map_some] at hupdate
  have hwritten : Written pr t value m s o := by
    rw [← Option.some.inj hupdate]
    exact saves_written hwf hknown hscalar (setConfig_run t value hconnected hkind)
  by_cases hname : name = t.envName
  · obtain ⟨hagrees, hsame⟩ := @agrees_envName pr m s name scan scan' t value now' o index hwf hdb hresolved hknown hwritten hindex hname
    exact iff_of_true hagrees hsame
  · by_cases hpath : t.path = name
    · exact agrees_path hwf hdb hresolved hknown hscalar hwritten hscan hindex hname hpath
    · exact agrees_tail hwf hdb hresolved hknown hwritten hscan hindex hname hpath

end After

/-! Two settings in Redis. -/

def portProcess : Process := ⟨⟨3, 30, 1, 5, 30⟩, some .pool, some .pool, ⟨fun _ => none, fun _ => "", fun _ => none⟩⟩

def portSite : Site where
  now := 0
  redis := fun envName =>
    if envName = "DB_PORT" then some (payloadOf (.int 5432) "int" "db" "db.port" "DB_PORT")
    else if envName = "PORT" then some (payloadOf (.int 80) "int" "port" "port" "PORT") else none
  members := fun _ => []
  version := some 2
  rows := []

theorem portSite_redis {envName : String} {config : Fields} (h : portSite.redis envName = some config) :
    (envName = "DB_PORT" ∧ config = payloadOf (.int 5432) "int" "db" "db.port" "DB_PORT") ∨
      (envName = "PORT" ∧ config = payloadOf (.int 80) "int" "port" "port" "PORT") := by
  unfold portSite at h
  dsimp only at h
  split_ifs at h with hdb hport
  · exact .inl ⟨hdb, (Option.some.inj h).symm⟩
  · exact .inr ⟨hport, (Option.some.inj h).symm⟩

theorem portSite_holds {envName path : String} (h : portSite.Holds envName path) :
    (envName = "DB_PORT" ∧ path = "db.port") ∨ (envName = "PORT" ∧ path = "port") := by
  obtain ⟨config, hconfig, hpath⟩ | ⟨row, hrow, -⟩ := h
  · obtain ⟨hname, rfl⟩ | ⟨hname, rfl⟩ := portSite_redis hconfig
    · exact .inl ⟨hname, hpath.symm⟩
    · exact .inr ⟨hname, hpath.symm⟩
  · exact absurd hrow List.not_mem_nil

theorem portSite_wellFormed : WellFormed portSite where
  payload envName config h := by
    obtain ⟨rfl, rfl⟩ | ⟨rfl, rfl⟩ := portSite_redis h
    · exact ⟨by decide +kernel, by decide, _, _, _, _, by decide, rfl⟩
    · exact ⟨by decide +kernel, by decide, _, _, _, _, by decide, rfl⟩
  row row hrow := absurd hrow List.not_mem_nil
  paths := List.nodup_nil
  distinct h h' := by
    obtain ⟨rfl, rfl⟩ | ⟨rfl, rfl⟩ := portSite_holds h
    · obtain ⟨rfl, rfl⟩ | ⟨rfl, rfl⟩ := portSite_holds h'
      · exact iff_of_true rfl rfl
      · exact iff_of_false (by decide) (by decide)
    · obtain ⟨rfl, rfl⟩ | ⟨rfl, rfl⟩ := portSite_holds h'
      · exact iff_of_false (by decide) (by decide)
      · exact iff_of_true rfl rfl

def portScan : List String := ["DB_PORT", "PORT"]

theorem portSite_scan : ∀ envName, (portSite.redis envName).isSome = true → envName ∈ portScan := by
  intro envName h
  obtain ⟨config, hconfig⟩ := Option.isSome_iff_exists.mp h
  obtain ⟨rfl, -⟩ | ⟨rfl, -⟩ := portSite_redis hconfig
  · exact List.mem_cons_self
  · exact List.mem_cons_of_mem _ List.mem_cons_self

/-- A writing of one of the two settings. -/
def portUpdate (t : Target) : Outcome Bool := run (setConfig portProcess t.path (.int 81) t.dataType t.category t.envName) freshMemory portSite

theorem portUpdate_scan {t : Target} (hname : t.envName ≠ "") (ht : t.envName ∈ portScan) :
    ∀ envName, ((portUpdate t).site.redis envName).isSome = true → envName ∈ portScan := by
  intro envName h
  have hredis := (@setConfig_run portProcess freshMemory portSite t (.int 81) .pool rfl rfl).redis
  rw [portUpdate, hredis, orText, if_neg hname, Function.update_apply] at h
  split at h
  · rename_i heq
    exact heq ▸ ht
  · exact portSite_scan envName h

/-- By its env name a setting is found at once. -/
theorem resolve_PORT : resolve portProcess "PORT" portScan freshMemory portSite = some ⟨"port", "int", "port", "PORT"⟩ := by
  have hredis : portSite.redis "PORT" = some (payloadOf (.int 80) "int" "port" "port" "PORT") := rfl
  rw [resolve, hredis, Option.isSome_some, Bool.true_or, if_pos rfl]
  rfl

/-- The sweep comes to the other setting first. -/
theorem resolve_port : resolve portProcess "port" portScan freshMemory portSite = some ⟨"db.port", "int", "db", "DB_PORT"⟩ := by
  have hown : portSite.ownKey "port" = false := ownKey_of_ordinary (by decide +kernel)
  have hredis : portSite.redis "port" = none := rfl
  have hrow : dbRow portProcess portSite "port" = none := by
    rw [dbRow_eq (by decide)]
    rfl
  have hplain : reserved "DB_PORT" = false := by decide +kernel
  have hfind : (getAllConfigs portScan portSite).find? (takes "port") = some (payloadOf (.int 5432) "int" "db" "db.port" "DB_PORT") := by
    have hlast : lastSegment "db.port" = "port" := by decide +kernel
    have htakes : takes "port" (payloadOf (.int 5432) "int" "db" "db.port" "DB_PORT") = true := by
      rw [takes, textAt_envName, textAt_path, hlast]
      decide
    rw [find_getAllConfigs, portScan, List.filter_cons_of_pos (by rw [hplain]; rfl), List.find?_cons_of_pos]
    · rfl
    · exact htakes
  rw [resolve, hredis, hown, probeDbRow_run _ rfl, hrow]
  simp only [Option.isSome_none, Bool.or_self, Bool.false_eq_true, if_false, hfind]
  rfl

theorem agrees_PORT : Agrees portProcess none "PORT" (.int 81) portScan 0 ⟨"port", "int", "port", "PORT"⟩ portSite
      (portUpdate ⟨"port", "int", "port", "PORT"⟩) ↔
    SameSetting portProcess "PORT" (.int 81) portScan portScan 0 freshMemory portSite :=
  agrees_iff portSite_wellFormed rfl rfl (fun i hi => by cases hi) resolve_PORT rfl (by rw [updateConfigByName, resolve_PORT]; rfl)
    (portUpdate_scan (by decide) (by decide))

/-- The name `port` is a path, and the setting `db.port` is written. -/
theorem other_setting_written : ∃ t o, WellFormed portSite ∧ freshMemory.connectionAvailable = true ∧
    resolve portProcess "port" portScan freshMemory portSite = some t ∧ IsScalar t.dataType (.int 81) ∧
    updateConfigByName portProcess "port" (.int 81) portScan freshMemory portSite = some o ∧
    (∀ envName, (o.site.redis envName).isSome = true → envName ∈ portScan) ∧
    ¬ Agrees portProcess none "port" (.int 81) portScan 0 t portSite o := by
  refine ⟨⟨"db.port", "int", "db", "DB_PORT"⟩, portUpdate ⟨"db.port", "int", "db", "DB_PORT"⟩, portSite_wellFormed, rfl, resolve_port, rfl,
    by rw [updateConfigByName, resolve_port]; rfl, portUpdate_scan (by decide) (by decide), fun h => ?_⟩
  have hholds : portSite.Holds "PORT" "port" := .inl ⟨payloadOf (.int 80) "int" "port" "port" "PORT", rfl, rfl⟩
  exact absurd (h.exact ⟨"PORT", "port", hholds, .inr rfl⟩) (by decide)

end XgenSdk.Config.ByName
