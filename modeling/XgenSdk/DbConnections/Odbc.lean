import XgenSdk.DbConnections.Hosts
import XgenSdk.Lib.Attributes
import XgenSdk.Lib.Checks

/-! The connection strings of Informix and of Tibero, and when they split into what was entered. -/
namespace XgenSdk.DbConnections
open XgenSdk.Py XgenSdk.Checks

/-- `MultiHostNotSupportedError`, `InvalidHostsError`, and what nothing catches. -/
inductive OdbcError where
  | multiHost (message : String)
  | invalidHosts (message : String)
  | uncaught
  deriving DecidableEq, Repr

/-- `json.loads` (`none` where it raises), the texts for which it raises an error that is not caught, and the values
for which `str()` raises. -/
structure Library where
  loads : String → Option Json
  uncaught : String → Bool
  noText : Json → Bool

variable (lib : Library)

/-- `parse_options_dict`. -/
def optionsDict (options : Json) : Except OdbcError (List (String × Json)) :=
  match options with
  | .str s => if s ≠ "" && lib.uncaught s then .error .uncaught else .ok (parseOptionsDict lib.loads options)
  | _ => .ok (parseOptionsDict lib.loads options)

/-- `str(value)`. -/
def textOf : Json → Except OdbcError String
  | .str s => .ok s
  | value => if lib.noText value then .error .uncaught else .ok value.toStr

/-- `str(opts.get(key) or default)`. -/
def optionText (opts : List (String × Json)) (key default : String) : Except OdbcError String :=
  let value := (Json.lookup key opts).getD .null
  if value.truthy then textOf lib value else .ok default

/-- The arguments of both builders. -/
structure OdbcArgs where
  hosts : List (String × Int)
  dbName : String
  username : String
  password : String
  options : Json

/-- `";".join(parts) + ";"`, each part a key and its value. -/
def odbcString (fields : List (String × String)) : String := ";".intercalate (fields.map fun f => part f.1 f.2) ++ ";"

/-! Informix. -/

def informixServer (options : Json) : Except OdbcError String := do
  let opts ← optionsDict lib options
  optionText lib opts "informix_server" ""

def informixFields (a : OdbcArgs) : Except OdbcError (List (String × String)) :=
  match a.hosts with
  | [] => .error .uncaught
  | [(h, p)] => (informixServer lib a.options).map fun server =>
      given "SERVER" server ++ [("DATABASE", a.dbName), ("HOST", h), ("SERVICE", toString p), ("PROTOCOL", "onsoctcp")] ++
        given "UID" a.username ++ given "PWD" a.password
  | _ => .error (.multiHost "Informix 는 multi-host 를 지원하지 않습니다.")

/-- `build_informix_conn_str`. -/
def buildInformixConnStr (a : OdbcArgs) : Except OdbcError String := (informixFields lib a).map odbcString

/-! Tibero. -/

/-- `_safe`. -/
def safe (name value : String) : Except OdbcError String :=
  if value.toList.any fun c => c = ';' || c = '\x7b' || c = '\x7d' then
    .error (.invalidHosts ("Tibero 연결 값에 ';' 또는 중괄호를 쓸 수 없습니다 (" ++ name ++ ")."))
  else .ok value

/-- `if value: parts.append(f"{key}={_safe(name, value)}")`. -/
def givenSafe (key name value : String) : Except OdbcError (List (String × String)) :=
  if value = "" then .ok [] else (safe name value).map fun v => [(key, v)]

/-- `str(opts.get("tibero_driver") or "Tibero").strip() or "Tibero"`. -/
def tiberoDriver (opts : List (String × Json)) : Except OdbcError String :=
  (optionText lib opts "tibero_driver" "Tibero").map fun text => if strip text = "" then "Tibero" else strip text

def tiberoServer (a : OdbcArgs) (driver : String) : Except OdbcError (List (String × String)) :=
  match a.hosts with
  | [] => .error .uncaught
  | (h, p) :: _ => do
    let driver ← safe "tibero_driver" driver
    let host ← safe "db_host" h
    let dbName ← safe "db_name" a.dbName
    return [("DRIVER", "\x7b" ++ driver ++ "\x7d"), ("SERVER", host), ("PORT", toString p), ("DB", dbName)]

def tiberoTarget (a : OdbcArgs) (driver dsn : String) : Except OdbcError (List (String × String)) :=
  if dsn = "" then tiberoServer a driver else (safe "tibero_dsn" dsn).map fun v => [("DSN", v)]

def tiberoFields (a : OdbcArgs) : Except OdbcError (List (String × String)) :=
  if a.hosts.length > 1 then .error (.multiHost "Tibero 는 multi-host 를 지원하지 않습니다.")
  else do
    let opts ← optionsDict lib a.options
    let driver ← tiberoDriver lib opts
    let dsn ← optionText lib opts "tibero_dsn" ""
    let target ← tiberoTarget a driver (strip dsn)
    let user ← givenSafe "UID" "username" a.username
    let password ← givenSafe "PWD" "password" a.password
    return target ++ user ++ password

/-- `build_tibero_odbc_conn_str`. -/
def buildTiberoOdbcConnStr (a : OdbcArgs) : Except OdbcError String := (tiberoFields lib a).map odbcString

/-! What the driver splits. -/

/-- The text split at `;`, each part at its first `=`. -/
def attributes (text : String) : List (String × String) :=
  (Attributes.read ';' '=' text.toList).map fun f => (String.ofList f.1, String.ofList f.2)

theorem odbcString_toList {fields : List (String × String)} (h : fields ≠ []) :
    (odbcString fields).toList = Attributes.render ';' '=' (textFields fields) := by
  have hpart : ∀ f : String × String, (part f.1 f.2).toList = Attributes.renderField '=' (f.1.toList, f.2.toList) := by
    intro f
    rw [part, String.toList_append, String.toList_append, Attributes.renderField, List.append_assoc]
    rfl
  induction fields with
  | nil => exact absurd rfl h
  | cons f fields ih =>
    cases fields with
    | nil =>
      rw [odbcString, List.map_singleton, String.intercalate_singleton, String.toList_append, hpart]
      exact (List.append_nil _).symm
    | cons g fields =>
      have hcons : (odbcString (f :: g :: fields)).toList = (part f.1 f.2).toList ++ ';' :: (odbcString (g :: fields)).toList := by
        rw [odbcString, odbcString, List.map_cons, List.map_cons, String.intercalate_cons_cons, String.toList_append,
          String.toList_append, String.toList_append, String.toList_append]
        simp only [List.append_assoc]
        rfl
      rw [hcons, ih (List.cons_ne_nil g fields), hpart]
      change _ = (Attributes.renderField '=' (f.1.toList, f.2.toList) ++ [';']) ++ Attributes.render ';' '=' (textFields (g :: fields))
      rw [List.append_assoc]
      rfl

/-- Keys without marks: the string splits into the fields, if and only if no value has a semicolon. -/
theorem attributes_odbcString_iff {fields : List (String × String)} (hne : fields ≠ [])
    (hkeys : ∀ f ∈ fields, ';' ∉ f.1.toList ∧ '=' ∉ f.1.toList) :
    attributes (odbcString fields) = fields ↔ ∀ f ∈ fields, ';' ∉ f.2.toList := by
  have htext : ∀ fs : List (String × String), (textFields fs).map (fun f => (String.ofList f.1, String.ofList f.2)) = fs := by
    intro fs
    rw [textFields, List.map_map]
    exact (List.map_congr_left fun f _ => by simp).trans (List.map_id fs)
  have hback : ∀ rs : List (Attributes.Field Char), textFields (rs.map fun f => (String.ofList f.1, String.ofList f.2)) = rs := by
    intro rs
    rw [textFields, List.map_map]
    exact (List.map_congr_left fun f _ => by simp).trans (List.map_id rs)
  have hread : attributes (odbcString fields) = fields ↔
      Attributes.read ';' '=' (Attributes.render ';' '=' (textFields fields)) = textFields fields := by
    rw [attributes, odbcString_toList hne]
    constructor
    · intro h
      rw [← hback (Attributes.read ';' '=' (Attributes.render ';' '=' (textFields fields))), h]
    · intro h
      rw [h, htext]
  rw [hread, Attributes.read_render_iff (by decide)]
  · rw [textFields, List.forall_mem_map]
  · rw [textFields, List.forall_mem_map]
    exact hkeys

/-- Either the builder raises, or its string splits into its fields, each key once. -/
def Splits (build : Except OdbcError String) (fields : Except OdbcError (List (String × String))) : Prop :=
  ∀ text, build = .ok text → ∃ fs, fields = .ok fs ∧ attributes text = fs ∧ (fs.map Prod.fst).Nodup

/-- The keys that the builders write. -/
def odbcKeys : List String :=
  ["SERVER", "DATABASE", "HOST", "SERVICE", "PROTOCOL", "DSN", "DRIVER", "PORT", "DB", "UID", "PWD"]

theorem odbcKeys_plain : ∀ key ∈ odbcKeys, ';' ∉ key.toList ∧ '=' ∉ key.toList := by decide

theorem attributes_odbcString {fs : List (String × String)} {keys : List String} (hne : fs ≠ []) (hkeys : (fs.map Prod.fst).Sublist keys)
    (hknown : ∀ key ∈ keys, key ∈ odbcKeys) : attributes (odbcString fs) = fs ↔ ∀ f ∈ fs, ';' ∉ f.2.toList :=
  attributes_odbcString_iff hne fun f hf => odbcKeys_plain f.1 (hknown f.1 (hkeys.subset (List.mem_map_of_mem hf)))

theorem semicolon_not_mem_int (n : Int) : ';' ∉ (toString n).toList := by
  intro h
  obtain hminus | hdigit := mem_toString_int h
  · exact absurd hminus (by decide)
  · exact absurd hdigit (by decide)

/-! Tibero. -/

theorem safe_ok {name value v : String} (h : safe name value = .ok v) : ';' ∉ v.toList := by
  unfold safe at h
  split at h
  · cases h
  · rename_i hplain
    rw [← Except.ok.inj h]
    intro hmem
    exact hplain (List.any_eq_true.mpr ⟨';', hmem, by decide⟩)

/-- Fields whose keys stand in order among some, with values that have no semicolon. -/
structure Clean (keys : List String) (fs : List (String × String)) : Prop where
  keys : (fs.map Prod.fst).Sublist keys
  values : ∀ f ∈ fs, ';' ∉ f.2.toList

theorem Clean.append {keys keys' : List String} {fs fs' : List (String × String)} (h : Clean keys fs) (h' : Clean keys' fs') :
    Clean (keys ++ keys') (fs ++ fs') where
  keys := by
    rw [List.map_append]
    exact h.keys.append h'.keys
  values f hf := (List.mem_append.mp hf).elim (h.values f) (h'.values f)

theorem givenSafe_clean {key name value : String} {fs : List (String × String)} (h : givenSafe key name value = .ok fs) : Clean [key] fs := by
  unfold givenSafe at h
  split at h
  · rw [← Except.ok.inj h]
    exact ⟨List.nil_sublist _, fun f hf => absurd hf List.not_mem_nil⟩
  · obtain ⟨v, hv, rfl⟩ := map_ok h
    exact ⟨List.Sublist.refl _, List.forall_mem_singleton.mpr (safe_ok hv)⟩

def tiberoServerKeys : List String := ["DRIVER", "SERVER", "PORT", "DB"]

theorem tiberoServer_clean {a : OdbcArgs} {driver : String} {fs : List (String × String)} (h : tiberoServer a driver = .ok fs) :
    fs ≠ [] ∧ Clean tiberoServerKeys fs := by
  unfold tiberoServer at h
  split at h
  · cases h
  · rename_i host port _ _
    obtain ⟨driver', hdriver, h⟩ := bind_ok h
    obtain ⟨host', hhost, h⟩ := bind_ok h
    obtain ⟨db, hdb, h⟩ := bind_ok h
    rw [← Except.ok.inj h]
    refine ⟨List.cons_ne_nil _ _, List.Sublist.refl _, ?_⟩
    have hbraced : ';' ∉ ("\x7b" ++ driver' ++ "\x7d").toList := by
      rw [String.toList_append, String.toList_append]
      simpa using safe_ok hdriver
    simp only [List.forall_mem_cons, List.not_mem_nil, false_implies, implies_true, and_true]
    exact ⟨hbraced, safe_ok hhost, semicolon_not_mem_int port, safe_ok hdb⟩

theorem tiberoFields_clean {lib : Library} {a : OdbcArgs} {fs : List (String × String)} (h : tiberoFields lib a = .ok fs) :
    fs ≠ [] ∧ (Clean (tiberoServerKeys ++ ["UID"] ++ ["PWD"]) fs ∨ Clean (["DSN"] ++ ["UID"] ++ ["PWD"]) fs) := by
  unfold tiberoFields at h
  split at h
  · cases h
  obtain ⟨opts, -, h⟩ := bind_ok h
  obtain ⟨driver, -, h⟩ := bind_ok h
  obtain ⟨dsn, -, h⟩ := bind_ok h
  obtain ⟨target, htarget, h⟩ := bind_ok h
  obtain ⟨user, huser, h⟩ := bind_ok h
  obtain ⟨password, hpassword, h⟩ := bind_ok h
  rw [← Except.ok.inj h]
  unfold tiberoTarget at htarget
  split at htarget
  · obtain ⟨hne, hclean⟩ := tiberoServer_clean htarget
    exact ⟨by simp [hne], .inl ((hclean.append (givenSafe_clean huser)).append (givenSafe_clean hpassword))⟩
  · obtain ⟨v, hv, rfl⟩ := map_ok htarget
    have hclean : Clean ["DSN"] [("DSN", v)] := ⟨List.Sublist.refl _, List.forall_mem_singleton.mpr (safe_ok hv)⟩
    exact ⟨by simp, .inr ((hclean.append (givenSafe_clean huser)).append (givenSafe_clean hpassword))⟩

theorem splits_of_clean {fields : Except OdbcError (List (String × String))} {fs : List (String × String)} {keys : List String}
    (hfields : fields = .ok fs) (hne : fs ≠ []) (hclean : Clean keys fs) (hknown : ∀ key ∈ keys, key ∈ odbcKeys) (hnodup : keys.Nodup) :
    Splits (fields.map odbcString) fields := by
  intro text htext
  obtain ⟨fs', hfs', rfl⟩ := map_ok htext
  obtain rfl : fs' = fs := Except.ok.inj (hfs'.symm.trans hfields)
  exact ⟨fs', hfs', (attributes_odbcString hne hclean.keys hknown).mpr hclean.values, hnodup.sublist hclean.keys⟩

theorem splits_tibero (lib : Library) (a : OdbcArgs) : Splits (buildTiberoOdbcConnStr lib a) (tiberoFields lib a) := by
  intro text htext
  obtain ⟨fs, hfs, -⟩ := map_ok htext
  obtain ⟨hne, hclean | hclean⟩ := tiberoFields_clean hfs
  · exact splits_of_clean hfs hne hclean (by decide) (by decide) text htext
  · exact splits_of_clean hfs hne hclean (by decide) (by decide) text htext

/-! Informix. -/

def informixKeys : List String := ["SERVER", "DATABASE", "HOST", "SERVICE", "PROTOCOL", "UID", "PWD"]

theorem semicolon_given_iff {key value : String} : (∀ f ∈ given key value, ';' ∉ f.2.toList) ↔ ';' ∉ value.toList := by
  unfold given
  split
  · rename_i hempty
    rw [hempty]
    simp
  · exact List.forall_mem_singleton

theorem splits_informix_iff (lib : Library) (h : String) (p : Int) (dbName username password : String) (options : Json) :
    Splits (buildInformixConnStr lib ⟨[(h, p)], dbName, username, password, options⟩)
        (informixFields lib ⟨[(h, p)], dbName, username, password, options⟩) ↔
      ∀ server, informixServer lib options = .ok server →
        ∀ text ∈ [server, dbName, h, username, password], ';' ∉ text.toList := by
  have hvalues : ∀ server, (∀ f ∈ given "SERVER" server ++ [("DATABASE", dbName), ("HOST", h), ("SERVICE", toString p),
      ("PROTOCOL", "onsoctcp")] ++ given "UID" username ++ given "PWD" password, ';' ∉ f.2.toList) ↔
      ∀ text ∈ [server, dbName, h, username, password], ';' ∉ text.toList := by
    intro server
    have hport := semicolon_not_mem_int p
    have hprotocol : ';' ∉ "onsoctcp".toList := by decide
    simp only [List.forall_mem_append, semicolon_given_iff, List.forall_mem_cons, List.not_mem_nil, false_implies, implies_true,
      and_true, hport, hprotocol, not_false_eq_true, and_assoc]
  have hkeys : ∀ server, ((given "SERVER" server ++ [("DATABASE", dbName), ("HOST", h), ("SERVICE", toString p),
      ("PROTOCOL", "onsoctcp")] ++ given "UID" username ++ given "PWD" password).map Prod.fst).Sublist informixKeys := by
    intro server
    rw [List.map_append, List.map_append, List.map_append]
    exact (((given_keys "SERVER" server).append (List.Sublist.refl _)).append (given_keys "UID" username)).append
      (given_keys "PWD" password)
  constructor
  · intro hsplits server hserver
    have hfields : informixFields lib ⟨[(h, p)], dbName, username, password, options⟩ = .ok _ :=
      congrArg (Except.map _) hserver
    obtain ⟨fs, hfs, hattributes, -⟩ := hsplits _ (congrArg (Except.map odbcString) hfields)
    obtain rfl := Except.ok.inj (hfields.symm.trans hfs)
    exact (hvalues server).mp ((attributes_odbcString (by simp) (hkeys server) (by decide)).mp hattributes)
  · intro hplain text htext
    obtain ⟨fs, hfs, -⟩ := map_ok htext
    obtain ⟨server, hserver, rfl⟩ := map_ok hfs
    have hclean := (hvalues server).mpr (hplain server hserver)
    exact splits_of_clean hfs (by simp) ⟨hkeys server, hclean⟩ (by decide) (by decide) text htext

def noLibrary : Library := ⟨fun _ => none, fun _ => false, fun _ => false⟩

end XgenSdk.DbConnections
