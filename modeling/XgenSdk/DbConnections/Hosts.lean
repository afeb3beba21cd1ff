import XgenSdk.Py.Codecs
import XgenSdk.Py.Json
import XgenSdk.Lib.Conninfo
import XgenSdk.Py.Numbers

/-! The hosts and options of a connection to an outside database. -/
namespace XgenSdk.DbConnections
open XgenSdk.Py

def lowerText (s : String) : String := String.ofList (lower s.toList)

def defaultPorts : List (String × Int) := [("postgresql", 5432), ("oracle", 1521), ("mysql", 3306), ("informix", 9089), ("tibero", 8629)]

def defaultPort (dbType : String) : Int := ((defaultPorts.find? fun e => e.1 = lowerText dbType).map Prod.snd).getD 5432

def isPort (p : Int) : Bool := 1 ≤ p && p ≤ 65535

/-- The host of an item of `additional_hosts`; `none` where it has no `strip`. -/
def hostOf : Json → Option String
  | .obj fields =>
    match (Json.lookup "host" fields).getD .null with
    | .str s => some (strip s)
    -- A value that is false stands for the empty text.
    | value => if value.truthy then none else some ""
  | _ => some ""

/-- `int(item.get("port", default_port))`; `none` where it raises. -/
def portOf (dbType : String) : Json → Option Int
  | .obj fields => ((Json.lookup "port" fields).getD (.int (defaultPort dbType))).toInt
  | _ => none

def isHost (host : String) : Bool := host ≠ "" && !host.toList.contains ','

/-- An item of `additional_hosts`; `none` where it raises. -/
def additionalHost (dbType : String) (item : Json) : Option (String × Int) :=
  (hostOf item).bind fun host =>
    if isHost host then (portOf dbType item).bind fun port => if isPort port then some (host, port) else none else none

def primaryHost (dbHost : Option String) : String :=
  let stripped := strip (dbHost.getD "")
  if stripped = "" then "localhost" else stripped

/-- `int(db_port) if db_port else default_port`. -/
def primaryPort (dbPort : Option Int) (dbType : String) : Int :=
  match dbPort with
  | some p => if p = 0 then defaultPort dbType else p
  | none => defaultPort dbType

/-- `parse_hosts`; `none` where it raises. -/
def parseHosts (dbHost : Option String) (dbPort : Option Int) (additionalHosts : List Json) (dbType : String) : Option (List (String × Int)) :=
  if (primaryHost dbHost).toList.contains ',' then none
  else if isPort (primaryPort dbPort dbType) then
    (additionalHosts.mapM (additionalHost dbType)).map fun others => (primaryHost dbHost, primaryPort dbPort dbType) :: others
  else none

/-- A host that `parse_hosts` accepts: it is not empty and has no comma. -/
def HostOk (h : String × Int) : Prop := isHost h.1 = true ∧ isPort h.2 = true

theorem additionalHost_ok {dbType : String} {item : Json} {h : String × Int} (hitem : additionalHost dbType item = some h) : HostOk h := by
  obtain ⟨host, -, hrest⟩ := Option.bind_eq_some_iff.mp hitem
  split_ifs at hrest with hhost
  obtain ⟨port, -, hlast⟩ := Option.bind_eq_some_iff.mp hrest
  split_ifs at hlast with hport
  obtain rfl := Option.some.inj hlast
  exact ⟨hhost, hport⟩

theorem mapM_all {α β : Type} {f : α → Option β} {P : β → Prop} (hf : ∀ {a b}, f a = some b → P b) {as : List α} {bs : List β}
    (h : as.mapM f = some bs) : ∀ b ∈ bs, P b := by
  induction as generalizing bs with
  | nil =>
    obtain rfl := Option.some.inj h
    exact fun b hb => absurd hb List.not_mem_nil
  | cons a as ih =>
    rw [List.mapM_cons] at h
    obtain ⟨c, hc, hrest⟩ := Option.bind_eq_some_iff.mp h
    obtain ⟨cs, hcs, hlast⟩ := Option.bind_eq_some_iff.mp hrest
    obtain rfl := Option.some.inj hlast
    intro b hb
    obtain rfl | hb := List.mem_cons.mp hb
    · exact hf hc
    · exact ih hcs b hb

theorem primaryHost_nonempty (dbHost : Option String) : primaryHost dbHost ≠ "" := by
  unfold primaryHost
  dsimp only
  split
  · decide
  · assumption

theorem parseHosts_ok {dbHost : Option String} {dbPort : Option Int} {additionalHosts : List Json} {dbType : String}
    {hosts : List (String × Int)} (h : parseHosts dbHost dbPort additionalHosts dbType = some hosts) :
    hosts ≠ [] ∧ ∀ h ∈ hosts, HostOk h := by
  unfold parseHosts at h
  split_ifs at h with hcomma hport
  obtain ⟨others, hothers, rfl⟩ := Option.map_eq_some_iff.mp h
  refine ⟨List.cons_ne_nil _ _, fun host hhost => ?_⟩
  obtain rfl | hhost := List.mem_cons.mp hhost
  · have hname := primaryHost_nonempty dbHost
    have hplain : ',' ∉ (primaryHost dbHost).toList := by simpa using hcomma
    exact ⟨by simp [isHost, hname, hplain], hport⟩
  · exact mapM_all additionalHost_ok hothers host hhost

/-! The options. -/

/-- `parse_options_dict`, with `json.loads` (`none` where it raises). -/
def parseOptionsDict (loads : String → Option Json) (options : Json) : List (String × Json) :=
  match options with
  | .obj fields => fields
  | .str s =>
    if s = "" then []
    else match loads s with
      | some (.obj fields) => fields
      | _ => []
  | _ => []

/-- `extract_multi_host_mode`; `none` where the mode has no `lower`. -/
def extractMultiHostMode (loads : String → Option Json) (options : Json) : Option String :=
  match (Json.lookup "multi_host_mode" (parseOptionsDict loads options)).getD .null with
  | .str s =>
    let mode := if s = "" then "failover" else lowerText s
    some (if ["failover", "load_balance"].contains mode then mode else "failover")
  | value => if value.truthy then none else some "failover"

/-- `_is_load_balance`. -/
def isLoadBalance (loads : String → Option Json) (options : Json) : Option Bool :=
  (extractMultiHostMode loads options).map fun mode => mode = "load_balance"

def sessionAttrs : List String := ["any", "read-write", "read-only", "primary", "standby", "prefer-standby"]

/-- `_pg_target_session_attrs`; `none` where the value has no hash. -/
def pgTargetSessionAttrs (loads : String → Option Json) (options : Json) : Option (Option String) :=
  match (Json.lookup "target_session_attrs" (parseOptionsDict loads options)).getD .null with
  | .str s => some (if sessionAttrs.contains s then some s else none)
  | .arr xs => if xs.isEmpty then some none else none
  | .obj fields => if fields.isEmpty then some none else none
  | _ => some none

/-! The connection strings of PostgreSQL, and when libpq reads in them what was entered. -/

/-- `f"{key}={value}"`. -/
def part (key value : String) : String := key ++ "=" ++ value

/-- The arguments of `build_postgres_libpq_dsn`. -/
structure Args where
  hosts : List (String × Int)
  dbName : String
  username : String
  password : String
  sslMode : Option String
  options : Json
  connectTimeout : Option Int

/-- `if value: parts.append(...)`. -/
def given (key value : String) : List (String × String) := if value = "" then [] else [(key, value)]

/-- The keywords that depend on there being several hosts; `none` where the options raise. -/
def multiHostFields (loads : String → Option Json) (a : Args) : Option (List (String × String)) :=
  if a.hosts.length > 1 then
    (isLoadBalance loads a.options).bind fun balance => (pgTargetSessionAttrs loads a.options).map fun attrs =>
      (if balance then [("load_balance_hosts", "random")] else []) ++ attrs.toList.map fun v => ("target_session_attrs", v)
  else some []

def hostList (hosts : List (String × Int)) : String := ",".intercalate (hosts.map Prod.fst)

def portList (hosts : List (String × Int)) : String := ",".intercalate (hosts.map fun h => toString h.2)

/-- The keywords with the values entered for them, in the order of the parts. -/
def dsnFields (loads : String → Option Json) (a : Args) : Option (List (String × String)) :=
  (multiHostFields loads a).map fun multi =>
    [("host", hostList a.hosts), ("port", portList a.hosts)] ++ given "dbname" a.dbName ++ given "user" a.username ++
      given "password" a.password ++ given "sslmode" (a.sslMode.getD "") ++
      (a.connectTimeout.toList.map fun t => ("connect_timeout", toString t)) ++ multi

def joinParts (fields : List (String × String)) : String := " ".intercalate (fields.map fun f => part f.1 f.2)

/-- `build_postgres_libpq_dsn`; `none` where it raises. -/
def buildPostgresLibpqDsn (loads : String → Option Json) (a : Args) : Option String := (dsnFields loads a).map joinParts

/-- The settings that `_build_conninfo` reads. -/
structure PostgresConfig where
  host : String
  port : String
  database : String
  user : String
  password : String

def PostgresConfig.fields (c : PostgresConfig) : List (String × String) :=
  [("host", c.host), ("port", c.port), ("dbname", c.database), ("user", c.user), ("password", c.password)]

/-- `_build_conninfo`. -/
def buildConninfo (c : PostgresConfig) : String :=
  "host=" ++ c.host ++ " port=" ++ c.port ++ " dbname=" ++ c.database ++ " user=" ++ c.user ++ " password=" ++ c.password

/-! What libpq reads. -/

def textFields (fields : List (String × String)) : Conninfo.Fields := fields.map fun f => (f.1.toList, f.2.toList)

/-- libpq reads the string, and each keyword has the value entered for it, if any. -/
def ReadsAs (dsn : String) (fields : List (String × String)) : Prop := Conninfo.Means dsn.toList (textFields fields)

theorem part_toList (key value : String) : (part key value).toList = Conninfo.renderField (key.toList, value.toList) := by
  rw [part, String.toList_append, String.toList_append, Conninfo.renderField, List.append_assoc]
  rfl

theorem joinParts_toList (fields : List (String × String)) : (joinParts fields).toList = Conninfo.render (textFields fields) := by
  induction fields with
  | nil => rfl
  | cons f fields ih =>
    cases fields with
    | nil =>
      rw [joinParts, List.map_singleton, String.intercalate_singleton, part_toList]
      rfl
    | cons g fields =>
      have hcons : (joinParts (f :: g :: fields)).toList = (part f.1 f.2).toList ++ ' ' :: (joinParts (g :: fields)).toList := by
        rw [joinParts, List.map_cons, List.map_cons, String.intercalate_cons_cons, String.toList_append, String.toList_append]
        exact List.append_assoc ..
      rw [hcons, ih, part_toList]
      rfl

theorem buildConninfo_eq (c : PostgresConfig) : buildConninfo c = joinParts c.fields := by
  have hparts : joinParts c.fields = part "host" c.host ++ " " ++ (part "port" c.port ++ " " ++ (part "dbname" c.database ++ " " ++
      (part "user" c.user ++ " " ++ part "password" c.password))) := by
    simp only [joinParts, PostgresConfig.fields, List.map_cons, List.map_nil, String.intercalate_cons_cons, String.intercalate_singleton]
  rw [hparts]
  apply String.toList_inj.mp
  simp [buildConninfo, part, String.toList_append]

/-- A value that needs no quotes: no blank, no backslash, and no quote at its front. -/
def PlainText (s : String) : Prop := Conninfo.Plain s.toList

instance (s : String) : Decidable (PlainText s) := inferInstanceAs (Decidable (Conninfo.Plain s.toList))

theorem plainText_empty : PlainText "" := ⟨fun c hc => absurd hc List.not_mem_nil, by simp⟩

theorem forall_given {key value : String} : (∀ f ∈ given key value, PlainText f.2) ↔ PlainText value := by
  unfold given
  split
  · rename_i hempty
    rw [hempty]
    exact iff_of_true (fun f hf => absurd hf List.not_mem_nil) plainText_empty
  · exact List.forall_mem_singleton

theorem given_nonempty {key value : String} : ∀ f ∈ given key value, f.2 ≠ "" := by
  unfold given
  split
  · exact fun f hf => absurd hf List.not_mem_nil
  · exact List.forall_mem_singleton.mpr (by assumption)

theorem given_keys (key value : String) : ((given key value).map Prod.fst).Sublist [key] := by
  unfold given
  split
  · exact List.nil_sublist _
  · exact List.Sublist.refl _

/-! The values that are made of numbers and of fixed texts. -/

theorem mem_intercalate {sep : String} {parts : List String} {c : Char} (h : c ∈ (sep.intercalate parts).toList) :
    c ∈ sep.toList ∨ ∃ p ∈ parts, c ∈ p.toList := by
  induction parts with
  | nil => simp at h
  | cons p parts ih =>
    cases parts with
    | nil =>
      rw [String.intercalate_singleton] at h
      exact .inr ⟨p, List.mem_cons_self, h⟩
    | cons q parts =>
      rw [String.intercalate_cons_cons, String.toList_append, String.toList_append] at h
      obtain h | h := List.mem_append.mp h
      · obtain h | h := List.mem_append.mp h
        · exact .inr ⟨p, List.mem_cons_self, h⟩
        · exact .inl h
      · obtain h | ⟨r, hr, hc⟩ := ih h
        · exact .inl h
        · exact .inr ⟨r, List.mem_cons_of_mem p hr, hc⟩

theorem intercalate_nonempty {sep p : String} {parts : List String} (h : p ≠ "") : sep.intercalate (p :: parts) ≠ "" := by
  cases parts with
  | nil => rwa [String.intercalate_singleton]
  | cons q parts =>
    rw [String.intercalate_cons_cons]
    intro hempty
    have hparts := congrArg String.toList hempty
    rw [String.toList_append, String.toList_append, String.toList_empty, List.append_eq_nil_iff, List.append_eq_nil_iff] at hparts
    exact h (String.toList_eq_nil_iff.mp hparts.1.1)

/-- The characters of lists of numbers need no quotes. -/
theorem plainText_of_digits {s : String} (h : ∀ c ∈ s.toList, c = ',' ∨ c = '-' ∨ c.isDigit = true) : PlainText s := by
  have hchar : ∀ c ∈ s.toList, Conninfo.isBlank c = false ∧ c ≠ '\\' ∧ c ≠ '\'' := by
    intro c hc
    obtain rfl | rfl | hdigit := h c hc
    · decide
    · decide
    · have hrange := toNat_of_isDigit hdigit
      have hspace : c ≠ ' ' := fun heq => absurd (heq ▸ hdigit) (by decide)
      refine ⟨?_, fun heq => absurd (heq ▸ hdigit) (by decide), fun heq => absurd (heq ▸ hdigit) (by decide)⟩
      simp only [Conninfo.isBlank, Bool.or_eq_false_iff, Bool.and_eq_false_iff, decide_eq_false_iff_not]
      exact ⟨hspace, .inr (by omega)⟩
  refine ⟨fun c hc => ⟨(hchar c hc).1, (hchar c hc).2.1⟩, fun hhead => ?_⟩
  exact (hchar _ (List.mem_of_mem_head? hhead)).2.2 rfl

theorem toString_nonempty (n : Int) : toString n ≠ "" := by
  intro hempty
  have hread := intOfString_toString n
  rw [hempty] at hread
  cases hread

theorem plainText_int (n : Int) : PlainText (toString n) :=
  plainText_of_digits fun _ hc => .inr (mem_toString_int hc)

theorem plainText_portList (hosts : List (String × Int)) : PlainText (portList hosts) := by
  refine plainText_of_digits fun c hc => ?_
  obtain hc | ⟨p, hp, hc⟩ := mem_intercalate hc
  · exact .inl (by simpa using hc)
  · obtain ⟨h, -, rfl⟩ := List.mem_map.mp hp
    exact .inr (mem_toString_int hc)

theorem pgTargetSessionAttrs_mem {loads : String → Option Json} {options : Json} {v : String}
    (h : pgTargetSessionAttrs loads options = some (some v)) : v ∈ sessionAttrs := by
  unfold pgTargetSessionAttrs at h
  split at h
  · split at h
    · rename_i hmem
      obtain rfl := Option.some.inj (Option.some.inj h)
      exact List.contains_iff_mem.mp hmem
    · cases h
  · split at h <;> cases h
  · split at h <;> cases h
  · cases h

/-! The string of `build_postgres_libpq_dsn`. -/

def dsnKeys : List String := ["host", "port", "dbname", "user", "password", "sslmode", "connect_timeout", "load_balance_hosts", "target_session_attrs"]

theorem multiHostFields_ok {loads : String → Option Json} {a : Args} {multi : List (String × String)} (h : multiHostFields loads a = some multi) :
    (multi.map Prod.fst).Sublist ["load_balance_hosts", "target_session_attrs"] ∧ ∀ f ∈ multi, f.2 ≠ "" ∧ PlainText f.2 := by
  unfold multiHostFields at h
  split at h
  · obtain ⟨balance, -, h⟩ := Option.bind_eq_some_iff.mp h
    obtain ⟨attrs, hattrs, rfl⟩ := Option.map_eq_some_iff.mp h
    have hvalue : ∀ v ∈ sessionAttrs, v ≠ "" ∧ PlainText v := by decide
    have hbalance : ∀ f ∈ (if balance then [("load_balance_hosts", "random")] else []), f.2 ≠ "" ∧ PlainText f.2 := by
      cases balance with
      | false => exact fun f hf => absurd hf List.not_mem_nil
      | true => decide
    have hkeys : (((if balance then [("load_balance_hosts", "random")] else []) : List (String × String)).map Prod.fst).Sublist
        ["load_balance_hosts"] := by
      cases balance with
      | false => exact List.nil_sublist _
      | true => exact List.Sublist.refl _
    refine ⟨?_, fun f hf => ?_⟩
    · have hattrsKeys : ((attrs.toList.map fun v => ("target_session_attrs", v)).map Prod.fst).Sublist ["target_session_attrs"] := by
        cases attrs with
        | none => exact List.nil_sublist _
        | some v => exact List.Sublist.refl _
      rw [List.map_append]
      exact hkeys.append hattrsKeys
    · obtain hf | hf := List.mem_append.mp hf
      · exact hbalance f hf
      · obtain ⟨v, hv, rfl⟩ := List.mem_map.mp hf
        obtain rfl := Option.mem_toList.mp hv
        exact hvalue v (pgTargetSessionAttrs_mem hattrs)
  · obtain rfl := Option.some.inj h
    exact ⟨List.nil_sublist _, fun f hf => absurd hf List.not_mem_nil⟩

theorem dsnFields_keys {loads : String → Option Json} {a : Args} {fields : List (String × String)} (h : dsnFields loads a = some fields) :
    (fields.map Prod.fst).Sublist dsnKeys := by
  obtain ⟨multi, hmulti, rfl⟩ := Option.map_eq_some_iff.mp h
  have htimeout : ((a.connectTimeout.toList.map fun t => ("connect_timeout", toString t)).map Prod.fst).Sublist ["connect_timeout"] := by
    cases a.connectTimeout with
    | none => exact List.nil_sublist _
    | some t => exact List.Sublist.refl _
  have hparts : dsnKeys = ["host", "port"] ++ ["dbname"] ++ ["user"] ++ ["password"] ++ ["sslmode"] ++ ["connect_timeout"] ++
      ["load_balance_hosts", "target_session_attrs"] := rfl
  simp only [List.map_append]
  rw [hparts]
  refine List.Sublist.append ?_ (multiHostFields_ok hmulti).1
  refine List.Sublist.append ?_ htimeout
  refine List.Sublist.append ?_ (given_keys _ _)
  refine List.Sublist.append ?_ (given_keys _ _)
  refine List.Sublist.append ?_ (given_keys _ _)
  exact List.Sublist.append (List.Sublist.refl _) (given_keys _ _)

/-- Where no quotes are needed. -/
structure NoQuotes (a : Args) : Prop where
  hosts : PlainText (hostList a.hosts)
  dbName : PlainText a.dbName
  username : PlainText a.username
  password : PlainText a.password
  sslMode : PlainText (a.sslMode.getD "")

theorem dsnFields_plain {loads : String → Option Json} {a : Args} {fields : List (String × String)} (h : dsnFields loads a = some fields) :
    (∀ f ∈ fields, PlainText f.2) ↔ NoQuotes a := by
  obtain ⟨multi, hmulti, rfl⟩ := Option.map_eq_some_iff.mp h
  have htimeout : ∀ f ∈ a.connectTimeout.toList.map fun t => ("connect_timeout", toString t), PlainText f.2 := by
    intro f hf
    obtain ⟨t, -, rfl⟩ := List.mem_map.mp hf
    exact plainText_int t
  have hmultiPlain : ∀ f ∈ multi, PlainText f.2 := fun f hf => ((multiHostFields_ok hmulti).2 f hf).2
  have hhosts : (∀ f ∈ [("host", hostList a.hosts), ("port", portList a.hosts)], PlainText f.2) ↔ PlainText (hostList a.hosts) := by
    rw [List.forall_mem_cons, List.forall_mem_singleton]
    exact and_iff_left (plainText_portList a.hosts)
  rw [List.forall_mem_append, List.forall_mem_append, List.forall_mem_append, List.forall_mem_append, List.forall_mem_append,
    List.forall_mem_append, hhosts, forall_given, forall_given, forall_given, forall_given]
  constructor
  · rintro ⟨⟨⟨⟨⟨⟨hhost, hdb⟩, huser⟩, hpassword⟩, hssl⟩, -⟩, -⟩
    exact ⟨hhost, hdb, huser, hpassword, hssl⟩
  · exact fun hq => ⟨⟨⟨⟨⟨⟨hq.hosts, hq.dbName⟩, hq.username⟩, hq.password⟩, hq.sslMode⟩, htimeout⟩, hmultiPlain⟩

theorem hostList_nonempty {hosts : List (String × Int)} (hne : hosts ≠ []) (h : ∀ h ∈ hosts, HostOk h) : hostList hosts ≠ "" := by
  cases hosts with
  | nil => exact absurd rfl hne
  | cons host hosts =>
    have hname := (h host List.mem_cons_self).1
    simp only [isHost, Bool.and_eq_true, decide_eq_true_eq] at hname
    exact intercalate_nonempty hname.1

theorem portList_nonempty {hosts : List (String × Int)} (hne : hosts ≠ []) : portList hosts ≠ "" := by
  cases hosts with
  | nil => exact absurd rfl hne
  | cons host hosts => exact intercalate_nonempty (toString_nonempty host.2)

theorem dsnFields_nonempty {loads : String → Option Json} {a : Args} {fields : List (String × String)} (h : dsnFields loads a = some fields)
    (hne : a.hosts ≠ []) (hhosts : ∀ h ∈ a.hosts, HostOk h) : ∀ f ∈ fields, f.2 ≠ "" := by
  obtain ⟨multi, hmulti, rfl⟩ := Option.map_eq_some_iff.mp h
  have htimeout : ∀ f ∈ a.connectTimeout.toList.map fun t => ("connect_timeout", toString t), f.2 ≠ "" := by
    intro f hf
    obtain ⟨t, -, rfl⟩ := List.mem_map.mp hf
    exact toString_nonempty t
  have hmultiNonempty : ∀ f ∈ multi, f.2 ≠ "" := fun f hf => ((multiHostFields_ok hmulti).2 f hf).1
  have hfirst : ∀ f ∈ [("host", hostList a.hosts), ("port", portList a.hosts)], f.2 ≠ "" :=
    List.forall_mem_cons.mpr ⟨hostList_nonempty hne hhosts, List.forall_mem_singleton.mpr (portList_nonempty hne)⟩
  rw [List.forall_mem_append, List.forall_mem_append, List.forall_mem_append, List.forall_mem_append, List.forall_mem_append,
    List.forall_mem_append]
  exact ⟨⟨⟨⟨⟨⟨hfirst, given_nonempty⟩, given_nonempty⟩, given_nonempty⟩, given_nonempty⟩, htimeout⟩, hmultiNonempty⟩

/-- A string of known keywords is read back exactly where the values can be read without quotes. -/
theorem readsAs_iff {fields : List (String × String)} (hkeys : (fields.map Prod.fst).Sublist dsnKeys) :
    ReadsAs (joinParts fields) fields ↔ Conninfo.Readable (textFields fields) := by
  have hnodup : (fields.map Prod.fst).Nodup := hkeys.nodup (by decide)
  have hnames : ∀ key ∈ dsnKeys, Conninfo.IsName key.toList := by decide
  rw [ReadsAs, joinParts_toList]
  refine Conninfo.means_render_iff (fun f hf => ?_) ?_
  · obtain ⟨g, hg, rfl⟩ := List.mem_map.mp hf
    exact hnames g.1 (hkeys.subset (List.mem_map_of_mem hg))
  · have hmap : (textFields fields).map Prod.fst = (fields.map Prod.fst).map String.toList := by
      rw [textFields, List.map_map, List.map_map]
      rfl
    rw [hmap]
    exact hnodup.map fun _ _ h => String.toList_inj.mp h

theorem readable_textFields {fields : List (String × String)} (h : ∀ f ∈ fields, f.2 ≠ "") :
    Conninfo.Readable (textFields fields) ↔ ∀ f ∈ fields, PlainText f.2 := by
  rw [Conninfo.readable_iff]
  · exact List.forall_mem_map
  · rw [textFields, List.forall_mem_map]
    exact fun f hf heq => h f hf (String.toList_eq_nil_iff.mp heq)

theorem dsn_reads_iff {loads : String → Option Json} {a : Args} {fields : List (String × String)} (hfields : dsnFields loads a = some fields)
    (hne : a.hosts ≠ []) (hhosts : ∀ h ∈ a.hosts, HostOk h) : ReadsAs (joinParts fields) fields ↔ NoQuotes a := by
  rw [readsAs_iff (dsnFields_keys hfields), readable_textFields (dsnFields_nonempty hfields hne hhosts), dsnFields_plain hfields]

/-- Where `_build_conninfo` needs no quotes. Only the password, which is last, may be empty. -/
structure PostgresConfig.NoQuotes (c : PostgresConfig) : Prop where
  host : PlainText c.host ∧ c.host ≠ ""
  port : PlainText c.port ∧ c.port ≠ ""
  database : PlainText c.database ∧ c.database ≠ ""
  user : PlainText c.user ∧ c.user ≠ ""
  password : PlainText c.password

theorem conninfo_reads_iff (c : PostgresConfig) : ReadsAs (buildConninfo c) c.fields ↔ c.NoQuotes := by
  have hkeys : (c.fields.map Prod.fst).Sublist dsnKeys := List.sublist_append_left ["host", "port", "dbname", "user", "password"]
    ["sslmode", "connect_timeout", "load_balance_hosts", "target_session_attrs"]
  have hne : ∀ {s : String}, s.toList ≠ [] ↔ s ≠ "" := String.toList_eq_nil_iff.not
  rw [buildConninfo_eq, readsAs_iff hkeys]
  constructor
  · rintro ⟨hhost, hhost', hport, hport', hdb, hdb', huser, huser', hpassword⟩
    exact ⟨⟨hhost, hne.mp hhost'⟩, ⟨hport, hne.mp hport'⟩, ⟨hdb, hne.mp hdb'⟩, ⟨huser, hne.mp huser'⟩, hpassword⟩
  · exact fun h => ⟨h.host.1, hne.mpr h.host.2, h.port.1, hne.mpr h.port.2, h.database.1, hne.mpr h.database.2, h.user.1,
      hne.mpr h.user.2, h.password⟩

def redirected : Args := ⟨[("db", 5432)], "app", "admin", "secret host=elsewhere", none, .null, none⟩

def redirectedFields : List (String × String) :=
  [("host", "db"), ("port", "5432"), ("dbname", "app"), ("user", "admin"), ("password", "secret host=elsewhere")]

def plainArgs : Args := ⟨[("db", 5432)], "app", "admin", "secret", none, .null, none⟩

end XgenSdk.DbConnections
