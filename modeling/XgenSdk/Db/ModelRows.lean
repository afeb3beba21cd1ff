import XgenSdk.Db.Records
import XgenSdk.Lib.Checks
import XgenSdk.Lib.Dict

/-! `BaseModel`: an instance as a row of its table, and a row as an instance. -/
namespace XgenSdk.BaseModel
open XgenSdk.AppDb (DbType)
open XgenSdk.Records (commaList mark)
open XgenSdk.Py Checks
variable {D : Type}

inductive Raised where
  | valueError
  | recursionError
  deriving DecidableEq, Repr

/-- `json.dumps` and `json.loads`. -/
structure JsonModule where
  dumps : Json → Except Raised String
  loads : String → Except Raised Json

/-- `datetime.isoformat`, and `datetime.fromisoformat` in the time zone of the models,
which is `none` where it raises. -/
structure Clock (D : Type) where
  isoformat : D → String
  fromIsoformat : String → Option D

inductive Value (D : Type) where
  | json (v : Json)
  | datetime (t : D)

abbrev Attributes (D : Type) := Dict String (Value D)

/-- A model class: the names that `hasattr` finds without an instance, what its `__init__`
sets with which defaults, its schema, `_text_columns_cache` as the class or a parent
has filled it, and the order in which a set of names is iterated. -/
structure ModelClass (D : Type) where
  attributes : List String
  fields : List (String × Value D)
  schema : Dict String String
  textColumnsCache : Option {names : List String // names.Nodup}
  iterated : List String → List String
  perm : ∀ names, (iterated names).Perm names

/-! To the row. -/

/-- What `_to_db_dict` makes of one value. -/
def stored (py : JsonModule) (clock : Clock D) : Value D → Except Raised (Value D)
  | .datetime t => .ok (.json (.str (clock.isoformat t)))
  | .json (.arr xs) => if xs.isEmpty then .ok (.json .null) else (py.dumps (.arr xs)).map fun s => .json (.str s)
  | .json (.obj fields) => if fields.isEmpty then .ok (.json .null) else (py.dumps (.obj fields)).map fun s => .json (.str s)
  | v => .ok v

def toDbDict (py : JsonModule) (clock : Clock D) (x : Attributes D) : Except Raised (Attributes D) :=
  x.entries.foldlM (fun row e => do
    let v ← stored py clock e.2
    .ok (row.set e.1 v)) Dict.empty

def baseColumns : List String := ["id", "created_at", "updated_at"]

/-- Without the columns that the database fills. -/
def insertData (row : Attributes D) : Attributes D := ((row.erase "id").erase "created_at").erase "updated_at"

def insertText (db : DbType) (tableName : String) (columns : List String) : String :=
  "INSERT INTO " ++ tableName ++ " (" ++ commaList columns ++ ")\n        VALUES (" ++
    commaList (columns.map fun _ => mark db) ++ ")"

def getInsertQuery (py : JsonModule) (clock : Clock D) (db : DbType) (tableName : String) (x : Attributes D) :
    Except Raised (String × List (Value D)) := do
  let row ← toDbDict py clock x
  let data := insertData row
  .ok (insertText db tableName (data.entries.map Prod.fst), data.values)

/-! From the row. -/

/-- `v.strip().upper().startswith('TEXT')`. -/
def isTextColumn (upper : String → String) (columnDef : String) : Bool := "TEXT".toList.isPrefixOf (upper (strip columnDef)).toList

/-- `_get_text_columns`, in the order of its iteration. -/
def ModelClass.textColumns (upper : String → String) (cls : ModelClass D) : List String :=
  match cls.textColumnsCache with
  | some names => names.1
  | none => cls.iterated ((cls.schema.entries.filter fun e => isTextColumn upper e.2).map Prod.fst)

/-- A time stamp that is a text is read; `none` where that raises. -/
def readTime (clock : Clock D) (data : Attributes D) (field : String) : Option (Attributes D) :=
  match data.get field with
  | some (.json (.str s)) => (clock.fromIsoformat s).map fun t => data.set field (.datetime t)
  | _ => some data

/-- `val.lstrip()[0:1] in ('{', '[')`. -/
def looksLikeJson (s : String) : Bool :=
  match (s.toList.dropWhile isSpace).head? with
  | some c => c = '\x7b' || c = '['
  | none => false

/-- The loop over the text columns; an exception other than a `ValueError` ends it. -/
def decode (py : JsonModule) : List String → Attributes D → Attributes D
  | [], data => data
  | k :: columns, data =>
    match data.get k with
    | some (.json (.str s)) =>
      if looksLikeJson s then
        match py.loads s with
        | .ok v => decode py columns (data.set k (.json v))
        | .error .valueError => decode py columns data
        | .error .recursionError => data
      else decode py columns data
    | _ => decode py columns data

/-- `cls(**kwargs)`. -/
def ModelClass.construct (cls : ModelClass D) (kwargs : Attributes D) : Attributes D :=
  let base := baseColumns.foldl (fun d k => d.set k ((kwargs.get k).getD (.json .null))) Dict.empty
  let rest := kwargs.entries.foldl (fun d e => if e.1 ∈ cls.attributes ∨ (d.get e.1).isSome then d else d.set e.1 e.2) base
  cls.fields.foldl (fun d f => d.set f.1 ((kwargs.get f.1).getD f.2)) rest

def ModelClass.fromDict (py : JsonModule) (clock : Clock D) (upper : String → String) (cls : ModelClass D) (data : Attributes D) :
    Option (Attributes D) :=
  (readTime clock data "created_at").bind fun data => (readTime clock data "updated_at").bind fun data =>
    some (cls.construct (decode py (cls.textColumns upper) data))

/-! Instances and their rows. -/

mutual

/-- No key twice in any dict of the value. -/
def distinct : Json → Bool
  | .arr xs => allDistinct xs
  | .obj fields => decide (fields.map Prod.fst).Nodup && fieldsDistinct fields
  | _ => true

def allDistinct : List Json → Bool
  | [] => true
  | x :: xs => distinct x && allDistinct xs

def fieldsDistinct : List (String × Json) → Bool
  | [] => true
  | f :: fields => distinct f.2 && fieldsDistinct fields

end

/-- What the documentation of `json` says of the two functions. -/
structure JsonModule.Lawful (py : JsonModule) : Prop where
  loads_dumps : ∀ v s, distinct v = true → py.dumps v = .ok s → py.loads s = .ok v
  list_text : ∀ xs s, py.dumps (.arr xs) = .ok s → s.toList.head? = some '['
  dict_text : ∀ fields s, py.dumps (.obj fields) = .ok s → s.toList.head? = some '\x7b'
  container : ∀ s v, looksLikeJson s = true → py.loads s = .ok v → (∃ xs, v = .arr xs) ∨ ∃ fields, v = .obj fields

/-- The attributes of an instance are what its constructor sets, with JSON values. -/
structure ModelClass.Fits (cls : ModelClass D) (x : Attributes D) : Prop where
  named : ∀ k, x.get k ≠ none → k ∈ baseColumns ∨ k ∈ cls.fields.map Prod.fst ∨ k ∉ cls.attributes
  values : ∀ k v, x.get k = some v → ∃ j, v = .json j ∧ distinct j = true

/-- A row that is written for an instance. -/
def Written (py : JsonModule) (clock : Clock D) (x row : Attributes D) : Prop :=
  ∃ full, toDbDict py clock x = .ok full ∧ (row = full ∨ row = insertData full)

def timeColumns : List String := ["created_at", "updated_at"]

/-- The text at `k` makes `json.loads` raise something else than a `ValueError`. -/
def aborts (py : JsonModule) (row : Attributes D) (k : String) : Bool :=
  match row.get k with
  | some (.json (.str s)) => looksLikeJson s && match py.loads s with
    | .error .recursionError => true
    | _ => false
  | _ => false

/-- The text columns that the loop of `from_dict` gets to. -/
def reached (py : JsonModule) (row : Attributes D) (columns : List String) : List String :=
  columns.takeWhile fun k => !aborts py row k

/-- What the loop makes of the value of a column. -/
def readBack (py : JsonModule) : Value D → Value D
  | .json (.str s) =>
    if looksLikeJson s then match py.loads s with
      | .ok v => .json v
      | .error _ => .json (.str s)
    else .json (.str s)
  | v => v

/-- A value of an instance that comes back from the column `k` of the row. -/
def Survives (py : JsonModule) (columns : List String) (row : Attributes D) (k : String) : Json → Prop
  | .str s => k ∉ timeColumns ∧ ¬ (k ∈ reached py row columns ∧ looksLikeJson s = true ∧ ∃ v, py.loads s = .ok v)
  | .arr xs => xs ≠ [] ∧ k ∉ timeColumns ∧ k ∈ reached py row columns
  | .obj fields => fields ≠ [] ∧ k ∉ timeColumns ∧ k ∈ reached py row columns
  | _ => True

/-! The loop. -/

section Decode
variable {py : JsonModule} {row row' : Attributes D} {columns : List String} {c k : String}

theorem aborts_congr (h : row.get k = row'.get k) : aborts py row k = aborts py row' k := by
  unfold aborts
  rw [h]

theorem reached_congr (h : ∀ k ∈ columns, row.get k = row'.get k) : reached py row columns = reached py row' columns := by
  unfold reached
  induction columns with
  | nil => rfl
  | cons c columns ih =>
    rw [List.takeWhile_cons, List.takeWhile_cons, aborts_congr (h c List.mem_cons_self),
      ih fun k hk => h k (List.mem_cons_of_mem c hk)]

theorem decode_aborts (columns : List String) (h : aborts py row c = true) : decode py (c :: columns) row = row := by
  unfold aborts at h
  rw [decode]
  split at h
  · rename_i s hs
    rw [Bool.and_eq_true] at h
    obtain ⟨hlooks, hraised⟩ := h
    split at hraised
    · rename_i hloads
      rw [if_pos hlooks, hloads]
    · cases hraised
  · cases h

/-- The loop goes on with one column read. -/
theorem decode_reads (columns : List String) (h : aborts py row c = false) : ∃ row', decode py (c :: columns) row = decode py columns row' ∧
    (∀ k, k ≠ c → row'.get k = row.get k) ∧ row'.get c = (row.get c).map (readBack py) := by
  cases hv : row.get c with
  | none => exact ⟨row, by rw [decode, hv], fun _ _ => rfl, hv⟩
  | some v =>
    rcases v with (_ | _ | _ | _ | s | _ | _) | t
    case json.str =>
      cases hlooks : looksLikeJson s with
      | false =>
        refine ⟨row, ?_, fun _ _ => rfl, ?_⟩
        · rw [decode, hv]
          dsimp only
          rw [hlooks, if_neg Bool.false_ne_true]
        · rw [hv, Option.map_some, readBack, hlooks, if_neg Bool.false_ne_true]
      | true =>
        cases hloads : py.loads s with
        | ok v =>
          refine ⟨row.set c (.json v), ?_, ?_, ?_⟩
          · rw [decode, hv]
            dsimp only
            rw [hlooks, if_pos rfl, hloads]
          · intro k hk
            rw [Dict.get_set, if_neg (Ne.symm hk)]
          · rw [Dict.get_set, if_pos rfl, Option.map_some, readBack, hlooks, if_pos rfl, hloads]
        | error e =>
          cases e with
          | valueError =>
            refine ⟨row, ?_, fun _ _ => rfl, ?_⟩
            · rw [decode, hv]
              dsimp only
              rw [hlooks, if_pos rfl, hloads]
            · rw [hv, Option.map_some, readBack, hlooks, if_pos rfl, hloads]
          | recursionError =>
            unfold aborts at h
            rw [hv] at h
            dsimp only at h
            rw [hlooks, hloads] at h
            cases h
    all_goals exact ⟨row, by rw [decode, hv], fun _ _ => rfl, by rw [hv]; rfl⟩

/-- Every column that the loop gets to is read, and no other. -/
theorem decode_get (h : columns.Nodup) (k : String) :
    (decode py columns row).get k = if k ∈ reached py row columns then (row.get k).map (readBack py) else row.get k := by
  induction columns generalizing row with
  | nil => rfl
  | cons c columns ih =>
    obtain ⟨hc, hcolumns⟩ := List.nodup_cons.mp h
    cases habort : aborts py row c with
    | true =>
      rw [decode_aborts columns habort, reached, List.takeWhile_cons_of_neg (by rw [habort]; decide), if_neg List.not_mem_nil]
    | false =>
      obtain ⟨row', hdecode, hother, hread⟩ := decode_reads columns habort
      have hreached : reached py row (c :: columns) = c :: reached py row' columns := by
        rw [reached, List.takeWhile_cons_of_pos (by rw [habort]; rfl)]
        exact congrArg _ (reached_congr fun k hk => (hother k fun hkc => hc (hkc ▸ hk)).symm)
      rw [hdecode, ih hcolumns, hreached]
      by_cases hk : k = c
      · subst hk
        have hnot : k ∉ reached py row' columns := fun hmem => hc ((List.takeWhile_sublist _).subset hmem)
        rw [if_neg hnot, if_pos List.mem_cons_self, hread]
      · simp only [List.mem_cons, hk, false_or, hother k hk]

end Decode

/-! The row of an instance, and the instance of a row. -/

section Row
variable {py : JsonModule} {clock : Clock D} {x row : Attributes D} {k : String} {v : Value D}

theorem foldlM_stored {es : List (String × Value D)} (hnodup : (es.map Prod.fst).Nodup) {d : Attributes D}
    (h : es.foldlM (fun row e => do
      let v ← stored py clock e.2
      .ok (row.set e.1 v)) d = .ok row) :
    (k ∉ es.map Prod.fst → row.get k = d.get k) ∧ ∀ v, (k, v) ∈ es → ∃ r, stored py clock v = .ok r ∧ row.get k = some r := by
  induction es generalizing d with
  | nil =>
    cases h
    exact ⟨fun _ => rfl, fun v hv => absurd hv List.not_mem_nil⟩
  | cons e es ih =>
    obtain ⟨he, hes⟩ := List.nodup_cons.mp hnodup
    rw [List.foldlM_cons] at h
    obtain ⟨d', hd', h⟩ := bind_ok h
    obtain ⟨r, hr, hd'⟩ := bind_ok hd'
    cases hd'
    obtain ⟨hout, hin⟩ := ih hes h
    constructor
    · intro hk
      rw [List.map_cons, List.mem_cons, not_or] at hk
      rw [hout hk.2, Dict.get_set, if_neg (Ne.symm hk.1)]
    · intro v hv
      obtain rfl | hv := List.mem_cons.mp hv
      · exact ⟨r, hr, by rw [hout he, Dict.get_set, if_pos rfl]⟩
      · exact hin v hv

theorem toDbDict_get (h : toDbDict py clock x = .ok row) (k : String) :
    (x.get k = none → row.get k = none) ∧ ∀ v, x.get k = some v → ∃ r, stored py clock v = .ok r ∧ row.get k = some r := by
  obtain ⟨hout, hin⟩ := foldlM_stored (k := k) x.nodup h
  constructor
  · intro hk
    refine (hout fun hmem => ?_).trans (Dict.get_empty k)
    obtain ⟨e, he, hke⟩ := List.mem_map.mp hmem
    exact x.get_eq_none_iff.mp hk e he hke
  · exact fun v hv => hin v (x.mem_entries_iff.mpr hv)

theorem insertData_get (h : (insertData row).get k = some v) : row.get k = some v := by
  rw [insertData, Dict.get_erase, Dict.get_erase, Dict.get_erase] at h
  split at h
  · cases h
  · split at h
    · cases h
    · split at h
      · cases h
      · exact h

/-- A written row has the stored values of some of the attributes. -/
theorem Written.get (h : Written py clock x row) {r : Value D} (hr : row.get k = some r) :
    ∃ v, x.get k = some v ∧ stored py clock v = .ok r := by
  obtain ⟨full, hfull, hrow⟩ := h
  have hget : full.get k = some r := by
    obtain rfl | rfl := hrow
    · exact hr
    · exact insertData_get hr
  obtain ⟨hnone, hsome⟩ := toDbDict_get hfull k
  cases hv : x.get k with
  | none =>
    rw [hnone hv] at hget
    cases hget
  | some v =>
    obtain ⟨r', hstored, hr'⟩ := hsome v hv
    rw [hget] at hr'
    cases hr'
    exact ⟨v, rfl, hstored⟩

/-- The constructor sets what it is given. -/
theorem construct_get {cls : ModelClass D} {data : Attributes D}
    (hk : k ∈ baseColumns ∨ k ∈ cls.fields.map Prod.fst ∨ k ∉ cls.attributes) (hv : data.get k = some v) :
    (cls.construct data).get k = some v := by
  have hfields : ∀ (fs : List (String × Value D)) (d : Attributes D), k ∈ fs.map Prod.fst ∨ d.get k = some v →
      (fs.foldl (fun d f => d.set f.1 ((data.get f.1).getD f.2)) d).get k = some v := by
    intro fs
    induction fs with
    | nil => exact fun d h => h.elim (fun hmem => absurd hmem List.not_mem_nil) id
    | cons f fs ih =>
      intro d h
      rw [List.foldl_cons]
      refine ih _ ?_
      rw [Dict.get_set]
      by_cases hf : f.1 = k
      · rw [if_pos hf, hf, hv]
        exact .inr rfl
      · rw [if_neg hf]
        rw [List.map_cons, List.mem_cons] at h
        exact h.imp_left fun h => h.resolve_left (Ne.symm hf)
  have hrest : ∀ (es : List (String × Value D)) (d : Attributes D), (∀ e ∈ es, e.1 = k → e.2 = v) →
      d.get k = some v ∨ d.get k = none ∧ (k, v) ∈ es ∧ k ∉ cls.attributes →
      (es.foldl (fun d e => if e.1 ∈ cls.attributes ∨ (d.get e.1).isSome then d else d.set e.1 e.2) d).get k = some v := by
    intro es
    induction es with
    | nil => exact fun d _ h => h.elim id fun h => absurd h.2.1 List.not_mem_nil
    | cons e es ih =>
      intro d hsame h
      rw [List.foldl_cons]
      refine ih _ (fun e' he' => hsame e' (List.mem_cons_of_mem e he')) ?_
      by_cases he : e.1 = k
      · obtain h | ⟨hnone, -, hfree⟩ := h
        · rw [if_pos (.inr (by rw [he, h]; rfl))]
          exact .inl h
        · rw [if_neg (by rw [he, hnone]; simp [hfree]), Dict.get_set, if_pos he, hsame e List.mem_cons_self he]
          exact .inl rfl
      · have hget : (if e.1 ∈ cls.attributes ∨ (d.get e.1).isSome then d else d.set e.1 e.2).get k = d.get k := by
          split
          · rfl
          · rw [Dict.get_set, if_neg he]
        rw [hget]
        refine h.imp_right fun h => ⟨h.1, (List.mem_cons.mp h.2.1).resolve_left fun heq => he ?_, h.2.2⟩
        rw [← heq]
  have hbase : ∀ (ks : List String) (d : Attributes D),
      (k ∈ ks ∨ d.get k = some v → (ks.foldl (fun d k => d.set k ((data.get k).getD (.json .null))) d).get k = some v) ∧
      (k ∉ ks ∧ d.get k = none → (ks.foldl (fun d k => d.set k ((data.get k).getD (.json .null))) d).get k = none) := by
    intro ks
    induction ks with
    | nil => exact fun d => ⟨fun h => h.elim (fun hmem => absurd hmem List.not_mem_nil) id, And.right⟩
    | cons c ks ih =>
      intro d
      rw [List.foldl_cons]
      constructor
      · intro h
        refine (ih _).1 ?_
        rw [Dict.get_set]
        by_cases hc : c = k
        · rw [if_pos hc, hc, hv]
          exact .inr rfl
        · rw [if_neg hc]
          exact h.imp_left fun h => (List.mem_cons.mp h).resolve_left (Ne.symm hc)
      · rintro ⟨hks, hnone⟩
        rw [List.mem_cons, not_or] at hks
        refine (ih _).2 ⟨hks.2, ?_⟩
        rw [Dict.get_set, if_neg (Ne.symm hks.1)]
        exact hnone
  refine hfields _ _ ?_
  by_cases hfield : k ∈ cls.fields.map Prod.fst
  · exact .inl hfield
  · refine .inr (hrest _ _ (fun e he hek => ?_) ?_)
    · have hdata := data.mem_entries_iff.mp he
      rw [hek, hv] at hdata
      exact (Option.some.inj hdata).symm
    · by_cases hb : k ∈ baseColumns
      · exact .inl ((hbase baseColumns Dict.empty).1 (.inl hb))
      · refine .inr ⟨(hbase baseColumns Dict.empty).2 ⟨hb, Dict.get_empty k⟩, data.mem_entries_iff.mpr hv, ?_⟩
        exact hk.elim (fun h => absurd h hb) fun h => h.elim (fun h => absurd h hfield) id

/-- What is stored of a value with dicts or lists in it is a text that looks like JSON. -/
theorem readBack_container (hpy : py.Lawful) {j : Json} (hj : distinct j = true) {s : String} (hdumps : py.dumps j = .ok s)
    (hhead : s.toList.head? = some '[' ∨ s.toList.head? = some '\x7b') : readBack py (.json (.str s) : Value D) = .json j := by
  have hlooks : looksLikeJson s = true := by
    unfold looksLikeJson
    cases hs : s.toList with
    | nil =>
      rw [hs] at hhead
      exact hhead.elim (fun h => by cases h) fun h => by cases h
    | cons c rest =>
      rw [hs, List.head?_cons, Option.some.injEq, Option.some.injEq] at hhead
      obtain rfl | rfl := hhead
      · rfl
      · rfl
  rw [readBack, if_pos hlooks, hpy.loads_dumps j s hj hdumps]

theorem container_iff_read (hpy : py.Lawful) {columns : List String} {j : Json} (hj : distinct j = true) {r : Value D} {empty : Bool}
    (hstored : (if empty then .ok (.json .null) else (py.dumps j).map fun s => .json (.str s)) = (.ok r : Except Raised (Value D)))
    (hhead : ∀ s, py.dumps j = .ok s → s.toList.head? = some '[' ∨ s.toList.head? = some '\x7b')
    (hnull : j ≠ .null) (hstr : ∀ s, j ≠ .str s) (htime : k ∈ timeColumns → ∀ s, r ≠ .json (.str s)) :
    (empty = false ∧ k ∉ timeColumns ∧ k ∈ reached py row columns) ↔
      (if k ∈ reached py row columns then readBack py r else r) = .json j := by
  cases empty with
  | true =>
    cases hstored
    refine iff_of_false (fun h => Bool.noConfusion h.1) fun h => hnull ?_
    have hread : readBack py (.json .null : Value D) = .json .null := rfl
    rw [hread, ite_self] at h
    cases h
    rfl
  | false =>
    rw [if_neg Bool.false_ne_true] at hstored
    cases hdumps : py.dumps j with
    | error e =>
      rw [hdumps] at hstored
      cases hstored
    | ok s =>
      rw [hdumps] at hstored
      cases hstored
      have hread : readBack py (.json (.str s) : Value D) = .json j := readBack_container hpy hj hdumps (hhead s hdumps)
      by_cases hmem : k ∈ reached py row columns
      · rw [if_pos hmem, hread]
        exact iff_of_true ⟨rfl, fun hk => htime hk s rfl, hmem⟩ rfl
      · rw [if_neg hmem]
        refine iff_of_false (fun h => hmem h.2.2) fun h => hstr s ?_
        cases h
        rfl

/-- A value survives exactly if what the loop makes of its column is the value. -/
theorem survives_iff_read (hpy : py.Lawful) {columns : List String} {j : Json} (hj : distinct j = true) {r : Value D}
    (hstored : stored py clock (.json j) = .ok r) (htime : k ∈ timeColumns → ∀ s, r ≠ .json (.str s)) :
    Survives py columns row k j ↔ (if k ∈ reached py row columns then readBack py r else r) = .json j := by
  have hscalar : stored py clock (.json j) = .ok (.json j) → readBack py (.json j : Value D) = .json j →
      (True ↔ (if k ∈ reached py row columns then readBack py r else r) = .json j) := by
    intro hsame hread
    rw [hstored] at hsame
    cases hsame
    rw [hread, ite_self]
    exact iff_of_true trivial rfl
  cases j with
  | null => exact hscalar rfl rfl
  | bool b => exact hscalar rfl rfl
  | int n => exact hscalar rfl rfl
  | float f => exact hscalar rfl rfl
  | str s =>
    cases hstored
    have hk : k ∉ timeColumns := fun hk => htime hk s rfl
    rw [Survives, and_iff_right hk]
    by_cases hmem : k ∈ reached py row columns
    · rw [if_pos hmem, and_iff_right hmem, readBack]
      cases hlooks : looksLikeJson s with
      | false => exact iff_of_true (fun h => Bool.noConfusion h.1) rfl
      | true =>
        rw [if_pos rfl, and_iff_right rfl]
        cases hloads : py.loads s with
        | error e =>
          refine iff_of_true ?_ rfl
          rintro ⟨v, hv⟩
          cases hv
        | ok v =>
          refine iff_of_false (not_not_intro ⟨v, rfl⟩) fun h => ?_
          obtain ⟨xs, rfl⟩ | ⟨fields, rfl⟩ := hpy.container s v hlooks hloads
          · cases h
          · cases h
    · rw [if_neg hmem]
      exact iff_of_true (fun h => hmem h.1) rfl
  | arr xs =>
    refine Iff.trans ?_ (container_iff_read hpy hj hstored (fun s hs => .inl (hpy.list_text xs s hs)) Json.noConfusion
      (fun s => Json.noConfusion) htime)
    rw [Survives, Ne, ← List.isEmpty_iff, Bool.not_eq_true]
  | obj fields =>
    refine Iff.trans ?_ (container_iff_read hpy hj hstored (fun s hs => .inr (hpy.dict_text fields s hs)) Json.noConfusion
      (fun s => Json.noConfusion) htime)
    rw [Survives, Ne, ← List.isEmpty_iff, Bool.not_eq_true]

theorem nodup_textColumns (cls : ModelClass D) (upper : String → String) : (cls.textColumns upper).Nodup := by
  unfold ModelClass.textColumns
  cases cls.textColumnsCache with
  | some names => exact names.2
  | none => exact (cls.perm _).nodup_iff.mpr (cls.schema.nodup.sublist (List.filter_sublist.map Prod.fst))

/-! A time stamp that is a text. -/

theorem readTime_text {data data' : Attributes D} {field s : String} (hs : data.get field = some (.json (.str s)))
    (h : readTime clock data field = some data') :
    (∃ t, data'.get field = some (.datetime t)) ∧ ∀ k, k ≠ field → data'.get k = data.get k := by
  unfold readTime at h
  rw [hs] at h
  obtain ⟨t, -, rfl⟩ := Option.map_eq_some_iff.mp h
  exact ⟨⟨t, by rw [Dict.get_set, if_pos rfl]⟩, fun k hk => by rw [Dict.get_set, if_neg (Ne.symm hk)]⟩

theorem readTime_other {data : Attributes D} {field : String} (h : ∀ s, data.get field ≠ some (.json (.str s))) :
    readTime clock data field = some data := by
  unfold readTime
  split
  · rename_i s hs
    exact absurd hs (h s)
  · rfl

theorem readTime_get {data data' : Attributes D} {field : String} (h : readTime clock data field = some data') :
    ∀ k, k ≠ field → data'.get k = data.get k := by
  by_cases htext : ∃ s, data.get field = some (.json (.str s))
  · obtain ⟨s, hs⟩ := htext
    exact (readTime_text hs h).2
  · rw [readTime_other fun s hs => htext ⟨s, hs⟩] at h
    cases h
    exact fun _ _ => rfl

/-- It comes back as a datetime. -/
theorem fromDict_time {cls : ModelClass D} {upper : String → String} {y : Attributes D} (h : cls.fromDict py clock upper row = some y)
    {field s : String} (hfield : field ∈ timeColumns) (hs : row.get field = some (.json (.str s))) : ∃ t, y.get field = some (.datetime t) := by
  obtain ⟨row₁, h₁, h⟩ := Option.bind_eq_some_iff.mp h
  obtain ⟨row₂, h₂, h⟩ := Option.bind_eq_some_iff.mp h
  cases h
  have hread : ∃ t, row₂.get field = some (.datetime t) := by
    obtain rfl | hfield := List.mem_cons.mp hfield
    · obtain ⟨⟨t, ht⟩, -⟩ := readTime_text hs h₁
      exact ⟨t, by rw [readTime_get h₂ _ (by decide), ht]⟩
    · obtain rfl := List.mem_singleton.mp hfield
      have hs₁ : row₁.get "updated_at" = some (.json (.str s)) := by rw [readTime_get h₁ _ (by decide), hs]
      exact (readTime_text hs₁ h₂).1
  obtain ⟨t, ht⟩ := hread
  have hbase : field ∈ baseColumns := List.mem_cons_of_mem _ hfield
  refine ⟨t, construct_get (.inl hbase) ?_⟩
  rw [decode_get (nodup_textColumns cls upper), ht, Option.map_some]
  exact ite_self _

theorem fromDict_plain {cls : ModelClass D} {upper : String → String} (h : ∀ field ∈ timeColumns, ∀ s, row.get field ≠ some (.json (.str s))) :
    cls.fromDict py clock upper row = some (cls.construct (decode py (cls.textColumns upper) row)) := by
  unfold ModelClass.fromDict
  rw [readTime_other (h _ List.mem_cons_self), Option.bind_some, readTime_other (h _ (List.mem_cons_of_mem _ List.mem_cons_self)),
    Option.bind_some]

/-- A value whose column is a text is one, or a dict or list with something in it. -/
theorem not_survives_time {columns : List String} {j : Json} {s : String} (hstored : stored py clock (.json j) = .ok (.json (.str s)))
    (hk : k ∈ timeColumns) : ¬ Survives py columns row k j := by
  cases j with
  | null => cases hstored
  | bool b => cases hstored
  | int n => cases hstored
  | float f => cases hstored
  | str s => exact fun h => h.1 hk
  | arr xs => exact fun h => h.2.1 hk
  | obj fields => exact fun h => h.2.1 hk

/-- The values of a row come back as the values of the instance exactly if each of them survives. -/
theorem comes_back_iff (py : JsonModule) (clock : Clock D) (upper : String → String) (cls : ModelClass D) (x row : Attributes D)
    (hpy : py.Lawful) (hfits : cls.Fits x) (hrow : Written py clock x row) :
    (∃ y, cls.fromDict py clock upper row = some y ∧ ∀ k, row.get k ≠ none → y.get k = x.get k) ↔
      ∀ k v, row.get k ≠ none → x.get k = some (.json v) → Survives py (cls.textColumns upper) row k v := by
  by_cases htime : ∃ field ∈ timeColumns, ∃ s, row.get field = some (.json (.str s))
  · obtain ⟨field, hfield, s, hs⟩ := htime
    obtain ⟨v, hv, hstored⟩ := hrow.get hs
    obtain ⟨j, rfl, -⟩ := hfits.values field v hv
    have hsome : row.get field ≠ none := by
      rw [hs]
      exact Option.some_ne_none _
    refine iff_of_false ?_ fun h => not_survives_time hstored hfield (h field j hsome hv)
    rintro ⟨y, hy, hback⟩
    obtain ⟨t, ht⟩ := fromDict_time hy hfield hs
    rw [hback field hsome, hv] at ht
    cases ht
  · have hplain : ∀ field ∈ timeColumns, ∀ s, row.get field ≠ some (.json (.str s)) :=
      fun field hfield s hs => htime ⟨field, hfield, s, hs⟩
    have hback : ∀ k r, row.get k = some r → ∀ j, x.get k = some (.json j) →
        ((cls.construct (decode py (cls.textColumns upper) row)).get k = x.get k ↔ Survives py (cls.textColumns upper) row k j) := by
      intro k r hr j hj
      obtain ⟨v, hv, hstored⟩ := hrow.get hr
      rw [hj] at hv
      cases hv
      obtain ⟨j', hj', hdistinct⟩ := hfits.values k _ hj
      cases hj'
      have hdecoded : (decode py (cls.textColumns upper) row).get k =
          some (if k ∈ reached py row (cls.textColumns upper) then readBack py r else r) := by
        rw [decode_get (nodup_textColumns cls upper), hr, Option.map_some]
        split <;> rfl
      rw [construct_get (hfits.named k (by rw [hj]; exact Option.some_ne_none _)) hdecoded, hj,
        survives_iff_read hpy hdistinct hstored fun hk s hs => hplain k hk s (by rw [hr, hs]), Option.some.injEq]
    rw [fromDict_plain hplain]
    constructor
    · rintro ⟨y, hy, hsame⟩ k v hk hv
      cases hy
      obtain ⟨r, hr⟩ := Option.ne_none_iff_exists'.mp hk
      exact (hback k r hr v hv).mp (hsame k hk)
    · intro h
      refine ⟨_, rfl, fun k hk => ?_⟩
      obtain ⟨r, hr⟩ := Option.ne_none_iff_exists'.mp hk
      obtain ⟨v, hv, -⟩ := hrow.get hr
      obtain ⟨j, rfl, -⟩ := hfits.values k v hv
      exact (hback k r hr j hv).mpr (h k j hk hv)

end Row

/-! A table with one text column. -/

/-- The module on the lists of one truth value. -/
def flagsJson : JsonModule where
  dumps
    | .arr [.bool b] => .ok (if b then "[true]" else "[false]")
    | _ => .error .recursionError
  loads s := if s = "[true]" then .ok (.arr [.bool true]) else if s = "[false]" then .ok (.arr [.bool false]) else .error .valueError

theorem flagsJson_dumps {v : Json} {s : String} (h : flagsJson.dumps v = .ok s) :
    ∃ b, v = .arr [.bool b] ∧ s = if b then "[true]" else "[false]" := by
  unfold flagsJson at h
  dsimp only at h
  split at h
  · rename_i b
    exact ⟨b, rfl, (Except.ok.inj h).symm⟩
  · cases h

theorem flagsJson_lawful : flagsJson.Lawful where
  loads_dumps v s _ h := by
    obtain ⟨b, rfl, rfl⟩ := flagsJson_dumps h
    cases b <;> rfl
  list_text xs s h := by
    obtain ⟨b, -, rfl⟩ := flagsJson_dumps h
    cases b <;> rfl
  dict_text fields s h := by
    obtain ⟨b, hv, -⟩ := flagsJson_dumps h
    cases hv
  container s v _ h := by
    unfold flagsJson at h
    dsimp only at h
    split at h
    · exact .inl ⟨_, (Except.ok.inj h).symm⟩
    · split at h
      · exact .inl ⟨_, (Except.ok.inj h).symm⟩
      · cases h

def noClock : Clock Nat := ⟨fun _ => "", fun _ => none⟩

def tagged : ModelClass Nat where
  attributes := ["get_schema", "get_table_name"]
  fields := [("tags", .json .null)]
  schema := Dict.empty.set "tags" "TEXT"
  textColumnsCache := none
  iterated names := names
  perm _ := .refl _

def withTags (tags : Json) : Attributes Nat :=
  (((Dict.empty.set "id" (.json .null)).set "created_at" (.json .null)).set "updated_at" (.json .null)).set "tags" (.json tags)

theorem withTags_get {tags : Json} {k : String} {v : Value Nat} (h : (withTags tags).get k = some v) :
    v = .json .null ∨ k = "tags" ∧ v = .json tags := by
  unfold withTags at h
  simp only [Dict.get_set, Dict.get_empty] at h
  split at h
  · rename_i hk
    exact .inr ⟨hk.symm, (Option.some.inj h).symm⟩
  · left
    split at h
    · exact (Option.some.inj h).symm
    · split at h
      · exact (Option.some.inj h).symm
      · split at h
        · exact (Option.some.inj h).symm
        · cases h

theorem tagged_fits {tags : Json} (h : distinct tags = true) : tagged.Fits (withTags tags) where
  named k hk := by
    refine .inr (.inr fun hmem => hk ?_)
    obtain rfl | hmem := List.mem_cons.mp hmem
    · rfl
    · rw [List.mem_singleton.mp hmem]
      rfl
  values k v hv := by
    obtain rfl | ⟨-, rfl⟩ := withTags_get hv
    · exact ⟨.null, rfl, rfl⟩
    · exact ⟨tags, rfl, h⟩

theorem list_written : Written flagsJson noClock (withTags (.arr [.bool true])) (withTags (.str "[true]")) := ⟨_, rfl, .inl rfl⟩

/-- A list comes back. -/
theorem list_comes_back : ∃ y, tagged.fromDict flagsJson noClock id (withTags (.str "[true]")) = some y ∧
    ∀ k, (withTags (.str "[true]")).get k ≠ none → y.get k = (withTags (.arr [.bool true])).get k := by
  refine (comes_back_iff flagsJson noClock id tagged _ _ flagsJson_lawful (tagged_fits rfl) list_written).mpr fun k v _ hv => ?_
  obtain hnull | ⟨rfl, htags⟩ := withTags_get hv
  · cases hnull
    trivial
  · cases htags
    exact ⟨List.cons_ne_nil _ _, by decide, List.mem_singleton.mpr rfl⟩

/-- The text of a list comes back as the list. -/
theorem text_not_back : ¬ ∀ (py : JsonModule) (clock : Clock Nat) (upper : String → String) (cls : ModelClass Nat) (x row : Attributes Nat),
    py.Lawful → cls.Fits x → Written py clock x row →
      ∃ y, cls.fromDict py clock upper row = some y ∧ ∀ k, row.get k ≠ none → y.get k = x.get k := by
  intro h
  obtain ⟨y, hy, hback⟩ := h flagsJson noClock id tagged (withTags (.str "[true]")) (withTags (.str "[true]")) flagsJson_lawful
    (tagged_fits rfl) ⟨_, rfl, .inl rfl⟩
  have hread : tagged.fromDict flagsJson noClock id (withTags (.str "[true]")) = some (withTags (.arr [.bool true])) := rfl
  rw [hread] at hy
  cases hy
  have htags := hback "tags" (by exact Option.some_ne_none _)
  cases htags

end XgenSdk.BaseModel
