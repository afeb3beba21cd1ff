import XgenSdk.Lib.Sql

/-! The bulk operations of the application database: `_build_where_clause` and the updates and deletions that use it. -/
namespace XgenSdk.AppDb
open XgenSdk.Sql (Mark Comparison Piece Test Semantics Row Store)

inductive DbType where
  | postgresql | sqlite
  deriving DecidableEq, Repr

/-- What a caller passes. -/
inductive Value where
  | null
  | bool (b : Bool)
  | int (n : Int)
  | str (s : String)
  | list (vs : List Value)
  | tuple (vs : List Value)
  | dict (fields : List (String × Value))
  | other (tag : String)

/-- `str(value)` and `json.dumps(value, ensure_ascii=False, default=str)`. -/
structure Texts where
  str : Value → String
  dumps : Value → String

/-- `bool(value)`. -/
def Value.truthy : Value → Bool
  | .null => false
  | .bool b => b
  | .int n => n != 0
  | .str s => s != ""
  | .list vs => !vs.isEmpty
  | .tuple vs => !vs.isEmpty
  | .dict fields => !fields.isEmpty
  | .other _ => true

def Value.isStr : Value → Bool
  | .str _ => true
  | _ => false

/-- `value if isinstance(value, (list, tuple)) and len(value) > 0`. -/
def Value.listOrTuple : Value → Option (List Value)
  | .list (v :: vs) => some (v :: vs)
  | .tuple (v :: vs) => some (v :: vs)
  | _ => none

def placeholder (db : DbType) : Mark := if db = .postgresql then .percent else .question

/-- `key.endswith(suffix)`. -/
def endsWith (key suffix : String) : Bool := suffix.toList.isSuffixOf key.toList

/-- `key[:-n]`. -/
def cut (key : String) (n : Nat) : String := String.ofList (key.toList.take (key.toList.length - n))

/-- `where_clauses` and `values`. -/
structure Built where
  clauses : List (List Piece)
  values : List Value

def Built.append (b : Built) (clause : List Piece) (values : List Value) : Built :=
  ⟨b.clauses ++ [clause], b.values ++ values⟩

/-- `f"{column} {operator} {placeholder}"` with one value. -/
def Built.compare (b : Built) (db : DbType) (column : String) (c : Comparison) (value : Value) : Built :=
  b.append [.name column, .word (.compare c), .mark (placeholder db)] [value]

/-- `f"{column} IN ({placeholders})"`. -/
def Built.among (b : Built) (db : DbType) (column : String) (negated : Bool) (vs : List Value) : Built :=
  b.append (.name column :: .word (.listOf negated) ::
    (Sql.join (.word .comma) (vs.map fun _ => [.mark (placeholder db)]) ++ [.word .closing])) vs

/-- `f"%{value}%"`. -/
def pattern (texts : Texts) (value : Value) : Value := .str ("%" ++ texts.str value ++ "%")

/-- `_build_where_clause`. -/
def buildWhereClause (texts : Texts) (db : DbType) (key : String) (value : Value) (b : Built) : Built :=
  if endsWith key "__like__" then b.compare db (cut key 8) .like (pattern texts value)
  else if endsWith key "__notlike__" then b.compare db (cut key 11) .notLike (pattern texts value)
  else if endsWith key "__not__" then b.compare db (cut key 7) .ne value
  else if endsWith key "__gte__" then b.compare db (cut key 7) .ge value
  else if endsWith key "__lte__" then b.compare db (cut key 7) .le value
  else if endsWith key "__gt__" then b.compare db (cut key 6) .gt value
  else if endsWith key "__lt__" then b.compare db (cut key 6) .lt value
  else if endsWith key "__in__" then
    match value.listOrTuple with
    | some vs => b.among db (cut key 6) false vs
    | none => b
  else if endsWith key "__notin__" then
    match value.listOrTuple with
    | some vs => b.among db (cut key 9) true vs
    | none => b
  else if endsWith key "__isnull__" then
    if value.truthy then b.append [.name (cut key 10), .word (.null false)] []
    else b.append [.name (cut key 10), .word (.null true)] []
  else b.compare db key .eq value

/-- The loop over `conditions.items()`. -/
def buildWhere (texts : Texts) (db : DbType) (conditions : List (String × Value)) : Built :=
  conditions.foldl (fun b c => buildWhereClause texts db c.1 c.2 b) ⟨[], []⟩

/-- `" AND ".join(where_clauses) if where_clauses else "1=1"`. -/
def whereClause (clauses : List (List Piece)) : List Piece :=
  if clauses = [] then [.word .always] else Sql.join (.word .conj) clauses

/-- `_serialize_value`. -/
def serializeValue (texts : Texts) : Value → Value
  | .dict fields => .str (texts.dumps (.dict fields))
  | .list vs => if !vs.isEmpty && !vs.all Value.isStr then .str (texts.dumps (.list vs)) else .list vs
  | value => value

/-- `_serialize_data`. -/
def serializeData (texts : Texts) (data : List (String × Value)) : List (String × Value) :=
  data.map fun e => (e.1, serializeValue texts e.2)

structure Outcome where
  success : Bool
  affectedRows : Nat
  deriving DecidableEq, Repr

/-- The parameters that psycopg and sqlite3 take. -/
def DbType.driverMark : DbType → Mark
  | .postgresql => .percent
  | .sqlite => .question

theorem placeholder_eq (db : DbType) : placeholder db = db.driverMark := by
  cases db with
  | postgresql => rfl
  | sqlite => rfl

/-- `execute_update_delete`: a statement that the database refuses gives `None` and changes nothing. -/
def executeUpdateDelete (sem : Semantics Value) (db : DbType) (query : List Piece) (params : List Value) (store : Store Value) :
    Option Nat × Store Value :=
  match Sql.run sem db.driverMark query params store with
  | some (store', count) => (some count, store')
  | none => (none, store)

def updateRecordsByCondition (texts : Texts) (sem : Semantics Value) (db : DbType) (tableName : String)
    (updates conditions : List (String × Value)) (store : Store Value) : Outcome × Store Value :=
  let serializedUpdates := serializeData texts updates
  let built := buildWhere texts db conditions
  let query := .word .update :: .name tableName :: .word .set ::
    (Sql.assignments (placeholder db) (serializedUpdates.map Prod.fst) ++ .word .filter :: whereClause built.clauses)
  let values := serializedUpdates.map Prod.snd ++ built.values
  let (affectedRows, store') := executeUpdateDelete sem db query values store
  (⟨true, affectedRows.getD 0⟩, store')

def deleteRecordsByCondition (texts : Texts) (sem : Semantics Value) (db : DbType) (tableName : String)
    (conditions : List (String × Value)) (store : Store Value) : Outcome × Store Value :=
  let built := buildWhere texts db conditions
  let query := .word .deleteFrom :: .name tableName :: .word .filter :: whereClause built.clauses
  let (affectedRows, store') := executeUpdateDelete sem db query built.values store
  (⟨true, affectedRows.getD 0⟩, store')

/-! Which rows the bulk operations touch. -/

/-! The meaning of a condition. -/

inductive Operator where
  | like | notLike | not | gte | lte | gt | lt | in | notin | isnull
  deriving DecidableEq, Repr

def Operator.suffix : Operator → String
  | .like => "__like__"
  | .notLike => "__notlike__"
  | .not => "__not__"
  | .gte => "__gte__"
  | .lte => "__lte__"
  | .gt => "__gt__"
  | .lt => "__lt__"
  | .in => "__in__"
  | .notin => "__notin__"
  | .isnull => "__isnull__"

def Operator.width : Operator → Nat
  | .like => 8
  | .notLike => 11
  | .not => 7
  | .gte => 7
  | .lte => 7
  | .gt => 6
  | .lt => 6
  | .in => 6
  | .notin => 9
  | .isnull => 10

def Operator.all : List Operator := [.like, .notLike, .not, .gte, .lte, .gt, .lt, .in, .notin, .isnull]

/-- The column a key names and its operator, if it has one. -/
def readKey (key : String) : String × Option Operator :=
  match Operator.all.find? fun op => endsWith key op.suffix with
  | some op => (cut key op.suffix.length, some op)
  | none => (key, none)

/-- The items among which a membership condition looks. Those of a list or a tuple are known; other values may be read in any way. -/
structure Items where
  of : Value → List Value
  list : ∀ vs, of (.list vs) = vs
  tuple : ∀ vs, of (.tuple vs) = vs

variable (texts : Texts) (items : Items) (sem : Semantics Value)

/-- The condition is true of a column's value. -/
def meets (x : Value) (op : Option Operator) (value : Value) : Bool :=
  match op with
  | none => sem.compare .eq x value == some true
  | some .like => sem.compare .like x (pattern texts value) == some true
  | some .notLike => sem.compare .notLike x (pattern texts value) == some true
  | some .not => sem.compare .ne x value == some true
  | some .gte => sem.compare .ge x value == some true
  | some .lte => sem.compare .le x value == some true
  | some .gt => sem.compare .gt x value == some true
  | some .lt => sem.compare .lt x value == some true
  | some .in => (items.of value).any fun item => sem.compare .eq x item == some true
  | some .notin => (items.of value).all fun item => sem.compare .eq x item == some false
  | some .isnull => sem.isNull x == value.truthy

/-- The row satisfies the condition. -/
def satisfies (row : Row Value) (condition : String × Value) : Bool :=
  meets texts items sem (row (readKey condition.1).1) (readKey condition.1).2 condition.2

def satisfiesAll (conditions : List (String × Value)) (row : Row Value) : Bool :=
  conditions.all (satisfies texts items sem row)

/-- A membership condition whose value is no list or tuple with items. -/
def isIgnored (condition : String × Value) : Bool :=
  ((readKey condition.1).2 = some .in || (readKey condition.1).2 = some .notin) && condition.2.listOrTuple.isNone

/-! Keys. -/

theorem endsWith_iff (key suffix : String) : endsWith key suffix = true ↔ suffix.toList <:+ key.toList := by
  rw [endsWith, List.isSuffixOf_iff_suffix]

theorem length_suffix (op : Operator) : op.suffix.length = op.width := by
  cases op <;> decide

theorem mem_all (op : Operator) : op ∈ Operator.all := by
  cases op <;> decide

/-- No operator ends with another. -/
theorem suffix_unique {op op' : Operator} (h : op.suffix.toList <:+ op'.suffix.toList) : op = op' := by
  have htable : ∀ a ∈ Operator.all, ∀ b ∈ Operator.all, a.suffix.toList.isSuffixOf b.suffix.toList = true → a = b := by
    decide
  exact htable op (mem_all op) op' (mem_all op') (List.isSuffixOf_iff_suffix.mpr h)

/-- A column with an operator is read as that, whatever the order of the operators. -/
theorem readKey_append (column : String) (op : Operator) : readKey (column ++ op.suffix) = (column, some op) := by
  have hends : ∀ op', endsWith (column ++ op.suffix) op'.suffix = true ↔ op' = op := by
    intro op'
    rw [endsWith_iff, String.toList_append]
    constructor
    · intro h
      obtain hsuffix | hsuffix := List.suffix_or_suffix_of_suffix h (List.suffix_append column.toList op.suffix.toList)
      · exact suffix_unique hsuffix
      · exact (suffix_unique hsuffix).symm
    · rintro rfl
      exact List.suffix_append _ _
  have hfind : (Operator.all.find? fun op' => endsWith (column ++ op.suffix) op'.suffix) = some op := by
    have hsome : (Operator.all.find? fun op' => endsWith (column ++ op.suffix) op'.suffix).isSome = true :=
      List.find?_isSome.mpr ⟨op, mem_all op, (hends op).mpr rfl⟩
    obtain ⟨op', hop'⟩ := Option.isSome_iff_exists.mp hsome
    have hmeets := List.find?_some hop'
    have heq := (hends op').mp hmeets
    rw [hop', heq]
  rw [readKey, hfind]
  dsimp only
  rw [cut, String.toList_append, List.length_append, ← String.length_toList, Nat.add_sub_cancel, List.take_left,
    String.ofList_toList]

theorem endsWith_eq (key : String) (op : Operator) : endsWith key op.suffix = decide ((readKey key).2 = some op) := by
  have hread : ∀ op', endsWith key op'.suffix = true → (readKey key).2 = some op' := by
    intro op' hends
    have hkey : key = cut key op'.suffix.length ++ op'.suffix := by
      obtain ⟨pre, hpre⟩ := (endsWith_iff key op'.suffix).mp hends
      rw [← String.toList_inj, String.toList_append, cut, String.toList_ofList, ← hpre, List.length_append,
        ← String.length_toList, Nat.add_sub_cancel, List.take_left]
    rw [hkey, readKey_append]
  rw [Bool.eq_iff_iff, decide_eq_true_eq]
  refine ⟨hread op, fun h => ?_⟩
  by_contra hends
  unfold readKey at h
  cases hfind : Operator.all.find? fun op => endsWith key op.suffix with
  | none =>
    rw [hfind] at h
    cases h
  | some op' =>
    rw [hfind] at h
    obtain rfl := Option.some.inj h
    have hmeets := List.find?_some hfind
    exact hends hmeets

theorem readKey_column {key : String} {op : Operator} (h : (readKey key).2 = some op) :
    (readKey key).1 = cut key op.width := by
  unfold readKey at h ⊢
  cases hfind : Operator.all.find? fun op => endsWith key op.suffix with
  | none =>
    rw [hfind] at h
    cases h
  | some op' =>
    rw [hfind] at h
    obtain rfl := Option.some.inj h
    dsimp only
    rw [length_suffix]

theorem readKey_none {key : String} (h : (readKey key).2 = none) : (readKey key).1 = key := by
  unfold readKey at h ⊢
  cases hfind : Operator.all.find? fun op => endsWith key op.suffix with
  | none => rfl
  | some op' =>
    rw [hfind] at h
    cases h

/-! What each condition adds. -/

def comparePart (db : DbType) (column : String) (c : Comparison) (value : Value) : Sql.Part Value :=
  ⟨[.name column, .word (.compare c), .mark (placeholder db)], [value], .compare column c value⟩

def amongPart (db : DbType) (column : String) (negated : Bool) (vs : List Value) : Sql.Part Value :=
  ⟨.name column :: .word (.listOf negated) ::
    (Sql.join (.word .comma) (vs.map fun _ => [.mark (placeholder db)]) ++ [.word .closing]), vs, .among column negated vs⟩

def nullPart (column : String) (negated : Bool) : Sql.Part Value :=
  ⟨[.name column, .word (.null negated)], [], .null column negated⟩

/-- The clause of a condition with its values. -/
def partOf (db : DbType) (condition : String × Value) : Option (Sql.Part Value) :=
  let column := (readKey condition.1).1
  let value := condition.2
  match (readKey condition.1).2 with
  | none => some (comparePart db column .eq value)
  | some .like => some (comparePart db column .like (pattern texts value))
  | some .notLike => some (comparePart db column .notLike (pattern texts value))
  | some .not => some (comparePart db column .ne value)
  | some .gte => some (comparePart db column .ge value)
  | some .lte => some (comparePart db column .le value)
  | some .gt => some (comparePart db column .gt value)
  | some .lt => some (comparePart db column .lt value)
  | some .in => value.listOrTuple.map (amongPart db column false)
  | some .notin => value.listOrTuple.map (amongPart db column true)
  | some .isnull => some (nullPart column !value.truthy)

theorem buildWhereClause_eq (db : DbType) (key : String) (value : Value) (b : Built) :
    buildWhereClause texts db key value b =
      match partOf texts db (key, value) with
      | none => b
      | some p => b.append p.pieces p.values := by
  unfold buildWhereClause partOf
  rw [show endsWith key "__like__" = _ from endsWith_eq key .like, show endsWith key "__notlike__" = _ from endsWith_eq key .notLike,
    show endsWith key "__not__" = _ from endsWith_eq key .not, show endsWith key "__gte__" = _ from endsWith_eq key .gte,
    show endsWith key "__lte__" = _ from endsWith_eq key .lte, show endsWith key "__gt__" = _ from endsWith_eq key .gt,
    show endsWith key "__lt__" = _ from endsWith_eq key .lt, show endsWith key "__in__" = _ from endsWith_eq key .in,
    show endsWith key "__notin__" = _ from endsWith_eq key .notin, show endsWith key "__isnull__" = _ from endsWith_eq key .isnull]
  dsimp only
  cases hop : (readKey key).2 with
  | none =>
    rw [readKey_none hop]
    simp [Built.compare, comparePart]
  | some op =>
    rw [readKey_column hop]
    cases op with
    | «in» => cases hvs : value.listOrTuple <;> simp [Built.among, amongPart, Operator.width]
    | notin => cases hvs : value.listOrTuple <;> simp [Built.among, amongPart, Operator.width]
    | isnull => cases htruthy : value.truthy <;> simp [nullPart, Operator.width]
    | _ => simp [Built.compare, comparePart, Operator.width]

/-- The parts of the conditions that add one. -/
def parts (db : DbType) (conditions : List (String × Value)) : List (Sql.Part Value) := conditions.filterMap (partOf texts db)

variable {texts}

theorem buildWhere_eq (db : DbType) (conditions : List (String × Value)) : buildWhere texts db conditions =
    ⟨(parts texts db conditions).map Sql.Part.pieces, (parts texts db conditions).flatMap Sql.Part.values⟩ := by
  have hfold : ∀ b : Built, conditions.foldl (fun b c => buildWhereClause texts db c.1 c.2 b) b =
      ⟨b.clauses ++ (parts texts db conditions).map Sql.Part.pieces, b.values ++ (parts texts db conditions).flatMap Sql.Part.values⟩ := by
    induction conditions with
    | nil =>
      intro b
      simp [parts]
    | cons c conditions ih =>
      intro b
      rw [List.foldl_cons, buildWhereClause_eq]
      cases hpart : partOf texts db (c.1, c.2) with
      | none =>
        rw [parts, List.filterMap_cons_none hpart]
        exact ih b
      | some p =>
        rw [parts, List.filterMap_cons_some hpart]
        exact (ih (b.append p.pieces p.values)).trans (by simp [Built.append, parts])
  exact (hfold ⟨[], []⟩).trans (by simp)

theorem comparePart_means (db : DbType) (column : String) (c : Comparison) (value : Value) :
    (comparePart db column c value).Means db.driverMark := by
  refine ⟨⟨.compare column c, ?_, fun rest => rfl⟩, by simp [comparePart], by simp [comparePart]⟩
  rw [comparePart, placeholder_eq]
  simp [Sql.readClause]

theorem nullPart_means (db : DbType) (column : String) (negated : Bool) : (nullPart column negated).Means db.driverMark :=
  ⟨⟨.null column negated, rfl, fun _ => rfl⟩, by simp [nullPart], by simp [nullPart]⟩

theorem readMarks_join (m : Mark) {vs : List Value} (hne : vs ≠ []) :
    Sql.readMarks m (Sql.join (.word .comma) (vs.map fun _ => [.mark m]) ++ [.word .closing]) = some vs.length := by
  induction vs with
  | nil => exact absurd rfl hne
  | cons v vs ih =>
    cases vs with
    | nil => simp [Sql.join, Sql.readMarks]
    | cons w vs =>
      have hrest := ih (List.cons_ne_nil w vs)
      rw [List.map_cons] at hrest
      rw [List.map_cons, List.map_cons, Sql.join, List.append_assoc, List.cons_append, List.cons_append, List.nil_append,
        Sql.readMarks, if_pos rfl, hrest]
      rfl

theorem amongPart_means (db : DbType) (column : String) (negated : Bool) {vs : List Value} (hne : vs ≠ []) :
    (amongPart db column negated vs).Means db.driverMark := by
  have hword : ∀ w : Sql.Word, w ≠ .comma → w ≠ .closing → w ≠ .listOf negated →
      Piece.word w ∉ (amongPart db column negated vs).pieces := by
    intro w hcomma hclosing hlist
    have hjoin : Piece.word w ∉ Sql.join (.word .comma) (vs.map fun _ => [Piece.mark (placeholder db)]) := by
      refine Sql.not_mem_join (by simpa using hcomma) fun x hx => ?_
      obtain ⟨-, -, rfl⟩ := List.mem_map.mp hx
      simp
    simpa [amongPart, hlist, hclosing] using hjoin
  refine ⟨⟨.among column negated vs.length, ?_, fun rest => ?_⟩, hword _ (by simp) (by simp) (by simp),
    hword _ (by simp) (by simp) (by simp)⟩
  · rw [amongPart, placeholder_eq, Sql.readClause, readMarks_join _ hne]
    rfl
  · rw [amongPart, Sql.bindClause, if_neg (by simp), List.take_left, List.drop_left]

theorem listOrTuple_cases {value : Value} {vs : List Value} (h : value.listOrTuple = some vs) :
    vs ≠ [] ∧ (value = .list vs ∨ value = .tuple vs) := by
  unfold Value.listOrTuple at h
  split at h
  · rw [← Option.some.inj h]
    exact ⟨List.cons_ne_nil _ _, .inl rfl⟩
  · rw [← Option.some.inj h]
    exact ⟨List.cons_ne_nil _ _, .inr rfl⟩
  · cases h

theorem listOrTuple_items {value : Value} {vs : List Value} (h : value.listOrTuple = some vs) : items.of value = vs := by
  obtain ⟨-, rfl | rfl⟩ := listOrTuple_cases h
  · exact items.list vs
  · exact items.tuple vs

theorem partOf_means {db : DbType} {condition : String × Value} {p : Sql.Part Value} (h : partOf texts db condition = some p) :
    p.Means db.driverMark := by
  have hamong : ∀ negated, condition.2.listOrTuple.map (amongPart db (readKey condition.1).1 negated) = some p →
      p.Means db.driverMark := by
    intro negated hp
    obtain ⟨vs, hvs, rfl⟩ := Option.map_eq_some_iff.mp hp
    exact amongPart_means db _ negated (listOrTuple_cases hvs).1
  unfold partOf at h
  dsimp only at h
  split at h
  case h_9 => exact hamong false h
  case h_10 => exact hamong true h
  case h_11 =>
    rw [← Option.some.inj h]
    exact nullPart_means db _ _
  all_goals
    rw [← Option.some.inj h]
    exact comparePart_means db _ _ _

theorem count_marks (m : Mark) (vs : List Value) :
    (Sql.join (.word .comma) (vs.map fun _ => [Piece.mark m])).count (.mark m) = vs.length := by
  induction vs with
  | nil => rfl
  | cons v vs ih =>
    cases vs with
    | nil => simp [Sql.join]
    | cons w vs =>
      rw [List.map_cons] at ih
      rw [List.map_cons, List.map_cons, Sql.join, List.count_append, List.count_singleton_self,
        List.count_cons_of_ne (by simp), ih]
      simp only [List.length_cons]
      omega

/-- One value for each mark. -/
theorem partOf_marks {db : DbType} {condition : String × Value} {p : Sql.Part Value} (h : partOf texts db condition = some p) :
    p.pieces.count (.mark db.driverMark) = p.values.length := by
  have hamong : ∀ negated, condition.2.listOrTuple.map (amongPart db (readKey condition.1).1 negated) = some p →
      p.pieces.count (.mark db.driverMark) = p.values.length := by
    intro negated hp
    obtain ⟨vs, -, rfl⟩ := Option.map_eq_some_iff.mp hp
    rw [amongPart, placeholder_eq, List.count_cons_of_ne (by simp), List.count_cons_of_ne (by simp), List.count_append, count_marks]
    simp
  unfold partOf at h
  dsimp only at h
  split at h
  case h_9 => exact hamong false h
  case h_10 => exact hamong true h
  case h_11 =>
    rw [← Option.some.inj h]
    simp [nullPart]
  all_goals
    rw [← Option.some.inj h, comparePart, placeholder_eq]
    simp

theorem partOf_truth {db : DbType} {condition : String × Value} {p : Sql.Part Value} (h : partOf texts db condition = some p)
    (row : Row Value) : (p.test.truth sem row == some true) = satisfies texts items sem row condition := by
  rw [satisfies]
  unfold partOf at h
  dsimp only at h
  split at h
  case h_9 hop =>
    obtain ⟨vs, hvs, rfl⟩ := Option.map_eq_some_iff.mp h
    rw [hop, meets, listOrTuple_items items hvs]
    exact Sql.truth_among sem row _ vs
  case h_10 hop =>
    obtain ⟨vs, hvs, rfl⟩ := Option.map_eq_some_iff.mp h
    rw [hop, meets, listOrTuple_items items hvs]
    exact Sql.truth_among_not sem row _ vs
  case h_11 hop =>
    rw [hop, meets, ← Option.some.inj h, nullPart, Test.truth]
    cases sem.isNull (row (readKey condition.1).1) <;> cases condition.2.truthy <;> rfl
  all_goals
    rename_i hop
    rw [hop, meets, ← Option.some.inj h]
    rfl

theorem partOf_eq_none (db : DbType) (condition : String × Value) :
    partOf texts db condition = none ↔ isIgnored condition = true := by
  unfold partOf isIgnored
  dsimp only
  cases hop : (readKey condition.1).2 with
  | none => simp
  | some op => cases op <;> simp

/-! The rows touched. -/

/-- The conditions that add a clause. -/
def kept (conditions : List (String × Value)) : List (String × Value) := conditions.filter fun c => !isIgnored c

theorem parts_means {db : DbType} {conditions : List (String × Value)} :
    ∀ p ∈ parts texts db conditions, p.Means db.driverMark := by
  intro p hp
  obtain ⟨c, -, hc⟩ := List.mem_filterMap.mp hp
  exact partOf_means hc

theorem taken_parts (db : DbType) (conditions : List (String × Value)) (row : Row Value) :
    Sql.taken sem ((parts texts db conditions).map Sql.Part.test) row = satisfiesAll texts items sem (kept conditions) row := by
  rw [Sql.taken, satisfiesAll, parts, kept]
  induction conditions with
  | nil => rfl
  | cons c conditions ih =>
    cases hpart : partOf texts db c with
    | none =>
      have hignored := (partOf_eq_none db c).mp hpart
      rw [List.filterMap_cons_none hpart, ih, List.filter_cons_of_neg (by simp [hignored])]
    | some p =>
      have hnot : ¬ isIgnored c = true := by
        rw [← @partOf_eq_none texts db c, hpart]
        exact Option.some_ne_none p
      rw [List.filterMap_cons_some hpart, List.map_cons, List.all_cons, ih, partOf_truth items sem hpart,
        List.filter_cons_of_pos (by simp [hnot]), List.all_cons]

theorem filter_notMem_whereClause (db : DbType) (conditions : List (String × Value)) :
    Piece.word .filter ∉ whereClause (buildWhere texts db conditions).clauses := by
  rw [buildWhere_eq, whereClause]
  split_ifs
  · simp
  · refine Sql.not_mem_join (by simp) fun x hx => ?_
    obtain ⟨p, hp, rfl⟩ := List.mem_map.mp hx
    exact (parts_means p hp).filter

/-- The database reads in the clause what was built. -/
theorem where_reads (db : DbType) (conditions : List (String × Value)) : ∃ clauses tests,
    Sql.readFilter db.driverMark (whereClause (buildWhere texts db conditions).clauses) = some clauses ∧
      Sql.bindAll clauses (buildWhere texts db conditions).values = some tests ∧
      ∀ row, Sql.taken sem tests row = satisfiesAll texts items sem (kept conditions) row := by
  have htaken := @taken_parts texts items sem db conditions
  rw [buildWhere_eq, whereClause]
  dsimp only
  by_cases hnil : parts texts db conditions = []
  · rw [if_pos (by simpa using hnil), hnil]
    refine ⟨[.always], [.always], rfl, rfl, fun row => ?_⟩
    rw [← htaken, hnil]
    rfl
  · obtain ⟨clauses, hread, hbind⟩ := Sql.readFilter_parts hnil parts_means
    rw [if_neg (by simpa using hnil)]
    exact ⟨clauses, _, hread, hbind, htaken⟩

theorem deleteRecords_eq (db : DbType) (tableName : String) (conditions : List (String × Value)) (store : Store Value) :
    deleteRecordsByCondition texts sem db tableName conditions store =
      (⟨true, (store tableName).countP (satisfiesAll texts items sem (kept conditions))⟩,
        store.put tableName ((store tableName).filter fun row => !satisfiesAll texts items sem (kept conditions) row)) := by
  obtain ⟨clauses, tests, hread, hbind, htaken⟩ := @where_reads texts items sem db conditions
  rw [deleteRecordsByCondition]
  dsimp only
  rw [executeUpdateDelete, Sql.run_delete hread hbind, funext htaken]
  rfl

theorem updateRecords_eq (db : DbType) (tableName : String) {updates : List (String × Value)} (hne : updates ≠ [])
    (conditions : List (String × Value)) (store : Store Value) :
    updateRecordsByCondition texts sem db tableName updates conditions store =
      (⟨true, (store tableName).countP (satisfiesAll texts items sem (kept conditions))⟩,
        store.put tableName ((store tableName).map fun row =>
          if satisfiesAll texts items sem (kept conditions) row then
            Sql.assign (updates.map Prod.fst) ((serializeData texts updates).map Prod.snd) row
          else row)) := by
  obtain ⟨clauses, tests, hread, hbind, htaken⟩ := @where_reads texts items sem db conditions
  have hfilter := @filter_notMem_whereClause texts db conditions
  have hkeys : (serializeData texts updates).map Prod.fst = updates.map Prod.fst := by
    rw [serializeData, List.map_map]
    rfl
  rw [updateRecordsByCondition]
  dsimp only
  rw [placeholder_eq, hkeys, executeUpdateDelete, Sql.run_update (by simpa using hne) (by simp [serializeData]) hread hbind hfilter,
    funext htaken]
  rfl

theorem updateRecords_nothing (db : DbType) (tableName : String) (conditions : List (String × Value)) (store : Store Value) :
    updateRecordsByCondition texts sem db tableName [] conditions store = (⟨true, 0⟩, store) := by
  have hfilter := @filter_notMem_whereClause texts db conditions
  unfold updateRecordsByCondition executeUpdateDelete
  simp only [placeholder_eq, serializeData, List.map_nil, List.nil_append]
  rw [Sql.run_update_nothing hfilter]
  rfl

/-! What is asked of the operations. -/

variable (texts)

/-- Every row that satisfies all conditions is deleted, and no other. -/
def expectedDelete (tableName : String) (conditions : List (String × Value)) (store : Store Value) : Outcome × Store Value :=
  (⟨true, (store tableName).countP (satisfiesAll texts items sem conditions)⟩,
    store.put tableName ((store tableName).filter fun row => !satisfiesAll texts items sem conditions row))

/-- Every row that satisfies all conditions gets the new values, and no other; without new values nothing is touched. -/
def expectedUpdate (tableName : String) (updates conditions : List (String × Value)) (store : Store Value) :
    Outcome × Store Value :=
  if updates = [] then (⟨true, 0⟩, store)
  else (⟨true, (store tableName).countP (satisfiesAll texts items sem conditions)⟩,
    store.put tableName ((store tableName).map fun row =>
      if satisfiesAll texts items sem conditions row then
        Sql.assign (updates.map Prod.fst) ((serializeData texts updates).map Prod.snd) row
      else row))

/-- The clauses and the values are those of the same conditions, one value for each mark. -/
def InOrder (db : DbType) (built : Built) : Prop :=
  ∃ parts : List (Sql.Part Value), built.clauses = parts.map Sql.Part.pieces ∧ built.values = parts.flatMap Sql.Part.values ∧
    ∀ p ∈ parts, p.pieces.count (.mark db.driverMark) = p.values.length

structure Exact (db : DbType) (tableName : String) (updates conditions : List (String × Value)) (store : Store Value) : Prop where
  deleted : deleteRecordsByCondition texts sem db tableName conditions store =
    expectedDelete texts items sem tableName conditions store
  updated : updateRecordsByCondition texts sem db tableName updates conditions store =
    expectedUpdate texts items sem tableName updates conditions store
  inOrder : InOrder db (buildWhere texts db conditions)

/-- The rows that the other conditions take satisfy the membership conditions whose value is no list or tuple with items. -/
def IgnoredHold (tableName : String) (conditions : List (String × Value)) (store : Store Value) : Prop :=
  ∀ row ∈ store tableName, (∀ c ∈ conditions, isIgnored c = false → satisfies texts items sem row c = true) →
    ∀ c ∈ conditions, isIgnored c = true → satisfies texts items sem row c = true

variable {texts items sem} {db : DbType} {tableName : String} {updates conditions : List (String × Value)} {store : Store Value}

theorem inOrder_buildWhere (db : DbType) (conditions : List (String × Value)) : InOrder db (buildWhere texts db conditions) := by
  refine ⟨parts texts db conditions, ?_, ?_, fun p hp => ?_⟩
  · rw [buildWhere_eq]
  · rw [buildWhere_eq]
  · obtain ⟨c, -, hc⟩ := List.mem_filterMap.mp hp
    exact partOf_marks hc

theorem satisfiesAll_kept {row : Row Value} : satisfiesAll texts items sem (kept conditions) row = true ↔
    ∀ c ∈ conditions, isIgnored c = false → satisfies texts items sem row c = true := by
  rw [satisfiesAll, kept, List.all_eq_true]
  constructor
  · intro h c hc hignored
    exact h c (List.mem_filter.mpr ⟨hc, by rw [hignored]; rfl⟩)
  · intro h c hc
    obtain ⟨hmem, hignored⟩ := List.mem_filter.mp hc
    exact h c hmem (by simpa using hignored)

theorem satisfiesAll_iff {row : Row Value} : satisfiesAll texts items sem conditions row = true ↔
    ∀ c ∈ conditions, satisfies texts items sem row c = true := List.all_eq_true

theorem kept_of_all {row : Row Value} (h : satisfiesAll texts items sem conditions row = true) :
    satisfiesAll texts items sem (kept conditions) row = true :=
  satisfiesAll_kept.mpr fun c hc _ => satisfiesAll_iff.mp h c hc

theorem all_of_kept {row : Row Value} (hignored : IgnoredHold texts items sem tableName conditions store)
    (hrow : row ∈ store tableName) : satisfiesAll texts items sem (kept conditions) row = satisfiesAll texts items sem conditions row := by
  rw [Bool.eq_iff_iff]
  refine ⟨fun h => satisfiesAll_iff.mpr fun c hc => ?_, kept_of_all⟩
  cases hc' : isIgnored c with
  | false => exact satisfiesAll_kept.mp h c hc hc'
  | true => exact hignored row hrow (satisfiesAll_kept.mp h) c hc hc'

section NoIdentifiers

def plainTexts : Texts := ⟨fun _ => "", fun _ => ""⟩

def plainItems : Items where
  of
    | .list vs => vs
    | .tuple vs => vs
    | value => [value]
  list := fun _ => rfl
  tuple := fun _ => rfl

/-- Integers are compared, and everything else is unknown. -/
def integers : Semantics Value where
  compare
    | .eq, .int a, .int b => some (a == b)
    | _, _, _ => none
  isNull
    | .null => true
    | _ => false

def oneUser : Store Value := fun _ => [fun _ => .int 7]

end NoIdentifiers

end XgenSdk.AppDb
