import Mathlib.Data.List.Basic

/-! Statements with parameters: their pieces, what a database reads in them, and the rows they touch. -/
namespace XgenSdk.Sql

/-- How a driver marks a parameter. -/
inductive Mark where
  | percent | question
  deriving DecidableEq, Repr

inductive Comparison where
  | like | notLike | ne | ge | le | gt | lt | eq
  deriving DecidableEq, Repr

inductive Word where
  | compare (c : Comparison)
  | listOf (negated : Bool)
  | comma
  | closing
  | null (negated : Bool)
  | conj
  | always
  | update
  | set
  | deleteFrom
  | filter
  deriving DecidableEq, Repr

inductive Piece where
  | word (w : Word)
  | name (n : String)
  | mark (m : Mark)
  deriving DecidableEq, Repr

def Mark.text : Mark → String
  | .percent => "%s"
  | .question => "?"

def Word.text : Word → String
  | .compare .like => " LIKE "
  | .compare .notLike => " NOT LIKE "
  | .compare .ne => " != "
  | .compare .ge => " >= "
  | .compare .le => " <= "
  | .compare .gt => " > "
  | .compare .lt => " < "
  | .compare .eq => " = "
  | .listOf false => " IN ("
  | .listOf true => " NOT IN ("
  | .comma => ", "
  | .closing => ")"
  | .null false => " IS NULL"
  | .null true => " IS NOT NULL"
  | .conj => " AND "
  | .always => "1=1"
  | .update => "UPDATE "
  | .set => " SET "
  | .deleteFrom => "DELETE FROM "
  | .filter => " WHERE "

def Piece.text : Piece → String
  | .word w => w.text
  | .name n => n
  | .mark m => m.text

def text (pieces : List Piece) : String := String.join (pieces.map Piece.text)

/-- `sep.join(parts)`. -/
def join {α : Type} (sep : α) : List (List α) → List α
  | [] => []
  | [x] => x
  | x :: y :: rest => x ++ sep :: join sep (y :: rest)

theorem splitOn_join {α : Type} [DecidableEq α] {sep : α} {parts : List (List α)} (hne : parts ≠ [])
    (h : ∀ x ∈ parts, sep ∉ x) : (join sep parts).splitOn sep = parts := by
  induction parts with
  | nil => exact absurd rfl hne
  | cons x rest ih =>
    cases rest with
    | nil => exact List.splitOn_eq_singleton (h x List.mem_cons_self)
    | cons y rest =>
      rw [join, List.splitOn_append_cons_self_of_not_mem (h x List.mem_cons_self),
        ih (List.cons_ne_nil y rest) fun z hz => h z (List.mem_cons_of_mem x hz)]

/-! Reading. -/

inductive Clause where
  | compare (column : String) (c : Comparison)
  | among (column : String) (negated : Bool) (count : Nat)
  | null (column : String) (negated : Bool)
  | always

inductive Statement where
  | update (table : String) (columns : List String) (clauses : List Clause)
  | delete (table : String) (clauses : List Clause)

/-- The marks of a list, up to its bracket. -/
def readMarks (m : Mark) : List Piece → Option Nat
  | [.mark k, .word .closing] => if k = m then some 1 else none
  | .mark k :: .word .comma :: rest => if k = m then (readMarks m rest).map (· + 1) else none
  | _ => none

def readClause (m : Mark) : List Piece → Option Clause
  | [.name column, .word (.compare c), .mark k] => if k = m then some (.compare column c) else none
  | .name column :: .word (.listOf negated) :: rest => (readMarks m rest).map (.among column negated)
  | [.name column, .word (.null negated)] => some (.null column negated)
  | [.word .always] => some .always
  | _ => none

def readFilter (m : Mark) (pieces : List Piece) : Option (List Clause) := (pieces.splitOn (.word .conj)).mapM (readClause m)

def readAssignment (m : Mark) : List Piece → Option String
  | [.name column, .word (.compare .eq), .mark k] => if k = m then some column else none
  | _ => none

def readStatement (m : Mark) : List Piece → Option Statement
  | .word .deleteFrom :: .name table :: .word .filter :: rest => (readFilter m rest).map (.delete table)
  | .word .update :: .name table :: .word .set :: rest =>
    match rest.splitOn (.word .filter) with
    | [sets, filter] => do
      let columns ← (sets.splitOn (.word .comma)).mapM (readAssignment m)
      let clauses ← readFilter m filter
      return .update table columns clauses
    | _ => none
  | _ => none

/-! Parameters, in the order of the marks. -/

inductive Test (V : Type) where
  | compare (column : String) (c : Comparison) (v : V)
  | among (column : String) (negated : Bool) (vs : List V)
  | null (column : String) (negated : Bool)
  | always

variable {V : Type}

def bindClause : Clause → List V → Option (Test V × List V)
  | .compare column c, v :: vs => some (.compare column c v, vs)
  | .compare _ _, [] => none
  | .among column negated count, vs =>
    if vs.length < count then none else some (.among column negated (vs.take count), vs.drop count)
  | .null column negated, vs => some (.null column negated, vs)
  | .always, vs => some (.always, vs)

/-- Every parameter is used. -/
def bindAll : List Clause → List V → Option (List (Test V))
  | [], [] => some []
  | [], _ :: _ => none
  | c :: cs, vs => do
    let (test, rest) ← bindClause c vs
    let tests ← bindAll cs rest
    return test :: tests

/-! Rows. -/

/-- What the comparisons of a database say: `none` is unknown. -/
structure Semantics (V : Type) where
  compare : Comparison → V → V → Option Bool
  isNull : V → Bool

def Row (V : Type) : Type := String → V

def Store (V : Type) : Type := String → List (Row V)

/-- `IN`: a disjunction of three values. -/
def anyOf (answers : List (Option Bool)) : Option Bool :=
  if answers.any (· == some true) then some true else if answers.all (· == some false) then some false else none

theorem anyOf_eq_true (answers : List (Option Bool)) : anyOf answers = some true ↔ answers.any (· == some true) = true := by
  rw [anyOf]
  split_ifs with hany hall
  · simp [hany]
  · simp [hany]
  · simp [hany]

theorem anyOf_eq_false (answers : List (Option Bool)) : anyOf answers = some false ↔ answers.all (· == some false) = true := by
  rw [anyOf]
  split_ifs with hany hall
  · obtain ⟨a, ha, hatrue⟩ := List.any_eq_true.mp hany
    refine ⟨fun h => (by cases h), fun hall => ?_⟩
    have hafalse := List.all_eq_true.mp hall a ha
    rw [beq_iff_eq] at hatrue hafalse
    rw [hatrue] at hafalse
    cases hafalse
  · simp [hall]
  · simp [hall]

def Test.truth (sem : Semantics V) (row : Row V) : Test V → Option Bool
  | .compare column c v => sem.compare c (row column) v
  | .among column negated vs => (anyOf (vs.map (sem.compare .eq (row column)))).map (· != negated)
  | .null column negated => some (sem.isNull (row column) != negated)
  | .always => some true

theorem truth_among (sem : Semantics V) (row : Row V) (column : String) (vs : List V) :
    ((Test.among column false vs).truth sem row == some true) = vs.any fun v => sem.compare .eq (row column) v == some true := by
  have h := anyOf_eq_true (vs.map (sem.compare .eq (row column)))
  rw [List.any_map] at h
  rw [Test.truth, Bool.eq_iff_iff]
  simpa [Function.comp_def] using h

theorem truth_among_not (sem : Semantics V) (row : Row V) (column : String) (vs : List V) :
    ((Test.among column true vs).truth sem row == some true) = vs.all fun v => sem.compare .eq (row column) v == some false := by
  have h := anyOf_eq_false (vs.map (sem.compare .eq (row column)))
  rw [List.all_map] at h
  rw [Test.truth, Bool.eq_iff_iff]
  simpa [Function.comp_def] using h

/-- A filter takes the rows of which every test is true. -/
def taken (sem : Semantics V) (tests : List (Test V)) (row : Row V) : Bool :=
  tests.all fun t => t.truth sem row == some true

def assign (columns : List String) (values : List V) (row : Row V) : Row V := fun column =>
  (((columns.zip values).find? fun p => p.1 = column).map Prod.snd).getD (row column)

def Store.put (store : Store V) (table : String) (rows : List (Row V)) : Store V := fun t =>
  if t = table then rows else store t

@[simp] theorem Store.put_self (store : Store V) (table : String) (rows : List (Row V)) : store.put table rows table = rows :=
  if_pos rfl

/-- The store after a statement and the number of its rows; a statement that cannot be read or bound is refused. -/
def run (sem : Semantics V) (m : Mark) (pieces : List Piece) (values : List V) (store : Store V) : Option (Store V × Nat) := do
  match ← readStatement m pieces with
  | .delete table clauses =>
    let tests ← bindAll clauses values
    return (store.put table ((store table).filter fun row => !taken sem tests row), (store table).countP (taken sem tests))
  | .update table columns clauses =>
    if values.length < columns.length then none else
    let tests ← bindAll clauses (values.drop columns.length)
    return (store.put table ((store table).map fun row =>
      if taken sem tests row then assign columns (values.take columns.length) row else row),
      (store table).countP (taken sem tests))

/-! Statements put together from parts. -/

/-- A test written down: its pieces and its parameters. -/
structure Part (V : Type) where
  pieces : List Piece
  values : List V
  test : Test V

/-- The part is read back as its test, and takes its own parameters. -/
structure Part.Means (m : Mark) (p : Part V) : Prop where
  read : ∃ c, readClause m p.pieces = some c ∧ ∀ rest, bindClause c (p.values ++ rest) = some (p.test, rest)
  conj : Piece.word .conj ∉ p.pieces
  filter : Piece.word .filter ∉ p.pieces

variable {m : Mark} {sem : Semantics V}

theorem readFilter_parts {parts : List (Part V)} (hne : parts ≠ []) (h : ∀ p ∈ parts, p.Means m) :
    ∃ clauses, readFilter m (join (.word .conj) (parts.map Part.pieces)) = some clauses ∧
      bindAll clauses (parts.flatMap Part.values) = some (parts.map Part.test) := by
  have hsplit : (join (.word .conj) (parts.map Part.pieces)).splitOn (.word .conj) = parts.map Part.pieces := by
    refine splitOn_join (by simpa using hne) fun x hx => ?_
    obtain ⟨p, hp, rfl⟩ := List.mem_map.mp hx
    exact (h p hp).conj
  have hread : ∀ ps : List (Part V), (∀ p ∈ ps, p.Means m) → ∃ clauses,
      (ps.map Part.pieces).mapM (readClause m) = some clauses ∧
        bindAll clauses (ps.flatMap Part.values) = some (ps.map Part.test) := by
    intro ps hps
    induction ps with
    | nil => exact ⟨[], rfl, rfl⟩
    | cons p ps ih =>
      obtain ⟨clauses, hclauses, hbind⟩ := ih fun q hq => hps q (List.mem_cons_of_mem p hq)
      obtain ⟨c, hc, hvalues⟩ := (hps p List.mem_cons_self).read
      refine ⟨c :: clauses, ?_, ?_⟩
      · rw [List.map_cons, List.mapM_cons, hc, hclauses]
        rfl
      · rw [List.flatMap_cons, bindAll, hvalues, List.map_cons]
        dsimp only [Option.bind_eq_bind, Option.bind_some]
        rw [hbind]
        rfl
  rw [readFilter, hsplit]
  exact hread parts h

theorem run_delete {filter : List Piece} {clauses : List Clause} {values : List V} {tests : List (Test V)} {table : String}
    {store : Store V} (hread : readFilter m filter = some clauses) (hbind : bindAll clauses values = some tests) :
    run sem m (.word .deleteFrom :: .name table :: .word .filter :: filter) values store =
      some (store.put table ((store table).filter fun row => !taken sem tests row), (store table).countP (taken sem tests)) := by
  rw [run, readStatement, hread]
  dsimp only [Option.bind_eq_bind, Option.bind_some, Option.map_some]
  rw [hbind]
  rfl

/-- `", ".join(f"{k} = {mark}" for k in columns)`. -/
def assignments (m : Mark) (columns : List String) : List Piece :=
  join (.word .comma) (columns.map fun k => [.name k, .word (.compare .eq), .mark m])

theorem not_mem_join {α : Type} {a sep : α} {parts : List (List α)} (hsep : a ≠ sep) (h : ∀ x ∈ parts, a ∉ x) :
    a ∉ join sep parts := by
  induction parts with
  | nil => exact List.not_mem_nil
  | cons x rest ih =>
    cases rest with
    | nil => exact h x List.mem_cons_self
    | cons y rest =>
      rw [join, List.mem_append, List.mem_cons]
      rintro (hx | rfl | hrest)
      · exact h x List.mem_cons_self hx
      · exact hsep rfl
      · exact ih (fun z hz => h z (List.mem_cons_of_mem x hz)) hrest

theorem readAssignments {columns : List String} (hne : columns ≠ []) :
    ((assignments m columns).splitOn (.word .comma)).mapM (readAssignment m) = some columns := by
  have hsplit : (assignments m columns).splitOn (.word .comma) =
      columns.map fun k => [.name k, .word (.compare .eq), .mark m] := by
    refine splitOn_join (by simpa using hne) fun x hx => ?_
    obtain ⟨k, -, rfl⟩ := List.mem_map.mp hx
    simp
  rw [hsplit]
  clear hsplit hne
  induction columns with
  | nil => rfl
  | cons k columns ih =>
    rw [List.map_cons, List.mapM_cons, ih, readAssignment, if_pos rfl]
    rfl

theorem run_update {filter : List Piece} {clauses : List Clause} {values : List V} {tests : List (Test V)} {table : String}
    {columns : List String} {set : List V} {store : Store V} (hne : columns ≠ []) (hlength : set.length = columns.length)
    (hread : readFilter m filter = some clauses) (hbind : bindAll clauses values = some tests)
    (hfilter : Piece.word .filter ∉ filter) :
    run sem m (.word .update :: .name table :: .word .set :: (assignments m columns ++ .word .filter :: filter)) (set ++ values)
      store =
      some (store.put table ((store table).map fun row => if taken sem tests row then assign columns set row else row),
        (store table).countP (taken sem tests)) := by
  have hsets : Piece.word .filter ∉ assignments m columns := by
    refine not_mem_join (by simp) fun x hx => ?_
    obtain ⟨k, -, rfl⟩ := List.mem_map.mp hx
    simp
  have hsplit : (assignments m columns ++ Piece.word .filter :: filter).splitOn (.word .filter) = [assignments m columns, filter] := by
    rw [List.splitOn_append_cons_self_of_not_mem hsets, List.splitOn_eq_singleton hfilter]
  have hshort : ¬ (set ++ values).length < columns.length := by
    rw [List.length_append]
    omega
  rw [run, readStatement, hsplit]
  dsimp only
  rw [readAssignments hne, hread]
  dsimp only [Option.bind_eq_bind, Option.bind_some, Option.pure_def]
  rw [if_neg hshort, ← hlength, List.drop_left, List.take_left, hbind]
  rfl

theorem run_update_nothing {filter : List Piece} {values : List V} {table : String} {store : Store V}
    (hfilter : Piece.word .filter ∉ filter) :
    run sem m (.word .update :: .name table :: .word .set :: (assignments m [] ++ .word .filter :: filter)) values store = none := by
  have hsplit : (assignments m [] ++ Piece.word .filter :: filter).splitOn (.word .filter) = [[], filter] := by
    rw [List.splitOn_append_cons_self_of_not_mem (by simp [assignments, join]), List.splitOn_eq_singleton hfilter]
    rfl
  rw [run, readStatement, hsplit]
  rfl

end XgenSdk.Sql
