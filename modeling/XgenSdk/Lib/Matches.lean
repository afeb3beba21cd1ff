import Mathlib.Data.List.Basic

/-! The matches of a pattern in a text, one after another from the left. The
pattern says how long its match at the head of a text is. -/
namespace XgenSdk.Matches
variable {α β : Type}

/-- A match, or an element that none begins with. -/
inductive Part (α : Type) where
  | single (x : α)
  | found (r : List α)
  deriving DecidableEq, Repr

def Part.text : Part α → List α
  | single x => [x]
  | found r => r

def Part.match? : Part α → Option (List α)
  | single _ => none
  | found r => some r

/-- `pattern.sub(replace, text)` for one part. -/
def Part.replaced (replace : List α → List α) : Part α → List α
  | single x => [x]
  | found r => replace r

def partsWithin (length : List α → Option Nat) : Nat → List α → List (Part α)
  | 0, _ => []
  | _, [] => []
  | fuel + 1, x :: s => match length (x :: s) with
    | none => .single x :: partsWithin length fuel s
    | some n => .found ((x :: s).take n) :: partsWithin length fuel ((x :: s).drop n)

def parts (length : List α → Option Nat) (s : List α) : List (Part α) := partsWithin length s.length s

/-- `pattern.sub(replace, text)`. -/
def sub (length : List α → Option Nat) (replace : List α → List α) (s : List α) : List α :=
  (parts length s).flatMap (Part.replaced replace)

/-- `pattern.finditer(text)`, the matched texts. -/
def found (length : List α → Option Nat) (s : List α) : List (List α) := (parts length s).filterMap Part.match?

/-- A match has elements, and they are of the text. -/
def Bounded (length : List α → Option Nat) : Prop := ∀ s n, length s = some n → 0 < n ∧ n ≤ s.length

section Parts
variable {length : List α → Option Nat}

/-- More rounds than elements change nothing. -/
theorem partsWithin_eq (h : Bounded length) {fuel : Nat} {s : List α} (hs : s.length ≤ fuel) :
    partsWithin length fuel s = parts length s := by
  have hboth : ∀ {f g : Nat} {s : List α}, s.length ≤ f → s.length ≤ g → partsWithin length f s = partsWithin length g s := by
    intro f
    induction f with
    | zero =>
      intro g s hf _
      rw [List.length_eq_zero_iff.mp (Nat.le_zero.mp hf)]
      cases g <;> rfl
    | succ f ih =>
      intro g s hf hg
      cases s with
      | nil => cases g <;> rfl
      | cons x s =>
        cases g with
        | zero => cases hg
        | succ g =>
          rw [partsWithin, partsWithin]
          cases hn : length (x :: s) with
          | none => exact congrArg _ (ih (Nat.le_of_succ_le_succ hf) (Nat.le_of_succ_le_succ hg))
          | some n =>
            have hrest : ((x :: s).drop n).length ≤ s.length := by
              have := (h _ n hn).1
              rw [List.length_drop, List.length_cons]
              omega
            exact congrArg _ (ih (Nat.le_trans hrest (Nat.le_of_succ_le_succ hf)) (Nat.le_trans hrest (Nat.le_of_succ_le_succ hg)))
  exact hboth hs (Nat.le_refl _)

@[simp] theorem parts_nil : parts length [] = [] := rfl

theorem parts_of_none {x : α} {s : List α} (hn : length (x :: s) = none) :
    parts length (x :: s) = .single x :: parts length s := by
  rw [parts, List.length_cons, partsWithin, hn]
  rfl

theorem parts_of_some (h : Bounded length) {x : α} {s : List α} {n : Nat} (hn : length (x :: s) = some n) :
    parts length (x :: s) = .found ((x :: s).take n) :: parts length ((x :: s).drop n) := by
  have hrest : ((x :: s).drop n).length ≤ s.length := by
    have := (h _ n hn).1
    rw [List.length_drop, List.length_cons]
    omega
  rw [parts, List.length_cons, partsWithin, hn, ← partsWithin_eq h hrest]

/-- Induction along the parts of a text. -/
theorem parts_induction (h : Bounded length) {motive : List α → Prop} (nil : motive [])
    (single : ∀ x s, length (x :: s) = none → motive s → motive (x :: s))
    (found : ∀ x s n, length (x :: s) = some n → motive ((x :: s).drop n) → motive (x :: s)) (s : List α) : motive s := by
  induction hlength : s.length using Nat.strongRecOn generalizing s with
  | ind k ih =>
    cases s with
    | nil => exact nil
    | cons x s =>
      rw [List.length_cons] at hlength
      cases hn : length (x :: s) with
      | none => exact single x s hn (ih s.length (by omega) s rfl)
      | some n =>
        have := (h _ n hn).1
        refine found x s n hn (ih _ ?_ _ rfl)
        rw [List.length_drop, List.length_cons]
        omega

theorem parts_text (h : Bounded length) (s : List α) : (parts length s).flatMap Part.text = s := by
  induction s using parts_induction h with
  | nil => rfl
  | single x s hn ih => rw [parts_of_none hn, List.flatMap_cons, ih, Part.text, List.singleton_append]
  | found x s n hn ih => rw [parts_of_some h hn, List.flatMap_cons, ih, Part.text, List.take_append_drop]

/-- A match is found with some of the text behind it. -/
theorem length_of_mem (h : Bounded length) {s r : List α} (hr : .found r ∈ parts length s) :
    ∃ rest, length (r ++ rest) = some r.length := by
  induction s using parts_induction h with
  | nil => cases hr
  | single x s hn ih =>
    rw [parts_of_none hn] at hr
    cases hr with
    | tail _ hr => exact ih hr
  | found x s n hn ih =>
    rw [parts_of_some h hn] at hr
    cases hr with
    | head =>
      refine ⟨(x :: s).drop n, ?_⟩
      rw [List.take_append_drop, hn, List.length_take_of_le (h _ n hn).2]
    | tail _ hr => exact ih hr

theorem sub_of_none {replace : List α → List α} {x : α} {s : List α} (hn : length (x :: s) = none) :
    sub length replace (x :: s) = x :: sub length replace s := by
  rw [sub, parts_of_none hn, List.flatMap_cons]
  rfl

theorem sub_of_some (h : Bounded length) {replace : List α → List α} {x : α} {s : List α} {n : Nat}
    (hn : length (x :: s) = some n) :
    sub length replace (x :: s) = replace ((x :: s).take n) ++ sub length replace ((x :: s).drop n) := by
  rw [sub, parts_of_some h hn, List.flatMap_cons]
  rfl

/-- Text in which no match begins is left as it is. -/
theorem sub_append {replace : List α → List α} {front : List α} (rest : List α)
    (hnone : ∀ x s, x ∈ front → length (x :: s) = none) :
    sub length replace (front ++ rest) = front ++ sub length replace rest := by
  induction front with
  | nil => rfl
  | cons x front ih =>
    rw [List.cons_append, sub_of_none (hnone x _ List.mem_cons_self),
      ih fun y s hy => hnone y s (List.mem_cons_of_mem x hy), List.cons_append]

end Parts
end XgenSdk.Matches
