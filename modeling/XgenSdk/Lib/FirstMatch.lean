import Mathlib.Data.List.Basic

/-! Editing the first element of a list that satisfies a test, and the least
element above a bound. General facts about lists. -/
namespace XgenSdk.FirstMatch
variable {α β : Type*}

/-- Apply `f` to the first element satisfying `p`. -/
def modifyFirst (p : α → Bool) (f : α → α) : List α → List α
  | [] => []
  | x :: xs => if p x then f x :: xs else x :: modifyFirst p f xs

/-- With at most one match, editing the first one edits every one. -/
theorem modifyFirst_eq_map (p : α → Bool) (f : α → α) (xs : List α)
    (h : xs.Pairwise fun x y => ¬ (p x = true ∧ p y = true)) :
    modifyFirst p f xs = xs.map fun x => if p x then f x else x := by
  induction xs with
  | nil => rfl
  | cons x xs ih =>
    obtain ⟨hx, ht⟩ := List.pairwise_cons.mp h
    by_cases hp : p x = true
    · have hrest : xs.map (fun y => if p y then f y else y) = xs := by
        refine (List.map_congr_left fun y hy => ?_).trans (List.map_id xs)
        have hy' : p y = false := by simpa [hp] using hx y hy
        simp [hy']
      simp [modifyFirst, hp, hrest]
    · simp [modifyFirst, hp, ih ht]

theorem map_modifyFirst (g : α → β) (p : α → Bool) (f : α → α) (xs : List α)
    (h : ∀ x ∈ xs, g (f x) = g x) : (modifyFirst p f xs).map g = xs.map g := by
  induction xs with
  | nil => rfl
  | cons x xs ih =>
    have ht := ih fun y hy => h y (List.mem_cons_of_mem x hy)
    by_cases hp : p x = true
    · simp [modifyFirst, hp, h x (by simp)]
    · simp [modifyFirst, hp, ht]

/-- The least member above `k`. -/
def leastAbove (k : Nat) (ns : List Nat) : Option Nat := (ns.filter (k < ·)).min?

theorem leastAbove_eq_none (k : Nat) (ns : List Nat) :
    leastAbove k ns = none ↔ ∀ n ∈ ns, n ≤ k := by
  simp [leastAbove, List.min?_eq_none_iff]

theorem leastAbove_eq_some (k m : Nat) (ns : List Nat) :
    leastAbove k ns = some m ↔ m ∈ ns ∧ k < m ∧ ∀ n ∈ ns, k < n → m ≤ n := by
  simp only [leastAbove, List.min?_eq_some_iff, List.mem_filter, decide_eq_true_eq, and_imp,
    and_assoc]

end XgenSdk.FirstMatch
