import Mathlib.Data.List.Basic
import Mathlib.Order.Lattice

/-! A union-find forest in an array of parents where merging always hangs roots
under a new, younger node. Parents are never older than their children, so
following them ends; halving a path changes no root. -/
namespace XgenSdk.MergeForest

def parentOf (parent : List Nat) (u : Nat) : Nat := parent.getD u u

/-- Follow parents to the root, pointing each visited node at its grandparent. -/
def find : Nat → List Nat → Nat → List Nat × Nat
  | 0, parent, u => (parent, u)
  | fuel+1, parent, u =>
    if parentOf parent u = u then (parent, u)
    else
      let grand := parentOf parent (parentOf parent u)
      find fuel (parent.set u grand) grand

/-- Hang every listed root under `unit`. -/
def hang (unit : Nat) (roots parent : List Nat) : List Nat :=
  roots.foldl (fun ps r => ps.set r unit) parent

/-- `root` names the root of each node of the forest. -/
structure Roots (parent : List Nat) (root : Nat → Nat) : Prop where
  up : ∀ u < parent.length, u ≤ parentOf parent u ∧ parentOf parent u < parent.length
  step : ∀ u < parent.length, root (parentOf parent u) = root u
  self : ∀ u < parent.length, parentOf parent u = u → root u = u
  fixed : ∀ u < parent.length, parentOf parent (root u) = root u
  lt : ∀ u < parent.length, root u < parent.length

theorem Roots.idem {parent : List Nat} {root : Nat → Nat} (h : Roots parent root) {u : Nat}
    (hu : u < parent.length) : root (root u) = root u :=
  h.self _ (h.lt u hu) (h.fixed u hu)

theorem parentOf_set (parent : List Nat) (u v w : Nat) (hu : u < parent.length) :
    parentOf (parent.set u v) w = if w = u then v else parentOf parent w := by
  by_cases hw : w = u
  · subst hw
    simp [parentOf, hu]
  · simp [parentOf, List.getElem?_set_ne (Ne.symm hw), hw]

theorem parentOf_of_le (parent : List Nat) {u : Nat} (hu : parent.length ≤ u) :
    parentOf parent u = u := by
  simp [parentOf, List.getElem?_eq_none hu]

theorem Roots.halve {parent : List Nat} {root : Nat → Nat} (h : Roots parent root) {u : Nat}
    (hu : u < parent.length) :
    Roots (parent.set u (parentOf parent (parentOf parent u))) root := by
  obtain ⟨h1, h2⟩ := h.up u hu
  obtain ⟨h3, h4⟩ := h.up _ h2
  have hset (w : Nat) := parentOf_set parent u (parentOf parent (parentOf parent u)) w hu
  constructor
  · intro w hw
    rw [List.length_set] at hw ⊢
    rw [hset]
    split
    · omega
    · exact h.up w hw
  · intro w hw
    rw [List.length_set] at hw
    rw [hset]
    split
    · subst w
      rw [h.step _ h2, h.step u hu]
    · exact h.step w hw
  · intro w hw
    rw [List.length_set] at hw
    rw [hset]
    split
    · subst w
      intro he
      have hp : parentOf parent u = u := by omega
      exact h.self u hu hp
    · exact h.self w hw
  · intro w hw
    rw [List.length_set] at hw
    rw [hset]
    split
    · rename_i he
      have hp : parentOf parent u = u := he ▸ h.fixed w hw
      rw [hp, hp, he]
    · exact h.fixed w hw
  · intro w hw
    rw [List.length_set] at hw ⊢
    exact h.lt w hw

/-- With fuel for the younger nodes, `find` answers the root and keeps it. -/
theorem Roots.find {parent : List Nat} {root : Nat → Nat} (h : Roots parent root) (fuel u : Nat)
    (hu : u < parent.length) (hf : parent.length ≤ u + fuel) :
    (find fuel parent u).2 = root u ∧ Roots (find fuel parent u).1 root ∧
      (find fuel parent u).1.length = parent.length := by
  induction fuel generalizing parent u with
  | zero => omega
  | succ fuel ih =>
    unfold MergeForest.find
    split
    · rename_i he
      exact ⟨(h.self u hu he).symm, h, rfl⟩
    · rename_i hne
      obtain ⟨h1, h2⟩ := h.up u hu
      obtain ⟨h3, h4⟩ := h.up _ h2
      have hlen : (parent.set u (parentOf parent (parentOf parent u))).length = parent.length :=
        List.length_set
      obtain ⟨hr, hroots, hl⟩ := ih (h.halve hu) (parentOf parent (parentOf parent u))
        (by omega) (by omega)
      refine ⟨?_, hroots, by rw [hl, hlen]⟩
      rw [hr, h.step _ h2, h.step u hu]

theorem length_hang (unit : Nat) (roots parent : List Nat) :
    (hang unit roots parent).length = parent.length := by
  induction roots generalizing parent with
  | nil => rfl
  | cons r rs ih => simpa [hang] using ih (parent.set r unit)

theorem parentOf_hang (unit : Nat) (roots parent : List Nat)
    (hr : ∀ r ∈ roots, r < parent.length) (w : Nat) :
    parentOf (hang unit roots parent) w = if w ∈ roots then unit else parentOf parent w := by
  induction roots generalizing parent with
  | nil => simp [hang]
  | cons r rs ih =>
    have hset := parentOf_set parent r unit w (hr r (by simp))
    have ht := ih (parent.set r unit) fun q hq => by
      rw [List.length_set]
      exact hr q (List.mem_cons_of_mem r hq)
    have hc : hang unit (r :: rs) parent = hang unit rs (parent.set r unit) := rfl
    rw [hc, ht, hset]
    by_cases h1 : w ∈ rs <;> by_cases h2 : w = r <;> simp [h1, h2]

/-- A new node takes over the listed roots and leaves the others alone. -/
theorem Roots.merge {parent : List Nat} {root : Nat → Nat} (h : Roots parent root)
    (roots : List Nat) (hr : ∀ r ∈ roots, r < parent.length ∧ root r = r) :
    Roots (hang parent.length roots (parent ++ [parent.length])) fun u =>
      if u = parent.length then u else if root u ∈ roots then parent.length else root u := by
  have hnew (w : Nat) : parentOf (parent ++ [parent.length]) w = parentOf parent w := by
    rcases Nat.lt_trichotomy w parent.length with hw | hw | hw
    · simp [parentOf, List.getElem?_append_left hw]
    · subst hw
      simp [parentOf]
    · rw [parentOf_of_le _ (by simp; omega), parentOf_of_le _ hw.le]
  have hpar (w : Nat) : parentOf (hang parent.length roots (parent ++ [parent.length])) w =
      if w ∈ roots then parent.length else parentOf parent w := by
    rw [parentOf_hang _ _ _ (fun r hm => by
      rw [List.length_append]
      have := (hr r hm).1
      omega), hnew]
  have hlen : (hang parent.length roots (parent ++ [parent.length])).length = parent.length + 1 := by
    rw [length_hang, List.length_append]
    rfl
  have hlast : parentOf parent parent.length = parent.length := parentOf_of_le _ (le_refl _)
  have hnot : parent.length ∉ roots := fun hm => absurd (hr _ hm).1 (lt_irrefl _)
  constructor
  · intro w hw
    rw [hlen] at hw ⊢
    rw [hpar]
    split
    · omega
    · rcases Nat.lt_or_ge w parent.length with hw' | hw'
      · have := h.up w hw'
        omega
      · rw [parentOf_of_le _ hw']
        omega
  · intro w hw
    rw [hlen] at hw
    rw [hpar]
    split
    · rename_i hm
      obtain ⟨hlt, hself⟩ := hr w hm
      simp [hself, hm, hlt.ne]
    · rcases Nat.lt_or_ge w parent.length with hw' | hw'
      · have hp := h.up w hw'
        simp [hp.2.ne, hw'.ne, h.step w hw']
      · rw [parentOf_of_le _ hw']
  · intro w hw
    rw [hlen] at hw
    rw [hpar]
    split
    · rename_i hm
      intro he
      exact absurd (hr w hm).1 (by omega)
    · rename_i hm
      intro he
      rcases Nat.lt_or_ge w parent.length with hw' | hw'
      · have hself := h.self w hw' he
        simp [hw'.ne, hself, hm]
      · have hwe : w = parent.length := by omega
        simp [hwe]
  · intro w hw
    rw [hlen] at hw
    rcases Nat.lt_or_ge w parent.length with hw' | hw'
    · by_cases hm : root w ∈ roots
      · simp only [hw'.ne, hm, if_true, if_false]
        rw [hpar, if_neg hnot, hlast]
      · simp only [hw'.ne, hm, if_false]
        rw [hpar, if_neg hm]
        exact h.fixed w hw'
    · have hwe : w = parent.length := by omega
      simp only [hwe, if_true]
      rw [hpar, if_neg hnot, hlast]
  · intro w hw
    rw [hlen] at hw ⊢
    rcases Nat.lt_or_ge w parent.length with hw' | hw'
    · have := h.lt w hw'
      simp only [hw'.ne, if_false]
      split <;> omega
    · have hwe : w = parent.length := by omega
      simp [hwe]

end XgenSdk.MergeForest
