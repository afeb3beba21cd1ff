import Mathlib.Data.List.Sort
import Mathlib.Data.List.Nodup

/-! Lists sorted by a key, grouped by a key, and numbered. -/
namespace XgenSdk.Sorting
variable {α κ : Type}

section Keys
variable [LinearOrder κ]

/-- In the order of a key. -/
abbrev byKey (key : α → κ) (l : List α) : List α := l.insertionSort fun a b => key a ≤ key b

theorem byKey_perm (key : α → κ) (l : List α) : (byKey key l).Perm l := List.perm_insertionSort _ l

theorem pairwise_byKey (key : α → κ) (l : List α) : (byKey key l).Pairwise fun a b => key a ≤ key b := by
  have : Std.Total fun a b : α => key a ≤ key b := ⟨fun a b => le_total (key a) (key b)⟩
  have : IsTrans α fun a b => key a ≤ key b := ⟨fun _ _ _ hab hbc => le_trans hab hbc⟩
  exact List.pairwise_insertionSort _ l

/-- Sorting by a key keeps the order among the elements of one key. -/
theorem filter_byKey (key : α → κ) (l : List α) (v : κ) :
    (byKey key l).filter (fun a => key a = v) = l.filter fun a => key a = v := by
  have hsorted : (l.filter fun a => key a = v).Pairwise fun a b => key a ≤ key b := by
    rw [List.pairwise_iff_forall_sublist]
    intro a b hab
    have hmem : ∀ x ∈ [a, b], key x = v := fun x hx => by simpa using (List.mem_filter.mp (hab.subset hx)).2
    exact le_of_eq ((hmem a (by simp)).trans (hmem b (by simp)).symm)
  have hsub := (List.sublist_insertionSort hsorted List.filter_sublist).filter fun a => decide (key a = v)
  rw [List.filter_filter] at hsub
  simp only [Bool.and_self] at hsub
  exact (hsub.eq_of_length ((byKey_perm key l).filter _).length_eq.symm).symm

theorem byKey_of_pairwise {key : α → κ} {l : List α} (h : l.Pairwise fun a b => key a ≤ key b) : byKey key l = l :=
  List.Pairwise.insertionSort_eq h

/-- Elements of different keys have one order. -/
theorem byKey_eq_of_perm {key : α → κ} {l l' : List α} (h : l'.Perm l) (hkey : ∀ a ∈ l, ∀ b ∈ l, key a = key b → a = b) :
    byKey key l' = byKey key l := by
  have hperm : (byKey key l').Perm (byKey key l) := (byKey_perm key l').trans (h.trans (byKey_perm key l).symm)
  refine hperm.eq_of_pairwise (fun a b ha hb hab hba => ?_) (pairwise_byKey key l') (pairwise_byKey key l)
  have hal : a ∈ l := h.mem_iff.mp ((byKey_perm key l').mem_iff.mp ha)
  exact hkey a hal b ((byKey_perm key l).mem_iff.mp hb) (le_antisymm hab hba)

/-- Elements of one key are told apart by the order in which they came. -/
theorem eq_of_byKey_reverse {key : α → κ} {l : List α} (hnodup : l.Nodup) (h : byKey key l.reverse = byKey key l) :
    ∀ a ∈ l, ∀ b ∈ l, key a = key b → a = b := by
  intro a ha b hb hab
  have hsame : (l.filter fun x => key x = key b).reverse = l.filter fun x => key x = key b := by
    rw [← List.filter_reverse, ← filter_byKey key l.reverse, h, filter_byKey]
  have hshort : (l.filter fun x => key x = key b).length ≤ 1 := by
    by_contra hlong
    have hfirst := List.getElem_of_eq hsame (i := 0) (by rw [List.length_reverse]; omega)
    rw [List.getElem_reverse] at hfirst
    have hplace := (hnodup.filter _).getElem_inj_iff.mp hfirst
    omega
  have hain : a ∈ l.filter fun x => key x = key b := List.mem_filter.mpr ⟨ha, by simpa using hab⟩
  have hbin : b ∈ l.filter fun x => key x = key b := List.mem_filter.mpr ⟨hb, by simp⟩
  obtain ⟨c, hc⟩ := List.length_eq_one_iff.mp (le_antisymm hshort (List.length_pos_of_mem hain))
  rw [hc, List.mem_singleton] at hain hbin
  rw [hain, hbin]

end Keys

section Groups
variable [DecidableEq κ]

theorem filter_flatMap_groups {key : α → κ} {part : κ → List α} {keys : List κ} (hkeys : keys.Nodup)
    (hpart : ∀ k, ∀ a ∈ part k, key a = k) (k : κ) :
    (keys.flatMap part).filter (fun a => key a = k) = if k ∈ keys then part k else [] := by
  induction keys with
  | nil => rfl
  | cons k' keys ih =>
    rw [List.nodup_cons] at hkeys
    rw [List.flatMap_cons, List.filter_append, ih hkeys.2]
    by_cases hk : k = k'
    · have hall : (part k').filter (fun a => decide (key a = k)) = part k' :=
        List.filter_eq_self.mpr fun a ha => by simp [hpart k' a ha, hk]
      rw [hall, hk, if_neg hkeys.1, if_pos List.mem_cons_self, List.append_nil]
    · have hnone : (part k').filter (fun a => decide (key a = k)) = [] :=
        List.filter_eq_nil_iff.mpr fun a ha => by simp [hpart k' a ha, Ne.symm hk]
      rw [hnone, List.nil_append]
      simp only [List.mem_cons, hk, false_or]

/-- A list is the groups of its keys, one after the other, but for the order. -/
theorem flatMap_filter_perm {key : α → κ} {keys : List κ} (hkeys : keys.Nodup) {l : List α}
    (hl : ∀ a ∈ l, key a ∈ keys) : (keys.flatMap fun k => l.filter fun a => key a = k).Perm l := by
  induction keys generalizing l with
  | nil =>
    cases l with
    | nil => exact List.Perm.refl _
    | cons a l => exact absurd (hl a List.mem_cons_self) List.not_mem_nil
  | cons k keys ih =>
    rw [List.nodup_cons] at hkeys
    have hrest : ∀ k' ∈ keys, (l.filter fun a => key a = k') =
        (l.filter fun a => !decide (key a = k)).filter fun a => key a = k' := by
      intro k' hk'
      rw [List.filter_filter]
      refine List.filter_congr fun a _ => ?_
      by_cases ha : key a = k'
      · have hne : k' ≠ k := fun h => hkeys.1 (h ▸ hk')
        simp [ha, hne]
      · simp [ha]
    have hkept : ∀ a ∈ l.filter fun a => !decide (key a = k), key a ∈ keys := by
      intro a ha
      obtain ⟨hal, hne⟩ := List.mem_filter.mp ha
      exact (List.mem_cons.mp (hl a hal)).resolve_left (by simpa using hne)
    rw [List.flatMap_cons, List.flatMap_congr hrest]
    exact ((ih hkeys.2 hkept).append_left _).trans (List.filter_append_perm _ l)

end Groups

/-- A list that carries its numbers is not changed by numbering it again. -/
theorem numbered_again {number : α → Int} {renumber : α → Nat → α} (hrenumber : ∀ a (n : Nat), number a = n → renumber a n = a)
    {l : List α} {start : Nat} (h : l.map number = (List.range' start l.length).map Int.ofNat) :
    ((l.zipIdx start).map fun e => renumber e.1 e.2) = l := by
  induction l generalizing start with
  | nil => rfl
  | cons a l ih =>
    rw [List.map_cons, List.length_cons, List.range'_succ, List.map_cons, List.cons.injEq] at h
    rw [List.zipIdx_cons, List.map_cons, hrenumber a start h.1, ih h.2]

end XgenSdk.Sorting
