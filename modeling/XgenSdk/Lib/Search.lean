import Mathlib.Data.List.Basic

/-! Searching a list for the first place where a recognizer accepts. A recognizer
gives the length of what it accepts at the head of a list. -/
namespace XgenSdk.Search
variable {α : Type}

/-- What a run over the list finds of each member. -/
theorem forall_mem_of_all {p : α → Prop} [DecidablePred p] {l : List α} (h : (l.all fun a => decide (p a)) = true) :
    ∀ a ∈ l, p a :=
  fun a ha => of_decide_eq_true (List.all_eq_true.mp h a ha)

/-- No two have one key: each is found alone by its own. -/
theorem filter_eq_singleton {β : Type} [DecidableEq β] {key : α → β} {l : List α} (h : (l.map key).Nodup) {a : α}
    (ha : a ∈ l) : l.filter (fun b => key b = key a) = [a] := by
  induction l with
  | nil => cases ha
  | cons b l ih =>
    rw [List.map_cons, List.nodup_cons] at h
    obtain rfl | ha := List.mem_cons.mp ha
    · have hnone : l.filter (fun b => key b = key a) = [] := List.filter_eq_nil_iff.mpr fun c hc hkey =>
        h.1 (List.mem_map.mpr ⟨c, hc, of_decide_eq_true hkey⟩)
      rw [List.filter_cons_of_pos (by exact decide_eq_true rfl), hnone]
    · have hne : key b ≠ key a := fun hkey => h.1 (List.mem_map.mpr ⟨a, ha, hkey.symm⟩)
      rw [List.filter_cons_of_neg (by simpa using hne), ih h.2 ha]

abbrev Recognizer (α : Type) := List α → Option Nat

/-- The first accepted place and the length accepted there. -/
def search (m : Recognizer α) : List α → Option (Nat × Nat)
  | [] => (m []).map fun n => (0, n)
  | c :: s =>
    match m (c :: s) with
    | some n => some (0, n)
    | none => (search m s).map fun r => (r.1 + 1, r.2)

/-- What is accepted is not empty, and acceptance depends on it only. -/
structure Local (m : Recognizer α) : Prop where
  pos : ∀ {s n}, m s = some n → 0 < n
  length_le : ∀ {s n}, m s = some n → n ≤ s.length
  append : ∀ {s n} (t : List α), m s = some n → m (s ++ t) = some n
  take : ∀ {s n}, m s = some n → m (s.take n) = some n

theorem search_none {m : Recognizer α} {s : List α} (h : search m s = none) (j : Nat) (hj : j ≤ s.length) :
    m (s.drop j) = none := by
  induction s generalizing j with
  | nil =>
    rw [List.drop_nil]
    exact Option.map_eq_none_iff.mp h
  | cons c s ih =>
    unfold search at h
    split at h
    · cases h
    · rename_i hc
      cases j with
      | zero => exact hc
      | succ j => exact ih (Option.map_eq_none_iff.mp h) j (by simpa using hj)

theorem search_some {m : Recognizer α} {s : List α} {k n : Nat} (h : search m s = some (k, n)) :
    k ≤ s.length ∧ m (s.drop k) = some n ∧ ∀ j < k, m (s.drop j) = none := by
  induction s generalizing k with
  | nil =>
    obtain ⟨n', hm, heq⟩ := Option.map_eq_some_iff.mp h
    obtain ⟨rfl, rfl⟩ := Prod.mk.inj heq
    exact ⟨Nat.le_refl _, hm, fun j hj => absurd hj (Nat.not_lt_zero j)⟩
  | cons c s ih =>
    unfold search at h
    split at h
    · rename_i n' hm
      obtain ⟨rfl, rfl⟩ := Prod.mk.inj (Option.some.inj h)
      exact ⟨Nat.zero_le _, hm, fun j hj => absurd hj (Nat.not_lt_zero j)⟩
    · rename_i hc
      obtain ⟨⟨k', n'⟩, hs, heq⟩ := Option.map_eq_some_iff.mp h
      obtain ⟨rfl, rfl⟩ := Prod.mk.inj heq
      obtain ⟨hle, hm, hfirst⟩ := ih hs
      refine ⟨by simpa using hle, hm, fun j hj => ?_⟩
      cases j with
      | zero => exact hc
      | succ j => exact hfirst j (by simpa using hj)

theorem search_eq_none {m : Recognizer α} {s : List α} (h : ∀ j ≤ s.length, m (s.drop j) = none) :
    search m s = none := by
  induction s with
  | nil => simpa [search] using h 0 (Nat.le_refl _)
  | cons c s ih =>
    have hc : m (c :: s) = none := h 0 (Nat.zero_le _)
    have hs := ih fun j hj => h (j + 1) (by simpa using hj)
    simp only [search, hc, hs, Option.map_none]

theorem search_eq_some {m : Recognizer α} {s : List α} {k n : Nat} (hk : k ≤ s.length)
    (hm : m (s.drop k) = some n) (hfirst : ∀ j < k, m (s.drop j) = none) : search m s = some (k, n) := by
  induction s generalizing k with
  | nil =>
    obtain rfl : k = 0 := by simpa using hk
    rw [List.drop_nil] at hm
    simp [search, hm]
  | cons c s ih =>
    cases k with
    | zero =>
      rw [List.drop_zero] at hm
      simp [search, hm]
    | succ k =>
      have hc : m (c :: s) = none := hfirst 0 (by omega)
      have hs := ih (by simpa using hk) hm fun j hj => hfirst (j + 1) (by omega)
      simp only [search, hc, hs, Option.map_some]

/-- A found place splits the list: nothing is accepted in what precedes it. -/
theorem search_split {m : Recognizer α} (hlocal : Local m) {s : List α} {k n : Nat}
    (h : search m s = some (k, n)) :
    ∃ before found after, s = before ++ found ++ after ∧ before.length = k ∧ found.length = n ∧
      m found = some n ∧ search m before = none := by
  obtain ⟨hk, hm, hfirst⟩ := search_some h
  have hn := hlocal.length_le hm
  refine ⟨s.take k, (s.drop k).take n, (s.drop k).drop n, ?_, ?_, ?_, hlocal.take hm, ?_⟩
  · rw [List.append_assoc, List.take_append_drop, List.take_append_drop]
  · rw [List.length_take]
    omega
  · rw [List.length_take]
    omega
  · refine search_eq_none fun j hj => ?_
    cases hb : m ((s.take k).drop j) with
    | none => rfl
    | some b =>
      -- accepted in the front part, it would have been found there
      have hpos := hlocal.pos hb
      have hfit := hlocal.length_le hb
      rw [List.length_drop, List.length_take] at hfit
      have hlt : j < k := by omega
      have happend : (s.take k).drop j ++ s.drop k = s.drop j := by
        rw [← List.drop_append_of_le_length (by rw [List.length_take]; omega), List.take_append_drop]
      have hfull := hlocal.append (s.drop k) hb
      rw [happend, hfirst j hlt] at hfull
      cases hfull

/-- No accepted word has an end that another accepted word can begin with. -/
def Unbordered (m : Recognizer α) : Prop :=
  ∀ v w, m v = some v.length → m w = some w.length → ∀ i, 0 < i → i < v.length →
    ¬ (v.drop i <+: w) ∧ ¬ (w <+: v.drop i)

/-- Behind a part without any accepted word, an accepted word is the first one. -/
theorem search_append {m : Recognizer α} (hlocal : Local m) (hborder : Unbordered m) {before found : List α}
    (hbefore : search m before = none) (hfound : m found = some found.length) (after : List α) :
    search m (before ++ found ++ after) = some (before.length, found.length) := by
  refine search_eq_some (by simp) ?_ fun j hj => ?_
  · rw [List.append_assoc, List.drop_left]
    exact hlocal.append after hfound
  · cases hm : m ((before ++ found ++ after).drop j) with
    | none => rfl
    | some n =>
      exfalso
      have hdrop : (before ++ found ++ after).drop j = before.drop j ++ (found ++ after) := by
        rw [List.append_assoc, List.drop_append_of_le_length (by omega)]
      rw [hdrop] at hm
      have hword := hlocal.take hm
      by_cases hin : n ≤ (before.drop j).length
      · -- it ends in the first part
        rw [List.take_append_of_le_length hin] at hword
        have hearly := hlocal.append ((before.drop j).drop n) hword
        rw [List.take_append_drop, search_none hbefore j (by omega)] at hearly
        cases hearly
      · -- it reaches over the seam, so its end and `found` overlap
        have hlen : ((before.drop j ++ (found ++ after)).take n).length = n := by
          rw [List.length_take, Nat.min_eq_left (hlocal.length_le hm)]
        have htail : ((before.drop j ++ (found ++ after)).take n).drop (before.drop j).length =
            (found ++ after).take (n - (before.drop j).length) := by
          rw [List.take_append, List.take_of_length_le (by omega), List.drop_left]
        have hpos : 0 < (before.drop j).length := by
          rw [List.length_drop]
          omega
        obtain ⟨hleft, hright⟩ := hborder _ found (by rw [hlen]; exact hword) hfound
          (before.drop j).length hpos (by rw [hlen]; omega)
        rw [htail] at hleft hright
        obtain hle | hle := Nat.le_total (n - (before.drop j).length) found.length
        · rw [List.take_append_of_le_length hle] at hleft
          exact hleft (List.take_prefix _ _)
        · refine hright ?_
          rw [List.take_append, List.take_of_length_le hle]
          exact List.prefix_append _ _

/-! A fixed word. -/

section Literal
variable [BEq α] [LawfulBEq α]

def literal (word : List α) : Recognizer α := fun s => if word.isPrefixOf s then some word.length else none

theorem literal_eq_some {word s : List α} {n : Nat} :
    literal word s = some n ↔ word <+: s ∧ n = word.length := by
  unfold literal
  split
  · rename_i h
    rw [List.isPrefixOf_iff_prefix] at h
    simp [h, eq_comm]
  · rename_i h
    rw [List.isPrefixOf_iff_prefix] at h
    simp [h]

theorem local_literal {word : List α} (hword : word ≠ []) : Local (literal word) where
  pos := fun h => (literal_eq_some.mp h).2 ▸ List.length_pos_iff.mpr hword
  length_le := fun h => (literal_eq_some.mp h).2 ▸ (literal_eq_some.mp h).1.length_le
  append := fun t h => literal_eq_some.mpr ⟨(literal_eq_some.mp h).1.trans (List.prefix_append _ _),
    (literal_eq_some.mp h).2⟩
  take := by
    intro s n h
    obtain ⟨hpre, rfl⟩ := literal_eq_some.mp h
    exact literal_eq_some.mpr ⟨List.prefix_take_iff.mpr ⟨hpre, Nat.le_refl _⟩, rfl⟩

theorem eq_of_literal {word v : List α} (h : literal word v = some v.length) : v = word := by
  obtain ⟨hpre, hlen⟩ := literal_eq_some.mp h
  exact (hpre.eq_of_length hlen.symm).symm

/-- A word whose last element occurs nowhere else in it has no border. -/
theorem unbordered_literal {front : List α} {last : α} (h : last ∉ front) :
    Unbordered (literal (front ++ [last])) := by
  intro v w hv hw i hi hlt
  obtain rfl := eq_of_literal hv
  obtain rfl := eq_of_literal hw
  have hlen : i ≤ front.length := by
    rw [List.length_append, List.length_singleton] at hlt
    omega
  constructor
  · rintro ⟨rest, hrest⟩
    rw [List.drop_append_of_le_length hlen] at hrest
    obtain rfl | ⟨rest, z, rfl⟩ := List.eq_nil_or_concat rest
    · have hcount := congrArg List.length hrest
      simp only [List.append_nil, List.length_append, List.length_drop] at hcount
      omega
    · rw [List.concat_eq_append, ← List.append_assoc] at hrest
      have hfront := (List.append_inj' hrest rfl).1
      exact h (hfront ▸ by simp)
  · intro hpre
    have hcount := hpre.length_le
    rw [List.length_drop] at hcount
    omega

end Literal

end XgenSdk.Search
