import Mathlib.Data.List.Sort

/-! Replacing ranges of a list. A span puts `body` in place of the elements
from `lo` up to `hi`; spans in order are spliced left to right. -/
namespace XgenSdk.Splice
variable {α : Type*}

structure Span (α : Type*) where
  lo : Nat
  hi : Nat
  body : List α
  deriving DecidableEq, Repr

/-- Spans from `p` on, in order, without overlap, within `n` elements. -/
def InOrder (n : Nat) : Nat → List (Span α) → Prop
  | _, [] => True
  | p, s :: rest => p ≤ s.lo ∧ s.lo ≤ s.hi ∧ s.hi ≤ n ∧ InOrder n s.hi rest

def slice (text : List α) (a b : Nat) : List α := (text.take b).drop a

/-- The elements from `p` on with the spans replaced. -/
def spliceFrom (text : List α) : Nat → List (Span α) → List α
  | p, [] => text.drop p
  | p, s :: rest => slice text p s.lo ++ s.body ++ spliceFrom text s.hi rest

def splice (text : List α) (spans : List (Span α)) : List α := spliceFrom text 0 spans

theorem slice_append (text : List α) {a b c : Nat} (hab : a ≤ b) (hbc : b ≤ c) :
    slice text a b ++ slice text b c = slice text a c := by
  have ht : (text.take c).take b = text.take b := by
    rw [List.take_take, Nat.min_eq_left hbc]
  have hd : slice text b c = (slice text a c).drop (b-a) := by
    simp only [slice, List.drop_drop]
    rw [Nat.add_sub_cancel' hab]
  have hp : slice text a b = (slice text a c).take (b-a) := by
    simp only [slice]
    rw [← ht, List.drop_take]
  rw [hp, hd, List.take_append_drop]

theorem slice_drop (text : List α) {a b : Nat} (hab : a ≤ b) :
    slice text a b ++ text.drop b = text.drop a := by
  have h := slice_append text hab (Nat.le_add_left b text.length)
  have hfull : text.take (text.length + b) = text := List.take_of_length_le (by omega)
  simpa only [slice, hfull] using h

theorem slice_self (text : List α) (a : Nat) : slice text a a = [] := by
  simp [slice]

theorem slice_full (text : List α) : slice text 0 text.length = text := by simp [slice]

theorem length_slice (text : List α) {a b : Nat} (hb : b ≤ text.length) :
    (slice text a b).length = b-a := by
  simp [slice, Nat.min_eq_left hb]

/-- A slice of a slice. -/
theorem slice_slice (text : List α) (a b c d : Nat) (hd : a+d ≤ b) :
    slice (slice text a b) c d = slice text (a+c) (a+d) := by
  simp only [slice, List.take_drop, List.drop_drop, List.take_take]
  rw [Nat.min_eq_left hd]

theorem InOrder.weaken {n p q : Nat} {spans : List (Span α)} (h : InOrder n p spans)
    (hq : q ≤ p) : InOrder n q spans := by
  cases spans with
  | nil => trivial
  | cons s rest => exact ⟨hq.trans h.1, h.2⟩

theorem InOrder.start_le {n p : Nat} {spans : List (Span α)} (h : InOrder n p spans)
    {s : Span α} (hs : s ∈ spans) : p ≤ s.lo := by
  induction spans generalizing p with
  | nil => simp at hs
  | cons a rest ih =>
    obtain ⟨hp, ha, _, hr⟩ := h
    rcases List.mem_cons.mp hs with rfl | hs'
    · exact hp
    · exact (hp.trans ha).trans (ih hr hs')

/-- A member is in order by itself. -/
theorem InOrder.single {n p : Nat} {spans : List (Span α)} (h : InOrder n p spans)
    {s : Span α} (hs : s ∈ spans) : InOrder n p [s] := by
  induction spans generalizing p with
  | nil => cases hs
  | cons a rest ih =>
    obtain ⟨hp, ha, hn, hr⟩ := h
    cases hs with
    | head => exact ⟨hp, ha, hn, trivial⟩
    | tail _ hs => exact (ih hr hs).weaken (hp.trans ha)

theorem InOrder.filter {n p : Nat} {spans : List (Span α)} (h : InOrder n p spans)
    (keep : Span α → Bool) : InOrder n p (spans.filter keep) := by
  induction spans generalizing p with
  | nil => trivial
  | cons s rest ih =>
    obtain ⟨hp, hs, hn, hr⟩ := h
    by_cases hk : keep s = true
    · rw [List.filter_cons_of_pos hk]
      exact ⟨hp, hs, hn, ih hr⟩
    · rw [List.filter_cons_of_neg hk]
      exact (ih hr).weaken (hp.trans hs)

/-- Starting earlier only copies what lies between. -/
theorem slice_spliceFrom (text : List α) {n p q : Nat} {spans : List (Span α)} (hpq : p ≤ q)
    (h : InOrder n q spans) : slice text p q ++ spliceFrom text q spans = spliceFrom text p spans := by
  cases spans with
  | nil => exact slice_drop text hpq
  | cons s rest =>
    simp only [spliceFrom, ← List.append_assoc]
    rw [slice_append text hpq h.1]

/-- Spans that replace nothing by nothing can be left out. -/
theorem spliceFrom_filter (text : List α) {n p : Nat} {spans : List (Span α)}
    (h : InOrder n p spans) (keep : Span α → Bool)
    (hk : ∀ s ∈ spans, keep s = false → s.lo = s.hi ∧ s.body = []) :
    spliceFrom text p (spans.filter keep) = spliceFrom text p spans := by
  induction spans generalizing p with
  | nil => rfl
  | cons s rest ih =>
    obtain ⟨hp, hs, _, hr⟩ := h
    have ih' := ih hr fun t ht => hk t (List.mem_cons_of_mem s ht)
    by_cases hks : keep s = true
    · rw [List.filter_cons_of_pos hks]
      simp only [spliceFrom, ih']
    · obtain ⟨he, hb⟩ := hk s (by simp) (Bool.not_eq_true _ ▸ hks)
      rw [List.filter_cons_of_neg hks]
      simp only [spliceFrom, hb, List.append_nil, ← ih', he]
      exact (slice_spliceFrom text (hp.trans hs) (hr.filter keep)).symm

theorem mem_spliceFrom {text : List α} {p : Nat} {spans : List (Span α)} {c : α} (h : c ∈ spliceFrom text p spans) :
    c ∈ text ∨ ∃ s ∈ spans, c ∈ s.body := by
  induction spans generalizing p with
  | nil => exact Or.inl (List.mem_of_mem_drop h)
  | cons s rest ih =>
    rcases List.mem_append.mp h with h | h
    · rcases List.mem_append.mp h with h | h
      · exact Or.inl (List.mem_of_mem_take (List.mem_of_mem_drop h))
      · exact Or.inr ⟨s, List.mem_cons_self, h⟩
    · exact (ih h).imp_right fun ⟨t, ht, hc⟩ => ⟨t, List.mem_cons_of_mem s ht, hc⟩

/-! Ordered spans that are not empty. -/

theorem InOrder.pairwise {n p : Nat} {spans : List (Span α)} (h : InOrder n p spans) :
    spans.Pairwise fun a b => a.hi ≤ b.lo := by
  induction spans generalizing p with
  | nil => exact List.Pairwise.nil
  | cons s rest ih =>
    obtain ⟨_, _, _, hr⟩ := h
    exact List.pairwise_cons.mpr ⟨fun t ht => hr.start_le ht, ih hr⟩

theorem InOrder.eq_of_overlap {n p : Nat} {spans : List (Span α)} (h : InOrder n p spans)
    {a b : Span α} (ha : a ∈ spans) (hb : b ∈ spans) (hab : a.lo < b.hi) (hba : b.lo < a.hi) :
    a = b := by
  induction spans generalizing p with
  | nil => cases ha
  | cons s rest ih =>
    obtain ⟨_, _, _, hr⟩ := h
    cases ha with
    | head =>
      cases hb with
      | head => rfl
      | tail _ hb => exact absurd (hr.start_le hb) (by omega)
    | tail _ ha =>
      cases hb with
      | head => exact absurd (hr.start_le ha) (by omega)
      | tail _ hb => exact ih hr ha hb

/-- Ordered spans are known by their members. -/
theorem InOrder.eq_of_mem_iff {n p : Nat} {xs ys : List (Span α)} (hx : InOrder n p xs)
    (hy : InOrder n p ys) (hpos : ∀ s ∈ ys, s.lo < s.hi) (h : ∀ s, s ∈ xs ↔ s ∈ ys) : xs = ys := by
  have hlt {zs : List (Span α)} (hz : InOrder n p zs) (hzpos : ∀ s ∈ zs, s.lo < s.hi) :
      zs.Pairwise fun a b => a.lo < b.lo :=
    hz.pairwise.imp_of_mem fun {a b} ha _ hab => (hzpos a ha).trans_le hab
  have hanti : Std.Antisymm fun a b : Span α => a.lo < b.lo :=
    ⟨fun a b hab hba => absurd hab hba.asymm⟩
  have hirrefl : Std.Irrefl fun a b : Span α => a.lo < b.lo := ⟨fun a => lt_irrefl a.lo⟩
  exact (hlt hx fun s hs => hpos s ((h s).mp hs)).eq_of_mem_iff (hlt hy hpos) h

end XgenSdk.Splice
