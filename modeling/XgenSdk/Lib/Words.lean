import Mathlib.Data.List.Basic
import Mathlib.Data.List.Infix

/-! Lists cut at separators, and where a list occurs in another. -/
namespace XgenSdk.Words
variable {α : Type*} {sep : α → Bool} {s : α} {a b gap sub w : List α}

section Pieces

/-- The non-empty parts between separators. -/
def pieces (sep : α → Bool) (l : List α) : List (List α) := (l.splitOnP sep).filter fun p => !p.isEmpty

/-- What comes before a separator does not touch what comes after it. -/
theorem pieces_append_sep (hs : sep s = true) : pieces sep (a ++ s :: b) = pieces sep a ++ pieces sep b := by
  rw [pieces, List.splitOnP_append_cons a b hs, List.filter_append]
  rfl

@[simp] theorem pieces_nil : pieces sep ([] : List α) = [] := by simp [pieces]

theorem pieces_cons_sep (hs : sep s = true) : pieces sep (s :: b) = pieces sep b := by
  have h := pieces_append_sep (a := []) (b := b) hs
  simpa using h

theorem pieces_gap_append (h : ∀ c ∈ gap, sep c = true) : pieces sep (gap ++ b) = pieces sep b := by
  induction gap with
  | nil => rfl
  | cons c gap ih =>
    rw [List.forall_mem_cons] at h
    rw [List.cons_append, pieces_cons_sep h.1, ih h.2]

theorem pieces_append_gap (hne : gap ≠ []) (h : ∀ c ∈ gap, sep c = true) :
    pieces sep (a ++ gap ++ b) = pieces sep a ++ pieces sep b := by
  cases gap with
  | nil => exact absurd rfl hne
  | cons c gap =>
    rw [List.forall_mem_cons] at h
    rw [List.append_assoc, List.cons_append, pieces_append_sep h.1, pieces_gap_append h.2]

theorem pieces_append_of_head (h : ∀ c ∈ b.head?, sep c = true) : pieces sep (a ++ b) = pieces sep a ++ pieces sep b := by
  cases b with
  | nil => simp
  | cons c b =>
    have hc : sep c = true := h c rfl
    rw [pieces_append_sep hc, pieces_cons_sep hc]

theorem pieces_word (hne : w ≠ []) (h : ∀ c ∈ w, sep c = false) : pieces sep w = [w] := by
  rw [pieces, List.splitOnP_eq_singleton h]
  simp [hne]

/-- A word takes what follows it up to the first separator. -/
theorem pieces_word_append (hne : w ≠ []) (h : ∀ c ∈ w, sep c = false) (l : List α) :
    pieces sep (w ++ l) = (w ++ l.takeWhile fun c => !sep c) :: pieces sep (l.dropWhile fun c => !sep c) := by
  induction l generalizing w with
  | nil => simpa using pieces_word hne h
  | cons c l ih =>
    by_cases hc : sep c = true
    · rw [pieces_append_sep hc, pieces_word hne h]
      simp [hc, pieces_cons_sep hc]
    · have hw : ∀ x ∈ w ++ [c], sep x = false := by
        intro x hx
        obtain hx | hx := List.mem_append.mp hx
        · exact h x hx
        · rw [List.mem_singleton.mp hx]
          simpa using hc
      have hnext := ih (w := w ++ [c]) (by simp) hw
      simpa [hc] using hnext

/-- What follows the last word goes on with it. -/
theorem pieces_intercalate_append {ws : List (List α)} {y : List α} (hs : sep s = true) (hne : ∀ v ∈ ws, v ≠ [])
    (h : ∀ v ∈ ws, ∀ c ∈ v, sep c = false) :
    pieces sep ([s].intercalate (ws ++ [w]) ++ y) = ws ++ pieces sep (w ++ y) := by
  induction ws with
  | nil => simp
  | cons v ws ih =>
    rw [List.forall_mem_cons] at hne h
    have hrest := ih hne.2 h.2
    have hnext : ws ++ [w] ≠ [] := by simp
    rw [List.cons_append, List.intercalate_cons_of_ne_nil hnext, List.append_assoc, List.append_assoc, List.singleton_append,
      pieces_append_sep hs, pieces_word hne.1 h.1, hrest]
    rfl

theorem intercalate_grow (ws vs : List (List α)) (w x : List α) :
    ∃ y, [s].intercalate (ws ++ (w ++ x) :: vs) = [s].intercalate (ws ++ [w]) ++ x ++ y := by
  induction ws with
  | nil =>
    cases vs with
    | nil => exact ⟨[], by simp⟩
    | cons v vs => exact ⟨[s] ++ [s].intercalate (v :: vs), by simp [List.intercalate_cons_cons]⟩
  | cons v ws ih =>
    obtain ⟨y, hy⟩ := ih
    refine ⟨y, ?_⟩
    rw [List.cons_append, List.cons_append, List.intercalate_cons_of_ne_nil (by simp), List.intercalate_cons_of_ne_nil (by simp), hy]
    simp only [List.append_assoc]

theorem map_intercalate {β : Type*} (f : α → β) (ws : List (List α)) :
    ([s].intercalate ws).map f = [f s].intercalate (ws.map (List.map f)) := by
  induction ws with
  | nil => rfl
  | cons w ws ih =>
    cases ws with
    | nil => simp
    | cons v ws =>
      rw [List.intercalate_cons_cons, List.map_append, List.map_append, ih]
      simp [List.intercalate_cons_cons]

/-- Cutting takes out the separators. -/
theorem pieces_flatten (l : List α) : (pieces sep l).flatten = l.filter fun c => !sep c := by
  rw [pieces, List.flatten_filter_not_isEmpty]
  induction l with
  | nil => simp
  | cons c l ih =>
    obtain ⟨q, qs, hq⟩ := List.exists_cons_of_ne_nil (List.splitOnP_ne_nil sep l)
    rw [hq] at ih
    rw [List.splitOnP_cons_eq_if_modifyHead, hq]
    cases hc : sep c <;> simpa [hc] using ih

theorem mem_pieces {l p : List α} (h : p ∈ pieces sep l) : p ≠ [] ∧ ∀ c ∈ p, c ∈ l ∧ sep c = false := by
  refine ⟨by simpa using (List.mem_filter.mp h).2, fun c hc => ?_⟩
  have hin : c ∈ (pieces sep l).flatten := List.mem_flatten.mpr ⟨p, h, hc⟩
  rw [pieces_flatten, List.mem_filter] at hin
  simpa using hin

end Pieces

section Occurrences

theorem prefix_append_sep (hs : s ∉ sub) (h : sub <+: a ++ s :: b) : sub <+: a := by
  induction a generalizing sub with
  | nil =>
    cases sub with
    | nil => exact List.prefix_refl []
    | cons c sub =>
      rw [List.nil_append, List.cons_prefix_cons] at h
      exact absurd (h.1 ▸ List.mem_cons_self) hs
  | cons x a ih =>
    cases sub with
    | nil => exact List.nil_prefix
    | cons c sub =>
      rw [List.cons_append, List.cons_prefix_cons] at h
      exact List.cons_prefix_cons.mpr ⟨h.1, ih (fun hin => hs (List.mem_cons_of_mem c hin)) h.2⟩

/-- What has no separator in it lies on one side of every separator. -/
theorem infix_append_sep (hs : s ∉ sub) (h : sub <:+: a ++ s :: b) : sub <:+: a ∨ sub <:+: b := by
  induction a with
  | nil =>
    obtain hhead | hrest := List.infix_cons_iff.mp h
    · exact .inl (prefix_append_sep (a := []) hs hhead).isInfix
    · exact .inr hrest
  | cons x a ih =>
    obtain hhead | hrest := List.infix_cons_iff.mp h
    · exact .inl (prefix_append_sep (a := x :: a) hs hhead).isInfix
    · exact (ih hrest).imp_left fun hin => List.infix_cons_iff.mpr (.inr hin)

theorem infix_append_gap (hgap : ∀ c ∈ gap, c ∉ sub) (hne : sub ≠ []) (h : sub <:+: a ++ gap) : sub <:+: a := by
  induction gap generalizing a with
  | nil => simpa using h
  | cons c gap ih =>
    rw [List.forall_mem_cons] at hgap
    obtain hin | hin := infix_append_sep hgap.1 h
    · exact hin
    · have hnil := ih (a := []) hgap.2 hin
      exact absurd (List.eq_nil_of_infix_nil hnil) hne

theorem infix_gap_append (hgap : ∀ c ∈ gap, c ∉ sub) (hne : sub ≠ []) (h : sub <:+: gap ++ b) : sub <:+: b := by
  induction gap with
  | nil => exact h
  | cons c gap ih =>
    rw [List.forall_mem_cons] at hgap
    obtain hnil | hin := infix_append_sep (a := []) hgap.1 h
    · exact absurd (List.eq_nil_of_infix_nil hnil) hne
    · exact ih hgap.2 hin

theorem infix_append_gap_append (hgap : ∀ c ∈ gap, c ∉ sub) (hgne : gap ≠ []) (hne : sub ≠ [])
    (h : sub <:+: a ++ gap ++ b) : sub <:+: a ∨ sub <:+: b := by
  cases gap with
  | nil => exact absurd rfl hgne
  | cons c gap =>
    rw [List.forall_mem_cons] at hgap
    rw [List.append_assoc, List.cons_append] at h
    exact (infix_append_sep hgap.1 h).imp_right (infix_gap_append hgap.2 hne)

/-- The first place where a list without the separator occurs, when it stands right behind a separator. -/
theorem findIdx_tails (p : List α → Bool) (hbefore : ∀ t, t <:+ a → t ≠ [] → p (t ++ b) = false) (hhere : p b = true) :
    (a ++ b).tails.findIdx? p = some a.length := by
  induction a with
  | nil => cases b <;> simp [List.findIdx?_cons, hhere]
  | cons x a ih =>
    have hx : p (x :: (a ++ b)) = false := hbefore (x :: a) (List.suffix_refl _) (List.cons_ne_nil _ _)
    have hrest := ih fun t ht hne => hbefore t (ht.trans (List.suffix_cons x a)) hne
    rw [List.cons_append, List.tails_cons, List.findIdx?_cons, hx, hrest]
    rfl

end Occurrences
end XgenSdk.Words
