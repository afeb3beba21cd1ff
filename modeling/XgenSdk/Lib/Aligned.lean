import XgenSdk.Lib.Pieces

/-! A text in two forms, cell by cell: as it is written and as it is read. Spans
of the text as it is read are masked in the text as it is written, and take
whole cells with them. -/
namespace XgenSdk.Aligned
open Splice
variable {α : Type}

/-- A piece of the text that is read as a whole. -/
structure Cell (α : Type) where
  raw : List α
  value : List α
  deriving DecidableEq, Repr

def raws (cells : List (Cell α)) : List α := cells.flatMap Cell.raw
def values (cells : List (Cell α)) : List α := cells.flatMap Cell.value

@[simp] theorem raws_append (a b : List (Cell α)) : raws (a ++ b) = raws a ++ raws b := List.flatMap_append
@[simp] theorem values_append (a b : List (Cell α)) : values (a ++ b) = values a ++ values b := List.flatMap_append
@[simp] theorem raws_cons (c : Cell α) (cells : List (Cell α)) : raws (c :: cells) = c.raw ++ raws cells := List.flatMap_cons
@[simp] theorem values_cons (c : Cell α) (cells : List (Cell α)) : values (c :: cells) = c.value ++ values cells :=
  List.flatMap_cons

/-- A span reads some of what is read from one place to another. -/
def reaches (lo hi : Nat) (s : Span α) : Bool := s.lo < hi && lo < s.hi

/-- A span begins from one place to another. -/
def begins (lo hi : Nat) (s : Span α) : Bool := lo ≤ s.lo && s.lo < hi

/-- What the spans that begin from one place to another put there. -/
def bodies (write : List α → List α) (lo hi : Nat) (spans : List (Span α)) : List α :=
  (spans.filter (begins lo hi)).flatMap fun s => write s.body

/-- A cell no span reaches stays as it is written. In place of another stand the spans that begin in it. -/
def maskCells (write : List α → List α) (spans : List (Span α)) : Nat → List (Cell α) → List α
  | _, [] => []
  | place, c :: rest =>
    let stop := place + c.value.length
    (if spans.any (reaches place stop) then bodies write place stop spans else c.raw) ++ maskCells write spans stop rest

/-- The spans in places of the text as it is written; where `range` gives a place that is gone already, the next. -/
def locate (range : Nat → Nat × Nat) (write : List α → List α) : Nat → List (Span α) → List (Span α)
  | _, [] => []
  | last, s :: rest =>
    let lo := max last (range s.lo).1
    let hi := max last (range (s.hi - 1)).2
    ⟨lo, hi, write s.body⟩ :: locate range write hi rest

/-- `range` gives for each place of the text as it is read the cell it is read from. -/
def Ranges (range : Nat → Nat × Nat) (cells : List (Cell α)) : Prop :=
  ∀ before c after x, cells = before ++ c :: after → (values before).length ≤ x →
    x < (values before).length + c.value.length → range x = ((raws before).length, (raws before).length + c.raw.length)

/-- A place of the text as it is read lies in one of the cells. -/
theorem exists_cell {cells : List (Cell α)} {x : Nat} (h : x < (values cells).length) :
    ∃ before c after, cells = before ++ c :: after ∧ (values before).length ≤ x ∧
      x < (values before).length + c.value.length := by
  induction cells generalizing x with
  | nil => cases h
  | cons c rest ih =>
    by_cases hx : x < c.value.length
    · exact ⟨[], c, rest, rfl, Nat.zero_le _, by simpa [values] using hx⟩
    · rw [values_cons, List.length_append] at h
      obtain ⟨before, d, after, rfl, hlo, hhi⟩ := ih (by omega : x - c.value.length < (values rest).length)
      refine ⟨c :: before, d, after, rfl, ?_, ?_⟩
      · rw [values_cons, List.length_append]
        omega
      · rw [values_cons, List.length_append]
        omega

section Masking
variable {write : List α → List α} {spans : List (Span α)}

theorem maskCells_append (place : Nat) (a b : List (Cell α)) :
    maskCells write spans place (a ++ b) =
      maskCells write spans place a ++ maskCells write spans (place + (values a).length) b := by
  induction a generalizing place with
  | nil => rfl
  | cons c a ih =>
    simp only [List.cons_append, maskCells, ih, values_cons, List.length_append, List.append_assoc, Nat.add_assoc]

/-- Cells that no span reaches stay. -/
theorem maskCells_free {place : Nat} {cells : List (Cell α)} (h : ∀ s ∈ spans, place + (values cells).length ≤ s.lo) :
    maskCells write spans place cells = raws cells := by
  induction cells generalizing place with
  | nil => rfl
  | cons c rest ih =>
    rw [values_cons, List.length_append] at h
    have hfree : spans.any (reaches place (place + c.value.length)) = false := by
      rw [List.any_eq_false]
      intro s hs
      have := h s hs
      simp only [reaches, Bool.and_eq_true, decide_eq_true_eq, not_and]
      omega
    rw [maskCells, hfree, raws_cons, ih fun s hs => by have := h s hs; omega]
    rfl

/-- A span that ends before the cells has no part in them. -/
theorem maskCells_skip {s : Span α} {place : Nat} (hs : s.lo < s.hi) (hplace : s.hi ≤ place) (cells : List (Cell α)) :
    maskCells write (s :: spans) place cells = maskCells write spans place cells := by
  induction cells generalizing place with
  | nil => rfl
  | cons c rest ih =>
    have hreach : reaches place (place + c.value.length) s = false := by
      simp only [reaches, Bool.and_eq_false_iff, decide_eq_false_iff_not]
      omega
    have hbegin : begins place (place + c.value.length) s = false := by
      simp only [begins, Bool.and_eq_false_iff, decide_eq_false_iff_not]
      omega
    rw [maskCells, maskCells, ih (hplace.trans (Nat.le_add_right _ _)), List.any_cons, hreach, Bool.false_or, bodies, bodies,
      List.filter_cons_of_neg (by rw [hbegin]; exact Bool.false_ne_true)]

/-- The spans that begin from one place to the next, and on to a third. -/
theorem begins_append {n start : Nat} (h : InOrder n start spans) {a b c : Nat} (hab : a ≤ b) (hbc : b ≤ c) :
    spans.filter (begins a b) ++ spans.filter (begins b c) = spans.filter (begins a c) := by
  induction spans generalizing start with
  | nil => rfl
  | cons s rest ih =>
    have hrest := ih h.2.2.2
    by_cases ha : a ≤ s.lo
    · by_cases hb : s.lo < b
      · have hab' : begins a b s = true := by simp [begins, ha, hb]
        have hbc' : begins b c s = false := by simp [begins, hb]
        have hac' : begins a c s = true := by simp [begins, ha, hb.trans_le hbc]
        rw [List.filter_cons_of_pos hab', List.filter_cons_of_neg (by simp [hbc']), List.filter_cons_of_pos hac',
          ← hrest, List.cons_append]
      · -- nothing begins before `b` from here on
        have hnone : rest.filter (begins a b) = [] := by
          rw [List.filter_eq_nil_iff]
          intro t ht
          have := h.2.2.2.start_le ht
          have := h.2.1
          simp only [begins, Bool.and_eq_true, decide_eq_true_eq, not_and]
          omega
        have hab' : begins a b s = false := by simp [begins, hb]
        rw [List.filter_cons_of_neg (by simp [hab']), hnone, List.nil_append]
        rw [hnone, List.nil_append] at hrest
        by_cases hc : s.lo < c
        · rw [List.filter_cons_of_pos (by simp [begins, Nat.not_lt.mp hb, hc]),
            List.filter_cons_of_pos (by simp [begins, ha, hc]), hrest]
        · rw [List.filter_cons_of_neg (by simp [begins, hc]), List.filter_cons_of_neg (by simp [begins, hc]), hrest]
    · rw [List.filter_cons_of_neg (by simp [begins, ha]), List.filter_cons_of_neg (by simp [begins]; omega),
        List.filter_cons_of_neg (by simp [begins, ha]), hrest]

theorem bodies_append {n start : Nat} (h : InOrder n start spans) {a b c : Nat} (hab : a ≤ b) (hbc : b ≤ c) :
    bodies write a b spans ++ bodies write b c spans = bodies write a c spans := by
  rw [bodies, bodies, bodies, ← begins_append h hab hbc, List.flatMap_append]

/-- Cells that the spans reach, all of them. -/
theorem maskCells_hit {n start place : Nat} (h : InOrder n start spans) {cells : List (Cell α)}
    (hhit : ∀ before c after, cells = before ++ c :: after →
      ∃ s ∈ spans, reaches (place + (values before).length) (place + (values before).length + c.value.length) s = true) :
    maskCells write spans place cells = bodies write place (place + (values cells).length) spans := by
  induction cells generalizing place with
  | nil =>
    have hnone : spans.filter (begins place (place + (values ([] : List (Cell α))).length)) = [] := by
      rw [List.filter_eq_nil_iff]
      intro s _
      simp only [begins, values, List.flatMap_nil, List.length_nil, Bool.and_eq_true, decide_eq_true_eq, not_and]
      omega
    rw [maskCells, bodies, hnone]
    rfl
  | cons c rest ih =>
    have hfirst : spans.any (reaches place (place + c.value.length)) = true := by
      obtain ⟨s, hs, hreach⟩ := hhit [] c rest rfl
      exact List.any_eq_true.mpr ⟨s, hs, hreach⟩
    rw [maskCells, hfirst, if_pos rfl, ih fun before d after hrest => ?_, bodies_append h (Nat.le_add_right _ _) (Nat.le_add_right _ _),
      values_cons, List.length_append, Nat.add_assoc]
    obtain ⟨s, hs, hreach⟩ := hhit (c :: before) d after (by rw [hrest]; rfl)
    rw [values_cons, List.length_append, ← Nat.add_assoc] at hreach
    exact ⟨s, hs, hreach⟩

theorem bodies_cons_of_begins {s : Span α} {lo hi : Nat} (h : begins lo hi s = true) :
    bodies write lo hi (s :: spans) = write s.body ++ bodies write lo hi spans := by
  rw [bodies, List.filter_cons_of_pos h, List.flatMap_cons]
  rfl

/-- Spans from a place on put nothing before it. -/
theorem bodies_before {n start : Nat} (h : InOrder n start spans) {lo hi : Nat} (hhi : hi ≤ start) :
    bodies write lo hi spans = [] := by
  rw [bodies, List.filter_eq_nil_iff.mpr fun s hs => ?_, List.flatMap_nil]
  have := h.start_le hs
  simp only [begins, Bool.and_eq_true, decide_eq_true_eq, not_and]
  omega

end Masking

/-! From places of the text as it is read to places of the text as it is written. -/

theorem length_values_le {a b : List (Cell α)} (h : a <+: b) : (values a).length ≤ (values b).length := by
  obtain ⟨c, rfl⟩ := h
  rw [values_append, List.length_append]
  exact Nat.le_add_right _ _

theorem length_raws_le {a b : List (Cell α)} (h : a <+: b) : (raws a).length ≤ (raws b).length := by
  obtain ⟨c, rfl⟩ := h
  rw [raws_append, List.length_append]
  exact Nat.le_add_right _ _

theorem values_snoc (a : List (Cell α)) (c : Cell α) : values (a ++ [c]) = values a ++ c.value := by
  simp [values]

theorem raws_snoc (a : List (Cell α)) (c : Cell α) : raws (a ++ [c]) = raws a ++ c.raw := by
  simp [raws]

/-- The cell of a place lies after some first cells, or it is one of them. -/
theorem cell_place {cells first before after : List (Cell α)} {c : Cell α} {x : Nat} (hfirst : first <+: cells)
    (hcells : cells = before ++ c :: after) (hlo : (values before).length ≤ x)
    (hhi : x < (values before).length + c.value.length) :
    (first <+: before ∧ (values first).length ≤ x) ∨ (before ++ [c] <+: first ∧ x < (values first).length) := by
  have hbefore : before <+: cells := ⟨c :: after, hcells.symm⟩
  have hupto : before ++ [c] <+: cells := ⟨after, by rw [hcells]; simp⟩
  by_cases hlength : first.length ≤ before.length
  · have hprior := List.prefix_of_prefix_length_le hfirst hbefore hlength
    exact Or.inl ⟨hprior, (length_values_le hprior).trans hlo⟩
  · have hwithin : before ++ [c] <+: first := List.prefix_of_prefix_length_le hupto hfirst (by
      rw [List.length_append, List.length_singleton]; omega)
    have hle := length_values_le hwithin
    rw [values_snoc, List.length_append] at hle
    exact Or.inr ⟨hwithin, by omega⟩

/-- The cells up to the last one a span reads, from one it reads or from where it has begun. -/
theorem reaches_of_last {s : Span α} {base cells upto : List (Cell α)} {v : Cell α} (hcells : base ++ cells = upto ++ [v])
    (hhi : (values upto).length < s.hi)
    (hlo : ∀ before c after, cells = before ++ c :: after → s.lo < (values base).length + (values before).length + c.value.length) :
    ∀ before c after, cells = before ++ c :: after →
      reaches ((values base).length + (values before).length) ((values base).length + (values before).length + c.value.length) s =
        true := by
  intro before c after hsplit
  have hprior : base ++ before <+: upto := by
    have hlength := congrArg List.length hcells
    rw [hsplit] at hlength
    simp only [List.length_append, List.length_cons, List.length_nil] at hlength
    have hwhole : base ++ before <+: upto ++ [v] := ⟨c :: after, by rw [← hcells, hsplit, List.append_assoc]⟩
    exact List.prefix_of_prefix_length_le hwhole (List.prefix_append upto [v]) (by rw [List.length_append]; omega)
  have hle := length_values_le hprior
  rw [values_append, List.length_append] at hle
  rw [reaches, Bool.and_eq_true, decide_eq_true_eq, decide_eq_true_eq]
  exact ⟨hlo before c after hsplit, lt_of_le_of_lt hle hhi⟩

section Step
variable {range : Nat → Nat × Nat} {cells first rest : List (Cell α)} {write : List α → List α} {s : Span α}
  {others : List (Span α)}

/-- One span: the cells up to the last it reads, and what becomes of them. -/
structure Step (range : Nat → Nat × Nat) (cells first rest : List (Cell α)) (write : List α → List α) (s : Span α)
    (others : List (Span α)) (mid after : List (Cell α)) : Prop where
  split : rest = mid ++ after
  hi : max (raws first).length (range (s.hi - 1)).2 = (raws (first ++ mid)).length
  covered : s.hi ≤ (values (first ++ mid)).length
  out : slice (raws cells) (raws first).length (max (raws first).length (range s.lo).1) ++ write s.body ++
      bodies write 0 (values (first ++ mid)).length others =
    bodies write 0 (values first).length (s :: others) ++ maskCells write (s :: others) (values first).length mid

/-- A span that reads only first cells. -/
theorem step_within (hrange : Ranges range cells) (hs : s.lo < s.hi)
    {upto after : List (Cell α)} {v : Cell α} (hv : cells = upto ++ v :: after) (hvlo : (values upto).length ≤ s.hi - 1)
    (hvhi : s.hi - 1 < (values upto).length + v.value.length) (hwithin : upto ++ [v] <+: first)
    (hlo : (range s.lo).1 ≤ (raws first).length) : Step range cells first rest write s others [] rest := by
  have hraw := length_raws_le hwithin
  have hvalue := length_values_le hwithin
  rw [raws_snoc, List.length_append] at hraw
  rw [values_snoc, List.length_append] at hvalue
  have hlast := hrange upto v after (s.hi - 1) hv hvlo hvhi
  have hbegin : begins 0 (values first).length s = true := by
    simp only [begins, Bool.and_eq_true, decide_eq_true_eq]
    omega
  refine ⟨rfl, by rw [hlast, List.append_nil, max_eq_left hraw], by rw [List.append_nil]; omega, ?_⟩
  rw [max_eq_left hlo, slice_self, List.append_nil, List.nil_append, bodies_cons_of_begins hbegin, maskCells, List.append_nil]

theorem begins_zero {s : Span α} {hi : Nat} (h : s.lo < hi) : begins 0 hi s = true := by
  simp [begins, h]

/-- A span that has begun in first cells and goes on after them. -/
theorem step_from {n start : Nat} (hin : InOrder n start (s :: others)) (hs : s.lo < s.hi)
    {m upto after : List (Cell α)} {v : Cell α} (hrest : rest = (m ++ [v]) ++ after) (hupto : upto = first ++ m)
    (hhi : max (raws first).length (range (s.hi - 1)).2 = (raws (upto ++ [v])).length)
    (hvlo : (values upto).length < s.hi) (hcovered : s.hi ≤ (values (upto ++ [v])).length)
    (hlo : (range s.lo).1 ≤ (raws first).length) (hbegun : s.lo < (values first).length) :
    Step range cells first rest write s others (m ++ [v]) after := by
  have hjoin : first ++ (m ++ [v]) = upto ++ [v] := by rw [hupto, List.append_assoc]
  have hhit := reaches_of_last hjoin hvlo fun before c _ _ => by omega
  have hmasked : maskCells write (s :: others) (values first).length (m ++ [v]) = _ :=
    maskCells_hit hin fun before c after hsplit => ⟨s, List.mem_cons_self, hhit before c after hsplit⟩
  rw [← List.length_append, ← values_append, hjoin] at hmasked
  refine ⟨hrest, by rw [hjoin, hhi], by rw [hjoin]; exact hcovered, ?_⟩
  rw [max_eq_left hlo, slice_self, List.nil_append, hmasked, hjoin,
    bodies_append hin (Nat.zero_le _) (length_values_le (hjoin ▸ List.prefix_append first _)),
    bodies_cons_of_begins (begins_zero (by omega))]

/-- A span that begins after some cells it leaves alone. -/
theorem step_after {n start : Nat} (hin : InOrder n start (s :: others)) (hs : s.lo < s.hi)
    {free m before upto after : List (Cell α)} {u v : Cell α} (hcells : cells = first ++ rest)
    (hrest : rest = (free ++ (u :: m)) ++ after) (hbefore : before = first ++ free) (hupto : upto ++ [v] = before ++ (u :: m))
    (hhi : max (raws first).length (range (s.hi - 1)).2 = (raws (upto ++ [v])).length)
    (hvlo : (values upto).length < s.hi) (hcovered : s.hi ≤ (values (upto ++ [v])).length)
    (hlo : (range s.lo).1 = (raws before).length) (hfrom : (values before).length ≤ s.lo)
    (huhi : s.lo < (values before).length + u.value.length) :
    Step range cells first rest write s others (free ++ (u :: m)) after := by
  have hjoin : first ++ (free ++ (u :: m)) = upto ++ [v] := by rw [hupto, hbefore, List.append_assoc]
  have hfirst : first <+: before := ⟨free, hbefore.symm⟩
  have hlate : InOrder n s.lo (s :: others) := ⟨Nat.le_refl _, hin.2⟩
  have hhit := reaches_of_last hupto.symm hvlo fun a c b hsplit => by
    cases a with
    | nil =>
      rw [List.nil_append, List.cons.injEq] at hsplit
      rw [← hsplit.1]
      exact huhi
    | cons d a =>
      rw [List.cons_append, List.cons.injEq] at hsplit
      rw [values_cons, ← hsplit.1, List.length_append]
      omega
  have hmasked : maskCells write (s :: others) (values before).length (u :: m) = _ :=
    maskCells_hit hin fun a c b hsplit => ⟨s, List.mem_cons_self, hhit a c b hsplit⟩
  have hfree : maskCells write (s :: others) (values first).length free = raws free := by
    refine maskCells_free fun t ht => ?_
    rw [← List.length_append, ← values_append, ← hbefore]
    exact hfrom.trans (hlate.start_le ht)
  rw [← List.length_append, ← values_append, ← hupto] at hmasked
  have hkept : slice (raws cells) (raws first).length (raws before).length = raws free := by
    rw [hcells, hrest, List.append_assoc, ← List.append_assoc first, ← hbefore, raws_append, slice, List.take_left' rfl,
      hbefore, raws_append, List.drop_left' rfl]
  refine ⟨hrest, by rw [hjoin, hhi], by rw [hjoin]; exact hcovered, ?_⟩
  rw [hlo, max_eq_right (length_raws_le hfirst), hkept, hjoin, maskCells_append, hfree, ← List.length_append, ← values_append,
    ← hbefore, hmasked, bodies_before hlate ((length_values_le hfirst).trans hfrom), List.nil_append, List.append_assoc,
    ← bodies_cons_of_begins (begins_zero (by omega)),
    ← bodies_append hin (Nat.zero_le _) (length_values_le (hupto ▸ List.prefix_append before _)),
    bodies_before hlate hfrom, List.nil_append]

end Step

theorem exists_step {range : Nat → Nat × Nat} {cells first rest : List (Cell α)} (hrange : Ranges range cells)
    (hcells : cells = first ++ rest) {write : List α → List α} {s : Span α} {others : List (Span α)} {start : Nat}
    (h : InOrder (values cells).length start (s :: others)) (hs : s.lo < s.hi) :
    ∃ mid after, Step range cells first rest write s others mid after := by
  have hn := h.2.2.1
  have hfirst : first <+: cells := ⟨rest, hcells.symm⟩
  obtain ⟨upto, v, after, hv, hvlo, hvhi⟩ := exists_cell (by omega : s.hi - 1 < (values cells).length)
  obtain ⟨before, u, behind, hu, hulo, huhi⟩ := exists_cell (by omega : s.lo < (values cells).length)
  have hlast := hrange upto v after (s.hi - 1) hv hvlo hvhi
  have hbegin := hrange before u behind s.lo hu hulo huhi
  have hupto : upto ++ [v] <+: cells := ⟨after, by rw [hv]; simp⟩
  rcases cell_place hfirst hv hvlo hvhi with ⟨⟨m, hm⟩, hafter⟩ | ⟨hwithin, hin⟩
  · have hend : (range (s.hi - 1)).2 = (raws (upto ++ [v])).length := by
      rw [hlast, raws_snoc, List.length_append]
    have hhi : max (raws first).length (range (s.hi - 1)).2 = (raws (upto ++ [v])).length := by
      rw [hend]
      exact max_eq_right (length_raws_le ((List.prefix_append first m).trans (hm ▸ List.prefix_append upto [v])))
    have hcovered : s.hi ≤ (values (upto ++ [v])).length := by
      rw [values_snoc, List.length_append]
      omega
    have hsplit : first ++ rest = first ++ ((m ++ [v]) ++ after) := by
      rw [← hcells, hv, ← hm]
      simp
    have hrest := List.append_cancel_left hsplit
    rcases cell_place hfirst hu hulo huhi with ⟨⟨free, hfree⟩, hfrom⟩ | ⟨hbegun, hlt⟩
    · rcases cell_place hupto hu hulo huhi with ⟨-, hpast⟩ | ⟨⟨m', hm'⟩, -⟩
      · omega
      · have hjoin : upto ++ [v] = before ++ (u :: m') := by rw [← hm']; simp
        have hmid : m ++ [v] = free ++ (u :: m') := by
          rw [← hm, ← hfree, List.append_assoc, List.append_assoc] at hjoin
          exact List.append_cancel_left hjoin
        rw [hmid] at hrest
        exact ⟨_, _, step_after h hs hcells hrest hfree.symm hjoin hhi (by omega) hcovered (by rw [hbegin]) hulo huhi⟩
    · refine ⟨_, _, step_from h hs hrest hm.symm hhi (by omega) hcovered ?_ hlt⟩
      rw [hbegin]
      exact length_raws_le ((List.prefix_append before [u]).trans hbegun)
  · have hlow : (range s.lo).1 ≤ (raws first).length := by
      rw [hbegin]
      rcases cell_place hfirst hu hulo huhi with ⟨-, hpast⟩ | ⟨hbegun, -⟩
      · omega
      · exact length_raws_le ((List.prefix_append before [u]).trans hbegun)
    exact ⟨_, _, step_within hrange hs hv hvlo hvhi hwithin hlow⟩

/-- Masking places of the text as it is written masks cell by cell. -/
theorem spliceFrom_locate {range : Nat → Nat × Nat} {cells : List (Cell α)} (hrange : Ranges range cells)
    (write : List α → List α) {spans : List (Span α)} {start : Nat} {first rest : List (Cell α)} (hcells : cells = first ++ rest)
    (h : InOrder (values cells).length start spans) (hne : ∀ s ∈ spans, s.lo < s.hi) :
    spliceFrom (raws cells) (raws first).length (locate range write (raws first).length spans) =
      bodies write 0 (values first).length spans ++ maskCells write spans (values first).length rest := by
  induction spans generalizing start first rest with
  | nil =>
    rw [locate, spliceFrom, maskCells_free (by simp), hcells, raws_append, List.drop_left' rfl]
    rfl
  | cons s others ih =>
    have hothers := h.2.2.2
    have hs := hne s List.mem_cons_self
    have hne' : ∀ t ∈ others, t.lo < t.hi := fun t ht => hne t (List.mem_cons_of_mem s ht)
    have hstep : ∃ mid after, Step range cells first rest write s others mid after := exists_step hrange hcells h hs
    obtain ⟨mid, after, hsplit, hhi, hcovered, hout⟩ := hstep
    have hfurther : cells = (first ++ mid) ++ after := by rw [hcells, hsplit, List.append_assoc]
    have hrest := ih hfurther hothers hne'
    rw [locate, hhi]
    change slice _ _ _ ++ write s.body ++ spliceFrom (raws cells) (raws (first ++ mid)).length _ = _
    rw [hrest, ← List.append_assoc, hout, hsplit, maskCells_append, ← maskCells_skip hs hcovered, values_append,
      List.length_append, List.append_assoc]

/-! What a masked text is made of: the cells that stay and the spans, in order. -/

inductive Item (α : Type) where
  | kept (c : Cell α)
  | mask (s : Span α)
  deriving DecidableEq, Repr

namespace Item

def cell? : Item α → Option (Cell α)
  | kept c => some c
  | mask _ => none

def span? : Item α → Option (Span α)
  | kept _ => none
  | mask s => some s

def written (write : List α → List α) : Item α → List α
  | kept c => c.raw
  | mask s => write s.body

end Item

def items (spans : List (Span α)) : Nat → List (Cell α) → List (Item α)
  | _, [] => []
  | place, c :: rest =>
    let stop := place + c.value.length
    (if spans.any (reaches place stop) then (spans.filter (begins place stop)).map Item.mask else [.kept c]) ++
      items spans stop rest

/-- The cells that no span reaches. -/
def freeCells (spans : List (Span α)) : Nat → List (Cell α) → List (Cell α)
  | _, [] => []
  | place, c :: rest =>
    let stop := place + c.value.length
    (if spans.any (reaches place stop) then [] else [c]) ++ freeCells spans stop rest

section Items
variable {spans : List (Span α)}

theorem maskCells_items (write : List α → List α) (spans : List (Span α)) (place : Nat) (cells : List (Cell α)) :
    maskCells write spans place cells = (items spans place cells).flatMap (Item.written write) := by
  induction cells generalizing place with
  | nil => rfl
  | cons c rest ih =>
    rw [maskCells, items, List.flatMap_append, ← ih]
    congr 1
    split
    · rw [List.flatMap_map]
      rfl
    · exact (List.append_nil _).symm

theorem cells_items (spans : List (Span α)) (place : Nat) (cells : List (Cell α)) :
    (items spans place cells).filterMap Item.cell? = freeCells spans place cells := by
  induction cells generalizing place with
  | nil => rfl
  | cons c rest ih =>
    rw [items, freeCells, List.filterMap_append, ih]
    congr 1
    split
    · rw [List.filterMap_map, List.filterMap_eq_nil_iff]
      exact fun _ _ => rfl
    · rfl

theorem begins_reaches {s : Span α} (hs : s.lo < s.hi) {lo hi : Nat} (h : begins lo hi s = true) : reaches lo hi s = true := by
  simp only [begins, reaches, Bool.and_eq_true, decide_eq_true_eq] at h ⊢
  omega

/-- Every span is put in one place. -/
theorem spans_items {n start : Nat} (h : InOrder n start spans) (hne : ∀ s ∈ spans, s.lo < s.hi) (place : Nat)
    (cells : List (Cell α)) :
    (items spans place cells).filterMap Item.span? = spans.filter (begins place (place + (values cells).length)) := by
  induction cells generalizing place with
  | nil =>
    refine (List.filter_eq_nil_iff.mpr fun s _ => ?_).symm
    simp only [begins, values, List.flatMap_nil, List.length_nil, Bool.and_eq_true, decide_eq_true_eq, not_and]
    omega
  | cons c rest ih =>
    have hfirst : ((if spans.any (reaches place (place + c.value.length)) then
        (spans.filter (begins place (place + c.value.length))).map Item.mask else [.kept c]).filterMap Item.span?) =
          spans.filter (begins place (place + c.value.length)) := by
      split
      · rw [List.filterMap_map]
        exact List.filterMap_some
      · rename_i hnone
        refine (List.filter_eq_nil_iff.mpr fun s hs hbegin => hnone ?_).symm
        exact List.any_eq_true.mpr ⟨s, hs, begins_reaches (hne s hs) hbegin⟩
    rw [items, List.filterMap_append, hfirst, ih, begins_append h (Nat.le_add_right _ _) (Nat.le_add_right _ _), values_cons,
      List.length_append, Nat.add_assoc]

theorem spans_items_all {n : Nat} (h : InOrder n 0 spans) (hne : ∀ s ∈ spans, s.lo < s.hi) {cells : List (Cell α)}
    (hn : (values cells).length = n) : (items spans 0 cells).filterMap Item.span? = spans := by
  rw [spans_items h hne, List.filter_eq_self]
  intro s hs
  have := (h.single hs).2.2.1
  have := hne s hs
  simp only [begins, Bool.and_eq_true, decide_eq_true_eq]
  omega

end Items

end XgenSdk.Aligned
