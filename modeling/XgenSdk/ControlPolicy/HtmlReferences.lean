import XgenSdk.ControlPolicy.Html
import XgenSdk.ControlPolicy.Spans
import XgenSdk.Lib.Aligned
import XgenSdk.Lib.Matches
import Mathlib.Data.List.Induction

/-! What is cut from a text with character references, and what is kept. -/
namespace XgenSdk.HtmlReferences
open XgenSdk.Splice XgenSdk.Rules XgenSdk.Html XgenSdk.Spans XgenSdk.Aligned XgenSdk.Matches
variable {unescape : Unescape} {segment : Text}

theorem takeWhile_run {p : Char → Bool} (hp : p ';' = false) {run : Text} (hrun : ∀ c ∈ run, p c = true) (rest : Text) :
    (run ++ ';' :: rest).takeWhile p = run := by
  rw [List.takeWhile_append_of_pos hrun, List.takeWhile_cons_of_neg (by simp [hp]), List.append_nil]

/-- A run and the semicolon that closes it. -/
theorem closedRun_eq_some {p : Char → Bool} (hp : p ';' = false) {least most n : Nat} {s : Text} :
    closedRun p least most s = some n ↔
      ∃ run rest, s = run ++ ';' :: rest ∧ (∀ c ∈ run, p c = true) ∧ least ≤ run.length ∧ run.length ≤ most ∧
        n = run.length + 1 := by
  constructor
  · intro h
    unfold closedRun at h
    simp only [] at h
    split at h
    · rename_i hrun
      obtain ⟨hleast, hmost, hclose⟩ := hrun
      obtain ⟨rest, hrest⟩ := List.head?_eq_some_iff.mp hclose
      refine ⟨s.takeWhile p, rest, ?_, fun c hc => (List.all_eq_true.mp List.all_takeWhile c hc), hleast, hmost,
        (Option.some.inj h).symm⟩
      rw [← hrest, List.prefix_iff_eq_take.mp (List.takeWhile_prefix p), List.length_take,
        min_eq_left (List.takeWhile_prefix p).length_le, List.take_append_drop]
    · cases h
  · rintro ⟨run, rest, rfl, hrun, hleast, hmost, rfl⟩
    unfold closedRun
    simp only [takeWhile_run hp hrun, List.drop_left' rfl]
    exact if_pos ⟨hleast, hmost, rfl⟩

theorem closedRun_length {p : Char → Bool} (hp : p ';' = false) {least most n : Nat} {s : Text}
    (h : closedRun p least most s = some n) : 0 < n ∧ n ≤ s.length := by
  obtain ⟨run, rest, rfl, -, -, -, rfl⟩ := (closedRun_eq_some hp).mp h
  rw [List.length_append, List.length_cons]
  omega

theorem closedRun_of_take {p : Char → Bool} (hp : p ';' = false) {least most n : Nat} {s t : Text}
    (h : closedRun p least most s = some n) (ht : t.take n = s.take n) : closedRun p least most t = some n := by
  obtain ⟨run, rest, rfl, hrun, hleast, hmost, rfl⟩ := (closedRun_eq_some hp).mp h
  refine (closedRun_eq_some hp).mpr ⟨run, t.drop (run.length + 1), ?_, hrun, hleast, hmost, rfl⟩
  have hfront : (run ++ ';' :: rest).take (run.length + 1) = run ++ [';'] := by
    rw [List.take_append, List.take_of_length_le (Nat.le_succ _), Nat.add_sub_cancel_left]
    rfl
  calc t = t.take (run.length + 1) ++ t.drop (run.length + 1) := (List.take_append_drop _ _).symm
    _ = run ++ ';' :: t.drop (run.length + 1) := by rw [ht, hfront, List.append_assoc, List.singleton_append]

theorem entityLength_bounded : Bounded entityLength := by
  intro s n h
  unfold entityLength at h
  split at h
  · split at h
    all_goals
      obtain ⟨m, hm, rfl⟩ := Option.map_eq_some_iff.mp h
      have := closedRun_length (by rfl) hm
      simp only [List.length_cons] at this ⊢
      omega
  · split at h
    · obtain ⟨m, hm, rfl⟩ := Option.map_eq_some_iff.mp h
      have := closedRun_length (by rfl) hm
      simp only [List.length_cons]
      omega
    · cases h
  · cases h

/-- A character that stands for itself. -/
def plain (c : Char) : Cell Char := ⟨[c], [c]⟩

theorem raws_plain (s : Text) : raws (s.map plain) = s := by
  rw [raws, List.flatMap_map]
  exact List.flatMap_singleton' s

theorem values_plain (s : Text) : values (s.map plain) = s := by
  rw [values, List.flatMap_map]
  exact List.flatMap_singleton' s

/-- A known reference is a cell. -/
def partCells (unescape : Unescape) : Matches.Part Char → List (Cell Char)
  | .single c => [plain c]
  | .found reference =>
    if unescape reference = reference then reference.map plain else [⟨reference, unescape reference⟩]

/-- A segment in plain characters and known references. -/
def cells (unescape : Unescape) (segment : Text) : List (Cell Char) :=
  (parts entityLength segment).flatMap (partCells unescape)

theorem raws_partCells (unescape : Unescape) (part : Matches.Part Char) : raws (partCells unescape part) = part.text := by
  cases part with
  | single c => rfl
  | found reference =>
    rw [partCells]
    split
    · exact raws_plain reference
    · rw [raws_cons, raws, List.flatMap_nil, List.append_nil]
      rfl

theorem values_partCells (unescape : Unescape) (part : Matches.Part Char) :
    values (partCells unescape part) = part.replaced unescape := by
  cases part with
  | single c => rfl
  | found reference =>
    rw [partCells]
    split
    · rename_i hsame
      rw [values_plain, Matches.Part.replaced, hsame]
    · rw [values_cons, values, List.flatMap_nil, List.append_nil]
      rfl

theorem raws_cells (unescape : Unescape) (segment : Text) : raws (cells unescape segment) = segment := by
  rw [raws, cells, List.flatMap_assoc]
  exact (congrArg (List.flatMap · _) (funext (raws_partCells unescape))).trans (parts_text entityLength_bounded segment)

/-- What a segment reads as: its references unescaped one by one. -/
theorem values_cells (unescape : Unescape) (segment : Text) :
    values (cells unescape segment) = sub entityLength unescape segment := by
  rw [values, cells, List.flatMap_assoc]
  exact congrArg (List.flatMap · _) (funext (values_partCells unescape))

/-- A cell is one character or one known reference. -/
def Read (unescape : Unescape) (c : Cell Char) : Prop :=
  (∃ x, c = plain x) ∨
    (entityLength c.raw = some c.raw.length ∧ c.value = unescape c.raw ∧ c.value ≠ c.raw)

theorem cons_of_take {t u : Text} {n : Nat} {c : Char} (h : t.take (n + 1) = c :: u) : ∃ t', t = c :: t' ∧ t'.take n = u := by
  cases t with
  | nil => cases h
  | cons d t =>
    rw [List.take_succ_cons, List.cons.injEq] at h
    exact ⟨t, by rw [h.1], h.2⟩

/-- A reference is read from its own characters only. -/
theorem entityLength_of_take {s t : Text} {n : Nat} (h : entityLength s = some n) (ht : t.take n = s.take n) :
    entityLength t = some n := by
  unfold entityLength at h
  split at h
  · rename_i x s
    split at h
    · rename_i hx
      obtain ⟨m, hm, rfl⟩ := Option.map_eq_some_iff.mp h
      obtain ⟨_, rfl, hhash⟩ := cons_of_take ht
      obtain ⟨_, rfl, hx'⟩ := cons_of_take hhash
      obtain ⟨_, rfl, hdigits⟩ := cons_of_take hx'
      rw [entityLength, if_pos hx, closedRun_of_take (by rfl) hm hdigits]
      rfl
    · rename_i hx
      obtain ⟨m, hm, rfl⟩ := Option.map_eq_some_iff.mp h
      obtain ⟨k, rfl⟩ := Nat.exists_eq_succ_of_ne_zero (closedRun_length (by rfl) hm).1.ne'
      obtain ⟨_, rfl, hhash⟩ := cons_of_take ht
      obtain ⟨_, rfl, hdigits⟩ := cons_of_take hhash
      obtain ⟨_, rfl, -⟩ := cons_of_take hdigits
      rw [entityLength, if_neg hx, closedRun_of_take (by rfl) hm hdigits]
      rfl
  · rename_i c s hc
    split at h
    · rename_i hletter
      obtain ⟨m, hm, rfl⟩ := Option.map_eq_some_iff.mp h
      obtain ⟨_, rfl, hletters⟩ := cons_of_take ht
      obtain ⟨t, rfl, hname⟩ := cons_of_take hletters
      have hne : c ≠ '#' := by
        rintro rfl
        cases hletter
      unfold entityLength
      split
      · rename_i heq
        exact absurd (List.cons.inj (List.cons.inj heq).2).1 hne
      · rename_i heq
        obtain ⟨rfl, rfl⟩ := List.cons.inj (List.cons.inj heq).2
        rw [if_pos hletter, closedRun_of_take (by rfl) hm hname]
        rfl
      · rename_i hno
        exact absurd rfl (hno c t)
    · cases h
  · cases h

theorem read_cells (unescape : Unescape) (segment : Text) : ∀ c ∈ cells unescape segment, Read unescape c := by
  intro c hc
  obtain ⟨part, hpart, hc⟩ := List.mem_flatMap.mp hc
  cases part with
  | single x => exact Or.inl ⟨x, List.mem_singleton.mp hc⟩
  | found reference =>
    rw [partCells] at hc
    split at hc
    · obtain ⟨x, -, rfl⟩ := List.mem_map.mp hc
      exact Or.inl ⟨x, rfl⟩
    · rename_i hknown
      obtain rfl := List.mem_singleton.mp hc
      obtain ⟨rest, hrest⟩ := length_of_mem entityLength_bounded hpart
      exact Or.inr ⟨entityLength_of_take hrest (by rw [List.take_left' rfl, List.take_length]), rfl, hknown⟩

/-! What the loop over the references finds. -/

/-- Where the references lie. -/
def placed : Nat → Nat → List (Cell Char) → List Entity
  | _, _, [] => []
  | lo, rawLo, c :: rest =>
    (if c.value = c.raw then [] else [⟨lo, lo + c.value.length, rawLo, rawLo + c.raw.length⟩]) ++
      placed (lo + c.value.length) (rawLo + c.raw.length) rest

theorem placed_append (lo rawLo : Nat) (a b : List (Cell Char)) :
    placed lo rawLo (a ++ b) = placed lo rawLo a ++ placed (lo + (values a).length) (rawLo + (raws a).length) b := by
  induction a generalizing lo rawLo with
  | nil => rfl
  | cons c a ih =>
    simp only [List.cons_append, placed, ih, values_cons, raws_cons, List.length_append, List.append_assoc, Nat.add_assoc]

theorem placed_plain (lo rawLo : Nat) (s : Text) : placed lo rawLo (s.map plain) = [] := by
  induction s generalizing lo rawLo with
  | nil => rfl
  | cons c s ih =>
    have hplain : (plain c).value = (plain c).raw := rfl
    rw [List.map_cons, placed, if_pos hplain, ih]
    rfl

theorem decodeFrom_spec {fuel pos : Nat} (d : Decoded) (h : (segment.drop pos).length ≤ fuel) :
    decodeFrom unescape segment fuel pos d =
      ⟨d.text ++ values (cells unescape (segment.drop pos)),
        d.entities ++ placed d.text.length pos (cells unescape (segment.drop pos))⟩ := by
  induction fuel generalizing pos d with
  | zero =>
    rw [List.length_eq_zero_iff.mp (Nat.le_zero.mp h)]
    simp [decodeFrom, cells, values, placed]
  | succ fuel ih =>
    rw [decodeFrom]
    cases hdrop : segment.drop pos with
    | nil => simp [cells, values, placed]
    | cons c s =>
      rw [hdrop, List.length_cons] at h
      have hnext (n : Nat) : segment.drop (pos + n) = (c :: s).drop n := by rw [← List.drop_drop, hdrop]
      dsimp only
      cases hn : entityLength (c :: s) with
      | none =>
        dsimp only
        rw [ih _ (by rw [hnext, List.drop_one, List.tail_cons]; omega), hnext, List.drop_one, List.tail_cons]
        rw [cells, cells, parts_of_none hn, List.flatMap_cons, values_append, placed_append]
        simp [partCells, plain, values, raws, placed]
      | some n =>
        have hbounds := entityLength_bounded _ _ hn
        have hrest : (segment.drop (pos + n)).length ≤ fuel := by
          rw [hnext, List.length_drop, List.length_cons]
          omega
        have hslice : slice segment pos (pos + n) = (c :: s).take n := by
          rw [slice, List.drop_take, hdrop, Nat.add_sub_cancel_left]
        have hlength : ((c :: s).take n).length = n := List.length_take_of_le hbounds.2
        dsimp only
        rw [hslice, ih _ hrest, ih _ hrest, hnext, cells, cells, parts_of_some entityLength_bounded hn, List.flatMap_cons,
          values_append, placed_append, values_partCells, raws_partCells, partCells, Matches.Part.replaced, Matches.Part.text, hlength]
        split
        · rename_i hsame
          rw [placed_plain, hsame, List.length_append, hlength, List.append_assoc, List.nil_append]
        · rename_i hknown
          rw [placed, if_neg hknown, hlength, List.length_append, List.append_assoc, List.append_assoc]
          rfl

/-- What a segment reads as, and where its references lie. -/
def decoded (unescape : Unescape) (segment : Text) : Decoded :=
  if segment.contains '&' then decode unescape segment else ⟨segment, []⟩

theorem entityLength_amp {c : Char} (s : Text) (hc : c ≠ '&') : entityLength (c :: s) = none := by
  unfold entityLength
  split
  · rename_i heq
    exact absurd (List.cons.inj heq).1 hc
  · rename_i heq
    exact absurd (List.cons.inj heq).1 hc
  · rfl

theorem parts_plain {length : Text → Option Nat} {s : Text} (h : ∀ c ∈ s, ∀ rest, length (c :: rest) = none) :
    parts length s = s.map Matches.Part.single := by
  induction s with
  | nil => rfl
  | cons c s ih =>
    rw [parts_of_none (h c List.mem_cons_self s), ih fun d hd => h d (List.mem_cons_of_mem c hd), List.map_cons]

theorem cells_plain {s : Text} (hs : '&' ∉ s) : cells unescape s = s.map plain := by
  have hparts : parts entityLength s = s.map Matches.Part.single :=
    parts_plain fun c hc rest => entityLength_amp rest fun heq => hs (heq ▸ hc)
  rw [cells, hparts, List.flatMap_map]
  exact List.flatMap_pure_eq_map plain s

theorem decoded_spec (unescape : Unescape) (segment : Text) :
    decoded unescape segment = ⟨values (cells unescape segment), placed 0 0 (cells unescape segment)⟩ := by
  unfold decoded
  split
  · have h : decodeFrom unescape segment segment.length 0 ⟨[], []⟩ = _ := decodeFrom_spec ⟨[], []⟩ (Nat.le_refl _)
    rw [decode, h]
    rfl
  · rename_i hnone
    have hamp : '&' ∉ segment := fun hmem => hnone (List.elem_eq_true_of_mem hmem)
    rw [cells_plain hamp, values_plain, placed_plain]

/-! From a character of the decoded text to the cell it comes from. -/

theorem placed_bounds {lo rawLo : Nat} {cells : List (Cell Char)} :
    ∀ e ∈ placed lo rawLo cells, lo ≤ e.lo ∧ e.lo ≤ e.hi ∧ e.hi ≤ lo + (values cells).length := by
  induction cells generalizing lo rawLo with
  | nil => exact fun _ he => nomatch he
  | cons c rest ih =>
    intro e he
    rw [values_cons, List.length_append]
    rcases List.mem_append.mp he with he | he
    · split at he
      · cases he
      · obtain rfl := List.mem_singleton.mp he
        dsimp only
        omega
    · have := ih e he
      omega

/-- Behind the last reference all characters are moved by as much as its end is. -/
theorem placed_last {cells : List (Cell Char)} (hread : ∀ c ∈ cells, Read unescape c) :
    match (placed 0 0 cells).getLast? with
    | none => (raws cells).length = (values cells).length
    | some e => (values cells).length + e.rawHi = (raws cells).length + e.hi := by
  induction cells using List.reverseRecOn with
  | nil => rfl
  | append_singleton cells c ih =>
    have hprior := ih fun d hd => hread d (List.mem_append_left [c] hd)
    rw [placed_append, values_snoc, raws_snoc, List.length_append, List.length_append, Nat.zero_add, Nat.zero_add, placed, placed,
      List.append_nil]
    rcases hread c (List.mem_append_right cells List.mem_cons_self) with ⟨x, rfl⟩ | ⟨-, -, hknown⟩
    · have hplain : (plain x).value = (plain x).raw := rfl
      rw [if_pos hplain, List.append_nil]
      have hone : (plain x).value.length = 1 ∧ (plain x).raw.length = 1 := ⟨rfl, rfl⟩
      cases hlast : (placed 0 0 cells).getLast? with
      | none =>
        rw [hlast] at hprior
        dsimp only at hprior ⊢
        omega
      | some e =>
        rw [hlast] at hprior
        dsimp only at hprior ⊢
        omega
    · rw [if_neg hknown, List.getLast?_concat]
      dsimp only
      omega

/-- `raw_range` gives the cell of a character. -/
theorem rawRange_ranges {cells : List (Cell Char)} (hread : ∀ c ∈ cells, Read unescape c) :
    Ranges (rawRange (placed 0 0 cells)) cells := by
  intro before c after x hcells hlo hhi
  have hbefore : ∀ e ∈ placed 0 0 before, decide (e.lo ≤ x) = true := fun e he => by
    have := placed_bounds e he
    rw [decide_eq_true_eq]
    omega
  have hafter (rawLo : Nat) :
      (placed ((values before).length + c.value.length) rawLo after).takeWhile (fun e => decide (e.lo ≤ x)) = [] := by
    cases hplaced : placed ((values before).length + c.value.length) rawLo after with
    | nil => rfl
    | cons e rest =>
      have := placed_bounds e (hplaced ▸ List.mem_cons_self)
      exact List.takeWhile_cons_of_neg (by rw [decide_eq_true_eq]; omega)
  rw [hcells, placed_append, Nat.zero_add, Nat.zero_add, placed, rawRange, List.takeWhile_append_of_pos hbefore]
  rcases hread c (by rw [hcells]; exact List.mem_append_right before List.mem_cons_self) with ⟨y, rfl⟩ | ⟨-, -, hknown⟩
  · have hplain : (plain y).value = (plain y).raw := rfl
    have hone : (plain y).value.length = 1 ∧ (plain y).raw.length = 1 := ⟨rfl, rfl⟩
    have hprior : ∀ d ∈ before, Read unescape d := fun d hd => hread d (by rw [hcells]; exact List.mem_append_left _ hd)
    have hlast := placed_last hprior
    rw [if_pos hplain, List.nil_append, hafter, List.append_nil]
    cases hend : (placed 0 0 before).getLast? with
    | none =>
      rw [hend] at hlast
      dsimp only at hlast ⊢
      rw [Prod.mk.injEq]
      omega
    | some e =>
      have hin := placed_bounds e (List.mem_of_getLast? hend)
      rw [hend] at hlast
      dsimp only at hlast ⊢
      rw [if_neg (by omega), Prod.mk.injEq]
      omega
  · have htake : ([(⟨(values before).length, (values before).length + c.value.length, (raws before).length,
        (raws before).length + c.raw.length⟩ : Entity)] ++ placed ((values before).length + c.value.length)
          ((raws before).length + c.raw.length) after).takeWhile (fun e : Entity => decide (e.lo ≤ x)) =
        [⟨(values before).length, (values before).length + c.value.length, (raws before).length,
          (raws before).length + c.raw.length⟩] := by
      rw [List.singleton_append, List.takeWhile_cons_of_pos (by exact decide_eq_true hlo), hafter]
    rw [if_neg hknown, htake, List.getLast?_concat]
    dsimp only
    rw [if_pos hhi]

theorem locate_eq (entities : List Entity) (write : Text → Text) (last : Nat) (spans : List (Span Char)) :
    Html.locate entities write last spans = Aligned.locate (rawRange entities) write last spans := by
  induction spans generalizing last with
  | nil => rfl
  | cons s rest ih => rw [Html.locate, Aligned.locate, ih]

theorem locate_length (entities : List Entity) (write : Text → Text) (last : Nat) (spans : List (Span Char)) :
    (Html.locate entities write last spans).length = spans.length := by
  induction spans generalizing last with
  | nil => rfl
  | cons s rest ih => rw [Html.locate, List.length_cons, ih, List.length_cons]

/-! What a text is after it. -/

/-- `_mask_html_text` for a text once its spans are found. -/
def maskSpans (unescape : Unescape) (segment : Text) (spans : List (Span Char)) : Text :=
  splice segment (Html.locate (decoded unescape segment).entities escape 0 spans)

theorem maskHtmlText_text (unescape : Unescape) (segment : Text) (rules : List MaskingRule) :
    maskHtmlText unescape segment rules true =
      (maskSpans unescape segment (findMaskedSpans (decoded unescape segment).text rules),
        (findMaskedSpans (decoded unescape segment).text rules).length) := by
  have hedits : edits unescape segment rules true =
      Html.locate (decoded unescape segment).entities escape 0 (findMaskedSpans (decoded unescape segment).text rules) := by
    unfold edits decoded
    rw [Bool.true_and]
    rfl
  rw [maskHtmlText, hedits, maskSpans]
  cases findMaskedSpans (decoded unescape segment).text rules with
  | nil => simp [Html.locate, splice, spliceFrom]
  | cons s rest => simp [Html.locate, locate_length]

/-- What a text with references becomes: the cells that no span reaches, as they are written, and each span once. -/
structure Masked (unescape : Unescape) (segment : Text) (spans : List (Span Char)) (out : List (Item Char)) : Prop where
  read : ∀ c ∈ cells unescape segment, Read unescape c
  raw : raws (cells unescape segment) = segment
  text : values (cells unescape segment) = (decoded unescape segment).text
  written : maskSpans unescape segment spans = out.flatMap (Item.written escape)
  kept : out.filterMap Item.cell? = freeCells spans 0 (cells unescape segment)
  masks : out.filterMap Item.span? = spans
  run : ∀ rules, findMaskedSpans (decoded unescape segment).text rules = spans →
    maskHtmlText unescape segment rules true = (out.flatMap (Item.written escape), spans.length)

/-- A mask takes whole references with it, and nothing else is lost. -/
theorem references_masked (unescape : Unescape) (segment : Text) (spans : List (Span Char))
    (hin : InOrder (decoded unescape segment).text.length 0 spans) (hne : ∀ s ∈ spans, s.lo < s.hi) :
    Masked unescape segment spans (items spans 0 (cells unescape segment)) := by
  have hdecoded := decoded_spec unescape segment
  have hread := read_cells unescape segment
  rw [hdecoded] at hin
  have hwritten : maskSpans unescape segment spans =
      (items spans 0 (cells unescape segment)).flatMap (Item.written escape) := by
    have hfirst : cells unescape segment = [] ++ cells unescape segment := rfl
    have h := spliceFrom_locate (rawRange_ranges hread) escape hfirst hin hne
    rw [raws_cells] at h
    rw [maskSpans, hdecoded, locate_eq, splice, ← maskCells_items]
    have hnone : bodies escape 0 (values ([] : List (Cell Char))).length spans = [] := bodies_before hin (Nat.le_refl 0)
    rw [hnone] at h
    exact h
  refine ⟨hread, raws_cells unescape segment, by rw [hdecoded], hwritten, cells_items _ _ _, spans_items_all hin hne rfl,
    fun rules hrules => ?_⟩
  rw [maskHtmlText_text, hrules, hwritten]

theorem references_masked_shared :
    Masked (fun r => if r = "&fjlig;".toList then "fj".toList else r) "a&fjlig;&x;b".toList
      [⟨1, 2, "<1>".toList⟩, ⟨2, 3, "2".toList⟩]
      [.kept (plain 'a'), .mask ⟨1, 2, "<1>".toList⟩, .mask ⟨2, 3, "2".toList⟩, .kept (plain '&'), .kept (plain 'x'),
        .kept (plain ';'), .kept (plain 'b')] :=
  references_masked (fun r => if r = "&fjlig;".toList then "fj".toList else r) "a&fjlig;&x;b".toList
    [⟨1, 2, "<1>".toList⟩, ⟨2, 3, "2".toList⟩] (by simp only [InOrder]; decide) (by decide)

end XgenSdk.HtmlReferences
