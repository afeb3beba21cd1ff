import XgenSdk.Lib.Splice

/-! Splicing a text that is kept in pieces. A span may reach over several
pieces; each piece takes the share of the span's body that falls to it. -/
namespace XgenSdk.Pieces
open Splice
variable {α : Type}

/-- What goes into the text in place of the elements of a span from one place to another. -/
abbrev Share (α : Type) := Span α → Nat → Nat → List α

/-- The shares on both sides of a place inside a span make up the body. -/
structure Divides (share : Share α) (s : Span α) : Prop where
  whole : share s s.lo s.hi = s.body
  join : ∀ a b, s.lo ≤ a → a ≤ b → s.lo < b → b < s.hi → share s a b ++ share s b s.hi = share s a s.hi

/-- One piece from `cursor` on, with the shares that fall to it. -/
def walk (share : Share α) (piece : List α) (start : Nat) : Nat → List (Span α) → List α
  | cursor, [] => piece.drop (cursor - start)
  | cursor, s :: rest =>
    let stop := start + piece.length
    if s.lo < stop then
      let lo := max s.lo start
      let hi := min s.hi stop
      slice piece (cursor - start) (lo - start) ++ share s lo hi ++
        (if stop < s.hi then piece.drop (hi - start) else walk share piece start hi rest)
    else piece.drop (cursor - start)

/-- The spans that end after a place. -/
def live (place : Nat) (spans : List (Span α)) : List (Span α) := spans.dropWhile fun s => s.hi ≤ place

/-- All pieces, each from its start on. -/
def walkAll (share : Share α) : Nat → List (Span α) → List (List α) → List (List α)
  | _, _, [] => []
  | start, spans, piece :: rest =>
    walk share piece start start (live start spans) ::
      walkAll share (start + piece.length) (live start spans) rest

/-- Spans from a place on; the first may have begun before it. -/
def Ahead (n place : Nat) : List (Span α) → Prop
  | [] => place ≤ n
  | s :: rest => place < s.hi ∧ s.lo < s.hi ∧ s.hi ≤ n ∧ InOrder n s.hi rest ∧ ∀ t ∈ rest, t.lo < t.hi

/-- The text from a place on with the spans replaced, of the first only the share after the place. -/
def remains (share : Share α) (text : List α) (place : Nat) : List (Span α) → List α
  | [] => text.drop place
  | s :: rest => slice text place s.lo ++ share s (max s.lo place) s.hi ++ spliceFrom text s.hi rest

theorem InOrder.ahead {n place : Nat} {spans : List (Span α)} (h : InOrder n place spans) (hplace : place ≤ n)
    (hne : ∀ s ∈ spans, s.lo < s.hi) : Ahead n place spans := by
  cases spans with
  | nil => exact hplace
  | cons s rest =>
    have hs := hne s List.mem_cons_self
    exact ⟨lt_of_le_of_lt h.1 hs, hs, h.2.2.1, h.2.2.2, fun t ht => hne t (List.mem_cons_of_mem s ht)⟩

section Laws
variable {share : Share α} (hshare : ∀ s, Divides share s)
include hshare

theorem remains_eq {text : List α} {n place : Nat} {spans : List (Span α)} (h : InOrder n place spans) :
    remains share text place spans = spliceFrom text place spans := by
  cases spans with
  | nil => rfl
  | cons s rest => rw [remains, spliceFrom, max_eq_left h.1, (hshare s).whole]

end Laws

theorem Ahead.live {n place stop : Nat} {spans : List (Span α)} (h : Ahead n place spans) (hstop : stop ≤ n)
    (hplace : place ≤ stop) : Ahead n stop (live stop spans) := by
  induction spans generalizing place with
  | nil => exact hstop
  | cons s rest ih =>
    obtain ⟨-, hs, hn, hrest, hne⟩ := h
    by_cases hhi : s.hi ≤ stop
    · rw [Pieces.live, List.dropWhile_cons_of_pos (by simpa using hhi)]
      exact ih (InOrder.ahead hrest hn hne) hhi
    · rw [Pieces.live, List.dropWhile_cons_of_neg (by simpa using hhi)]
      exact ⟨by omega, hs, hn, hrest, hne⟩

/-- In order, what ends after a place is what is live there. -/
theorem mem_live {n place start : Nat} {spans : List (Span α)} (h : InOrder n place spans) (hne : ∀ s ∈ spans, s.lo < s.hi)
    {s : Span α} : s ∈ live start spans ↔ s ∈ spans ∧ start < s.hi := by
  induction spans generalizing place with
  | nil => simp [live]
  | cons t rest ih =>
    obtain ⟨-, -, -, hrest⟩ := h
    have hlater : ∀ u ∈ rest, t.hi < u.hi := fun u hu =>
      lt_of_le_of_lt (hrest.start_le hu) (hne u (List.mem_cons_of_mem t hu))
    by_cases ht : t.hi ≤ start
    · rw [live, List.dropWhile_cons_of_pos (by simpa using ht)]
      refine (ih hrest fun u hu => hne u (List.mem_cons_of_mem t hu)).trans ⟨fun hs => ⟨List.mem_cons_of_mem t hs.1, hs.2⟩,
        fun hs => ⟨?_, hs.2⟩⟩
      rcases List.mem_cons.mp hs.1 with rfl | hrest'
      · exact absurd hs.2 (Nat.not_lt.mpr ht)
      · exact hrest'
    · rw [live, List.dropWhile_cons_of_neg (by simpa using ht)]
      refine ⟨fun hs => ⟨hs, ?_⟩, fun hs => hs.1⟩
      rcases List.mem_cons.mp hs with rfl | hrest'
      · exact Nat.not_le.mp ht
      · exact (Nat.not_le.mp ht).trans (hlater s hrest')

theorem InOrder.live {n place : Nat} {spans : List (Span α)} (h : InOrder n place spans) (start : Nat) :
    InOrder n place (live start spans) := by
  induction spans generalizing place with
  | nil => trivial
  | cons s rest ih =>
    by_cases hs : s.hi ≤ start
    · rw [Pieces.live, List.dropWhile_cons_of_pos (by simpa using hs)]
      exact (ih h.2.2.2).weaken (h.1.trans h.2.1)
    · rw [Pieces.live, List.dropWhile_cons_of_neg (by simpa using hs)]
      exact h

theorem slice_eq_nil (text : List α) {a b : Nat} (h : b ≤ a) : slice text a b = [] := by
  rw [slice, List.drop_eq_nil_of_le]
  rw [List.length_take]
  omega

section Piece
variable {text piece : List α} {start : Nat} (hpiece : slice text start (start + piece.length) = piece)
include hpiece

theorem piece_drop {place : Nat} (h : start ≤ place) :
    piece.drop (place - start) = slice text place (start + piece.length) := by
  conv_lhs => rw [← hpiece]
  rw [slice, slice, List.drop_drop, Nat.add_sub_cancel' h]

theorem piece_slice {a b : Nat} (ha : start ≤ a) (hb : start ≤ b) (hstop : b ≤ start + piece.length) :
    slice piece (a - start) (b - start) = slice text a b := by
  conv_lhs => rw [← hpiece]
  rw [slice_slice text start _ _ _ (by omega), Nat.add_sub_cancel' ha, Nat.add_sub_cancel' hb]

/-- A piece, and what remains after it, make up what remained before it. -/
theorem walk_remains {share : Share α} (hshare : ∀ s, Divides share s) {cursor : Nat} {spans : List (Span α)}
    (hlo : start ≤ cursor) (hhi : cursor ≤ start + piece.length) (hahead : Ahead text.length cursor spans)
    (hfirst : cursor = start ∨ InOrder text.length cursor spans) :
    walk share piece start cursor spans ++ remains share text (start + piece.length) (live (start + piece.length) spans) =
      remains share text cursor spans := by
  induction spans generalizing cursor with
  | nil =>
    rw [walk, piece_drop hpiece hlo]
    exact slice_drop text hhi
  | cons s rest ih =>
    obtain ⟨hcursor, hs, hn, hrest, hne⟩ := hahead
    have hbefore : s.lo < cursor → cursor = start := fun h => hfirst.resolve_right fun hin => absurd hin.1 (by omega)
    rw [walk]
    by_cases hin : s.lo < start + piece.length
    · have hmax : max s.lo start = max s.lo cursor := by
        by_cases h : s.lo < cursor
        · rw [hbefore h]
        · omega
      have hkept : slice text cursor (max s.lo start) = slice text cursor s.lo := by
        by_cases h : s.lo < cursor
        · rw [slice_eq_nil text h.le, hbefore h, slice_eq_nil text (by have := hbefore h; omega)]
        · rw [max_eq_left (by omega)]
      rw [if_pos hin]
      dsimp only
      rw [piece_slice hpiece hlo (le_max_right _ _) (max_le hin.le (by omega)), hkept]
      by_cases hover : start + piece.length < s.hi
      · -- the span goes on in the next piece
        rw [if_pos hover, min_eq_right hover.le, live, List.dropWhile_cons_of_neg (by simpa using hover), remains, remains,
          slice_eq_nil text hin.le, max_eq_right hin.le, Nat.add_sub_cancel_left, List.drop_length, ← hmax]
        have hjoin := (hshare s).join (max s.lo start) (start + piece.length) (le_max_left _ _) (max_le hin.le (by omega))
          hin hover
        rw [← hjoin]
        simp only [List.append_nil, List.nil_append, List.append_assoc]
      · have hend : s.hi ≤ start + piece.length := by omega
        have hnext := ih (by omega) hend (InOrder.ahead hrest hn hne) (Or.inr hrest)
        rw [remains_eq hshare hrest] at hnext
        rw [if_neg hover, min_eq_left hend, live, List.dropWhile_cons_of_pos (by simpa using hend), remains, ← hmax,
          ← hnext]
        simp only [List.append_assoc]
        rfl
    · have hstop : start + piece.length ≤ s.lo := by omega
      rw [if_neg hin, piece_drop hpiece hlo, live, List.dropWhile_cons_of_neg (by simpa using by omega), remains, remains,
        max_eq_left hstop, max_eq_left (hhi.trans hstop), ← List.append_assoc, ← List.append_assoc,
        slice_append text hhi hstop]

end Piece

/-- A piece that no live span reaches is kept. -/
theorem walk_untouched (share : Share α) {piece : List α} {start : Nat} {spans : List (Span α)}
    (h : ∀ s ∈ spans.head?, start + piece.length ≤ s.lo) : walk share piece start start spans = piece := by
  cases spans with
  | nil => simp [walk]
  | cons s rest =>
    have hs := h s rfl
    simp [walk, Nat.not_lt.mpr hs]

/-- The pieces one after the other are the text with the spans replaced. -/
theorem walkAll_remains {share : Share α} (hshare : ∀ s, Divides share s) {text : List α} {start : Nat}
    {spans : List (Span α)} {pieces : List (List α)} (htext : text.drop start = pieces.flatten) (hstart : start ≤ text.length)
    (hahead : Ahead text.length start (live start spans)) :
    (walkAll share start spans pieces).flatten = remains share text start (live start spans) := by
  induction pieces generalizing start spans with
  | nil =>
    have hend : text.length ≤ start := by simpa [List.drop_eq_nil_iff] using htext
    cases hlive : live start spans with
    | nil => rw [remains, htext]; rfl
    | cons s rest =>
      rw [hlive] at hahead
      exact absurd (lt_of_lt_of_le hahead.1 hahead.2.2.1) (by omega)
  | cons piece rest ih =>
    rw [List.flatten_cons] at htext
    have hpiece : slice text start (start + piece.length) = piece := by
      rw [slice, List.drop_take, Nat.add_sub_cancel_left, htext, List.take_left']
      rfl
    have hrest : text.drop (start + piece.length) = rest.flatten := by
      rw [← List.drop_drop, htext, List.drop_left']
      rfl
    have hstop : start + piece.length ≤ text.length := by
      have hlength := congrArg List.length htext
      rw [List.length_drop, List.length_append] at hlength
      omega
    rw [walkAll, List.flatten_cons, ih hrest hstop (hahead.live hstop (by omega)),
      walk_remains hpiece hshare (le_refl _) (by omega) hahead (Or.inl rfl)]

theorem live_zero {spans : List (Span α)} (hne : ∀ s ∈ spans, s.lo < s.hi) : live 0 spans = spans := by
  cases spans with
  | nil => rfl
  | cons s rest =>
    have hs := hne s List.mem_cons_self
    rw [live, List.dropWhile_cons_of_neg (by simpa using by omega)]

/-- However a text is cut into pieces, sharing the spans out among them splices the whole. -/
theorem walkAll_flatten {share : Share α} (hshare : ∀ s, Divides share s) {pieces : List (List α)} {spans : List (Span α)}
    (h : InOrder pieces.flatten.length 0 spans) (hne : ∀ s ∈ spans, s.lo < s.hi) :
    (walkAll share 0 spans pieces).flatten = splice pieces.flatten spans := by
  have hlive := live_zero hne
  rw [walkAll_remains hshare rfl (Nat.zero_le _) (by rw [hlive]; exact InOrder.ahead h (Nat.zero_le _) hne), hlive,
    remains_eq hshare h]
  rfl

/-! Which pieces get a new text. -/

/-- A span that has elements on both sides of the start or the end of a piece, or inside it. -/
def Meets (s : Span α) (start stop : Nat) : Prop := s.lo < stop ∧ start < s.hi

/-- The pieces with a new text where a span meets them. -/
def reworked (share : Share α) : Nat → List (Span α) → List (List α) → List (Option (List α))
  | _, _, [] => []
  | start, spans, piece :: rest =>
    (if (live start spans).head?.any fun s => s.lo < start + piece.length then
      some (walk share piece start start (live start spans)) else none) ::
      reworked share (start + piece.length) (live start spans) rest

/-- The pieces with the new texts in. -/
def refilled (pieces : List (List α)) (texts : List (Option (List α))) : List (List α) :=
  List.zipWith (fun piece text => text.getD piece) pieces texts

/-- Where a piece starts. -/
def startAt (pieces : List (List α)) (i : Nat) : Nat := (pieces.take i).flatten.length

theorem startAt_zero (pieces : List (List α)) : startAt pieces 0 = 0 := rfl

theorem startAt_succ (pieces : List (List α)) {i : Nat} (hi : i < pieces.length) :
    startAt pieces (i + 1) = startAt pieces i + pieces[i].length := by
  rw [startAt, startAt, List.take_succ_eq_append_getElem hi, List.flatten_append, List.length_append, List.flatten_singleton]

theorem startAt_all (pieces : List (List α)) : startAt pieces pieces.length = pieces.flatten.length := by
  rw [startAt, List.take_length]

theorem startAt_mono (pieces : List (List α)) {i j : Nat} (h : i ≤ j) : startAt pieces i ≤ startAt pieces j := by
  have hpre : pieces.take i <+: pieces.take j := List.take_prefix_take_left h
  obtain ⟨rest, hrest⟩ := hpre
  rw [startAt, startAt, ← hrest, List.flatten_append, List.length_append]
  exact Nat.le_add_right _ _

/-- Past a piece that is not empty. -/
theorem startAt_lt (pieces : List (List α)) {i j : Nat} (h : i < j) (hi : i < pieces.length) (hne : pieces[i] ≠ []) :
    startAt pieces i < startAt pieces j := by
  have hpos := List.length_pos_iff.mpr hne
  have hnext := startAt_succ pieces hi
  have hle : startAt pieces (i + 1) ≤ startAt pieces j := startAt_mono pieces h
  omega

/-- Behind whatever stands in front, each piece stands where it starts. -/
theorem slice_startAt (front : List α) (pieces : List (List α)) {i : Nat} (hi : i < pieces.length) :
    slice (front ++ pieces.flatten) (front.length + startAt pieces i) (front.length + startAt pieces (i + 1)) = pieces[i] := by
  induction pieces generalizing front i with
  | nil => cases hi
  | cons piece rest ih =>
    cases i with
    | zero =>
      change slice _ (front.length + 0) (front.length + ([piece].flatten).length) = piece
      rw [List.flatten_cons, List.flatten_singleton, Nat.add_zero, slice, ← List.append_assoc,
        List.take_append_of_le_length (by rw [List.length_append]), List.take_of_length_le (by rw [List.length_append]),
        List.drop_left]
    | succ i =>
      have hstart : ∀ j, front.length + startAt (piece :: rest) (j + 1) = (front ++ piece).length + startAt rest j := by
        intro j
        simp only [startAt, List.take_succ_cons, List.flatten_cons, List.length_append]
        omega
      have hrest := ih (front ++ piece) (Nat.lt_of_succ_lt_succ hi)
      rw [hstart, hstart, List.flatten_cons, ← List.append_assoc, hrest]
      rfl

theorem meets_live_iff {n place : Nat} {spans : List (Span α)} (h : InOrder n place spans)
    (hne : ∀ s ∈ spans, s.lo < s.hi) (start stop : Nat) :
    ((live start spans).head?.any fun s => s.lo < stop) = true ↔ ∃ s ∈ spans, Meets s start stop := by
  have hmem : ∀ s, s ∈ live start spans ↔ s ∈ spans ∧ start < s.hi := fun s => mem_live h hne
  have hlive := InOrder.live h start
  cases hcons : live start spans with
  | nil =>
    refine ⟨fun hno => (Bool.false_ne_true hno).elim, fun ⟨s, hs, hmeets⟩ => ?_⟩
    have := (hmem s).mpr ⟨hs, hmeets.2⟩
    rw [hcons] at this
    cases this
  | cons s rest =>
    have hs := (hmem s).mp (by rw [hcons]; exact List.mem_cons_self)
    rw [hcons] at hlive
    simp only [List.head?_cons, Option.any_some, decide_eq_true_eq]
    refine ⟨fun hlo => ⟨s, hs.1, hlo, hs.2⟩, fun ⟨t, ht, hmeets⟩ => ?_⟩
    have htlive := (hmem t).mpr ⟨ht, hmeets.2⟩
    rw [hcons] at htlive
    rcases List.mem_cons.mp htlive with rfl | hrest
    · exact hmeets.1
    · exact lt_of_le_of_lt (hlive.2.1.trans (hlive.2.2.2.start_le hrest)) hmeets.1

theorem length_reworked (share : Share α) (start : Nat) (spans : List (Span α)) (pieces : List (List α)) :
    (reworked share start spans pieces).length = pieces.length := by
  induction pieces generalizing start spans with
  | nil => rfl
  | cons piece rest ih => rw [reworked, List.length_cons, ih, List.length_cons]

theorem reworked_isSome {share : Share α} {n place start : Nat} {spans : List (Span α)} {pieces : List (List α)}
    (h : InOrder n place spans) (hne : ∀ s ∈ spans, s.lo < s.hi) {i : Nat} (hi : i < pieces.length) :
    (((reworked share start spans pieces)[i]?).bind id).isSome = true ↔
      ∃ s ∈ spans, Meets s (start + startAt pieces i) (start + startAt pieces (i + 1)) := by
  induction pieces generalizing start spans i with
  | nil => cases hi
  | cons piece rest ih =>
    cases i with
    | zero =>
      have hiff := meets_live_iff h hne start (start + piece.length)
      simp only [startAt, List.take_zero, List.flatten_nil, List.length_nil, Nat.add_zero, Nat.zero_add,
        List.take_succ_cons, List.flatten_cons, List.append_nil]
      rw [← hiff, reworked, List.getElem?_cons_zero]
      split <;> simp_all
    | succ i =>
      have hstart : ∀ j, start + startAt (piece :: rest) (j + 1) = start + piece.length + startAt rest j := by
        intro j
        simp only [startAt, List.take_succ_cons, List.flatten_cons, List.length_append, Nat.add_assoc]
      have hmem : ∀ s, s ∈ live start spans ↔ s ∈ spans ∧ start < s.hi := fun s => mem_live h hne
      rw [hstart, hstart, reworked, List.getElem?_cons_succ]
      refine (ih (InOrder.live h start) (fun s hs => hne s ((hmem s).mp hs).1) (by simpa using hi)).trans ?_
      exact ⟨fun ⟨s, hs, hmeets⟩ => ⟨s, ((hmem s).mp hs).1, hmeets⟩,
        fun ⟨s, hs, hmeets⟩ => ⟨s, (hmem s).mpr ⟨hs, by have := hmeets.2; omega⟩, hmeets⟩⟩

theorem refilled_reworked (share : Share α) (start : Nat) (spans : List (Span α)) (pieces : List (List α)) :
    refilled pieces (reworked share start spans pieces) = walkAll share start spans pieces := by
  induction pieces generalizing start spans with
  | nil => rfl
  | cons piece rest ih =>
    have hpiece : (if (live start spans).head?.any fun s => s.lo < start + piece.length then
        some (walk share piece start start (live start spans)) else none).getD piece =
        walk share piece start start (live start spans) := by
      split
      · rfl
      · rename_i hno
        rw [Bool.not_eq_true] at hno
        refine (walk_untouched share fun s hs => ?_).symm
        rw [hs] at hno
        simpa using hno
    have hrest := ih (start + piece.length) (live start spans)
    rw [reworked, walkAll, ← hrest]
    exact congrArg (· :: refilled rest (reworked share (start + piece.length) (live start spans) rest)) hpiece

end XgenSdk.Pieces
