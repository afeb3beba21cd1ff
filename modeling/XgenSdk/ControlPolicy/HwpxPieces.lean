import XgenSdk.ControlPolicy.HwpUnits
import XgenSdk.Lib.Pieces

/-! Masks over a HWPX paragraph. Its text lies in pieces between other
elements, and a mask is spread over the pieces its span covers. -/
namespace XgenSdk.Hwpx
open XgenSdk.Py.Utf16 XgenSdk.Splice XgenSdk.Pieces XgenSdk.Hwp

/-- `mask[a:b]` for the part of a span from `lo` to `hi`. -/
def maskShare (R : Rounding) : Share CodePoint := fun s lo hi =>
  let length := s.hi - s.lo
  let size := s.body.length
  let a := if lo = s.lo then 0 else R.ratio ((lo - s.lo) * size) length
  let b := if hi = s.hi then size else R.ratio ((hi - s.lo) * size) length
  slice s.body a b

/-- The spans from where the loop over a piece that ends at `stop` leaves them. -/
def left (stop : Nat) : List (Span CodePoint) → List (Span CodePoint)
  | [] => []
  | s :: rest => if s.lo < stop then (if stop < s.hi then s :: rest else left stop rest) else s :: rest

/-- `k > first or (k < len(spans) and spans[k][0] < end)`. -/
def touched (stop : Nat) (spans : List (Span CodePoint)) : Bool :=
  (left stop spans).length < spans.length || (left stop spans).head?.any fun s => s.lo < stop

/-- From the piece that starts at `start` on. -/
def distributeFrom (R : Rounding) : Nat → List (Span CodePoint) → List Str → List (Option Str)
  | _, _, [] => []
  | start, spans, piece :: rest =>
    let live := spans.dropWhile fun s => s.hi ≤ start
    let stop := start + piece.length
    (if touched stop live then some (walk (maskShare R) piece start start live) else none) ::
      distributeFrom R stop live rest

/-- `_distribute`: at each piece its new text, where it gets one. -/
def distribute (R : Rounding) (pieces : List Str) (spans : List (Span CodePoint)) : List (Option Str) :=
  distributeFrom R 0 spans pieces

/-- The pieces with the new texts in. -/
def replaced (pieces : List Str) (texts : List (Option Str)) : List Str :=
  List.zipWith (fun piece text => text.getD piece) pieces texts

theorem slice_length (text : Str) (a : Nat) : slice text a text.length = text.drop a := by
  rw [slice, List.take_length]

/-- The cut at the end of a piece is the cut at the start of the next, rounded alike. -/
theorem divides_maskShare (R : Rounding) (s : Span CodePoint) : Divides (maskShare R) s := by
  constructor
  · simp [maskShare, slice_full]
  · intro a b hsa hab hsb hbs
    have hcuts : (if a = s.lo then 0 else R.ratio ((a - s.lo) * s.body.length) (s.hi - s.lo)) ≤
        R.ratio ((b - s.lo) * s.body.length) (s.hi - s.lo) := by
      split
      · exact Nat.zero_le _
      · exact R.mono _ (Nat.mul_le_mul_right _ (by omega))
    simp only [maskShare, hsb.ne', hbs.ne, if_false, if_true, slice_length]
    exact slice_drop s.body hcuts

/-! Which pieces get a new text. -/

/-- A span that has characters on both sides of the start or the end of a piece, or inside it. -/
def Reaches (s : Span CodePoint) (start stop : Nat) : Prop := s.lo < stop ∧ start < s.hi

theorem left_length_le (stop : Nat) (spans : List (Span CodePoint)) : (left stop spans).length ≤ spans.length := by
  induction spans with
  | nil => exact Nat.le_refl _
  | cons s rest ih =>
    rw [left]
    split
    · split
      · exact Nat.le_refl _
      · exact ih.trans (Nat.le_succ _)
    · exact Nat.le_refl _

theorem touched_eq (stop : Nat) (spans : List (Span CodePoint)) :
    touched stop spans = spans.head?.any fun s => s.lo < stop := by
  cases spans with
  | nil => rfl
  | cons s rest =>
    have hle := left_length_le stop rest
    rw [touched, left]
    by_cases hs : s.lo < stop
    · rw [if_pos hs]
      split
      · simp [hs]
      · have hlt : (left stop rest).length < (s :: rest).length := by rw [List.length_cons]; omega
        rw [decide_eq_true hlt]
        simp [hs]
    · simp [hs]

/-- The loop over the pieces gives a new text to those that a span meets. -/
theorem distributeFrom_eq (R : Rounding) (start : Nat) (spans : List (Span CodePoint)) (pieces : List Str) :
    distributeFrom R start spans pieces = reworked (maskShare R) start spans pieces := by
  induction pieces generalizing start spans with
  | nil => rfl
  | cons piece rest ih =>
    rw [distributeFrom, reworked, ih]
    rw [touched_eq]
    rfl

/-- Where a piece starts. -/
def startOf (pieces : List Str) (i : Nat) : Nat := (pieces.take i).flatten.length

/-! What the pieces are afterwards. -/

theorem startOf_succ {pieces : List Str} {i : Nat} {piece : Str} (h : pieces[i]? = some piece) :
    startOf pieces (i + 1) = startOf pieces i + piece.length := by
  rw [startOf, startOf, List.take_add_one, h]
  simp

/-- A span reaches over a piece that is not empty where they have a character in common. -/
theorem reaches_iff {s : Span CodePoint} {start stop : Nat} (hs : s.lo < s.hi) (hpiece : start < stop) :
    Reaches s start stop ↔ ∃ x, start ≤ x ∧ x < stop ∧ s.lo ≤ x ∧ x < s.hi :=
  ⟨fun ⟨hlo, hhi⟩ => ⟨max s.lo start, le_max_right _ _, max_lt hlo hpiece, le_max_left _ _, max_lt hs hhi⟩,
    fun ⟨_, hstart, hstop, hlo, hhi⟩ => ⟨lt_of_le_of_lt hlo hstop, lt_of_le_of_lt hstart hhi⟩⟩

/-- An empty piece stays empty, even inside a span. -/
theorem distributeFrom_empty {R : Rounding} {start : Nat} {spans : List (Span CodePoint)} {pieces : List Str} {i : Nat}
    {text : Str} (hpiece : pieces[i]? = some []) (htext : (distributeFrom R start spans pieces)[i]? = some (some text)) :
    text = [] := by
  induction pieces generalizing start spans i with
  | nil => cases hpiece
  | cons piece rest ih =>
    cases i with
    | succ i => exact ih hpiece htext
    | zero =>
      cases hpiece
      rw [distributeFrom, List.getElem?_cons_zero] at htext
      change some (if touched start (live start spans) = true then
        some (walk (maskShare R) [] start start (live start spans)) else none) = _ at htext
      split at htext
      · rename_i htouched
        cases hlive : live start spans with
        | nil => rw [hlive] at htouched; cases htouched
        | cons s others =>
          rw [touched_eq, hlive] at htouched
          have hlo : s.lo < start := by simpa using htouched
          have hhi : start < s.hi := by
            have hhead := List.head?_dropWhile_not (fun s : Span CodePoint => decide (s.hi ≤ start)) spans
            have hcons : (spans.dropWhile fun s => decide (s.hi ≤ start)) = s :: others := hlive
            rw [hcons] at hhead
            simpa using hhead
          rw [hlive, Option.some.injEq, Option.some.injEq, walk] at htext
          rw [← htext]
          simp only [List.length_nil, Nat.add_zero, if_pos hlo, max_eq_right hlo.le, min_eq_right hhi.le, if_pos hhi,
            maskShare, hlo.ne', hhi.ne, if_false, slice_self, Nat.sub_self, List.drop_nil, List.append_nil]
      · cases htext

/-- A mask is spread over the pieces without loss: together they read as the text with the spans replaced. -/
theorem distribute_faithful (R : Rounding) {pieces : List Str} {spans : List (Span CodePoint)}
    (h : InOrder pieces.flatten.length 0 spans) (hne : ∀ s ∈ spans, s.lo < s.hi) :
    (distribute R pieces spans).length = pieces.length ∧
    (∀ i < pieces.length, (((distribute R pieces spans)[i]?).bind id).isSome = true ↔
      ∃ s ∈ spans, Reaches s (startOf pieces i) (startOf pieces (i + 1))) ∧
    (∀ (i : Nat) (piece : Str), pieces[i]? = some piece → piece ≠ [] →
      ((((distribute R pieces spans)[i]?).bind id).isSome = true ↔
        ∃ s ∈ spans, ∃ x, startOf pieces i ≤ x ∧ x < startOf pieces (i + 1) ∧ s.lo ≤ x ∧ x < s.hi)) ∧
    (∀ (i : Nat) (text : Str), pieces[i]? = some [] → (distribute R pieces spans)[i]? = some (some text) → text = []) ∧
    (replaced pieces (distribute R pieces spans)).flatten = splice pieces.flatten spans := by
  have heq : distribute R pieces spans = reworked (maskShare R) 0 spans pieces := distributeFrom_eq R 0 spans pieces
  have hreaches : ∀ i < pieces.length, (((distribute R pieces spans)[i]?).bind id).isSome = true ↔
      ∃ s ∈ spans, Reaches s (startOf pieces i) (startOf pieces (i + 1)) := by
    intro i hi
    have hsome : (((reworked (maskShare R) 0 spans pieces)[i]?).bind id).isSome = true ↔ _ := reworked_isSome h hne hi
    rw [← heq, Nat.zero_add, Nat.zero_add] at hsome
    exact hsome
  refine ⟨by rw [heq, length_reworked], hreaches, fun i piece hpiece hpne => ?_,
    fun i text hpiece htext => distributeFrom_empty hpiece htext, ?_⟩
  · have hlonger : startOf pieces i < startOf pieces (i + 1) := by
      rw [startOf_succ hpiece]
      exact Nat.lt_add_of_pos_right (List.length_pos_iff.mpr hpne)
    rw [hreaches i (List.getElem?_eq_some_iff.mp hpiece).1]
    exact ⟨fun ⟨s, hs, hreach⟩ => ⟨s, hs, (reaches_iff (hne s hs) hlonger).mp hreach⟩,
      fun ⟨s, hs, hshared⟩ => ⟨s, hs, (reaches_iff (hne s hs) hlonger).mpr hshared⟩⟩
  · have hrefilled := refilled_reworked (maskShare R) 0 spans pieces
    rw [heq]
    exact (congrArg List.flatten hrefilled).trans (walkAll_flatten (divides_maskShare R) h hne)

/-- "ab", an empty piece, "cde" and "f"; one span takes "bcd", one "f". -/
def fourPieces : List Str := [[97, 98], [], [99, 100, 101], [102]]

def twoSpans : List (Span CodePoint) := [⟨1, 4, [42, 42, 42, 42, 42]⟩, ⟨5, 6, [45]⟩]

theorem distribute_faithful_fourPieces :
    distribute Rounding.exact fourPieces twoSpans = [some [97, 42, 42], some [], some [42, 42, 42, 101], some [45]] ∧
      (replaced fourPieces (distribute Rounding.exact fourPieces twoSpans)).flatten = splice fourPieces.flatten twoSpans := by
  have hin : InOrder fourPieces.flatten.length 0 twoSpans :=
    ⟨by decide, by decide, by decide, by decide, by decide, by decide, trivial⟩
  exact ⟨by decide, (distribute_faithful Rounding.exact hin (by decide)).2.2.2.2⟩

end XgenSdk.Hwpx
