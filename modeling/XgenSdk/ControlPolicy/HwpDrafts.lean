import XgenSdk.ControlPolicy.HwpUnits
import Mathlib.Data.List.GetD

/-! What a draft of a rewritten paragraph keeps true while units are copied,
masks written and characters removed. -/
namespace XgenSdk.Hwp
open XgenSdk.Py.Utf16 XgenSdk.Splice

/-! Where units start. -/

/-- The sum of the sizes of the first units. -/
def before (size : TextUnit → Nat) (units : List TextUnit) (k : Nat) : Nat := ((units.take k).map size).sum

theorem before_succ (size : TextUnit → Nat) {units : List TextUnit} {k : Nat} (h : k < units.length) :
    before size units (k + 1) = before size units k + size (unitAt units k) := by
  have hget : unitAt units k = units[k] := List.getD_eq_getElem _ _ h
  rw [before, List.take_succ_eq_append_getElem h, List.map_append, List.sum_append, hget]
  simp [before]

theorem before_mono (size : TextUnit → Nat) (units : List TextUnit) {a b : Nat} (h : a ≤ b) :
    before size units a ≤ before size units b := by
  induction b with
  | zero => rw [Nat.le_zero.mp h]
  | succ b ih =>
    by_cases hab : a = b + 1
    · rw [hab]
    · have hle := ih (by omega)
      by_cases hb : b < units.length
      · have hstep := before_succ size hb
        omega
      · rw [before, before, List.take_of_length_le (by omega : units.length ≤ b + 1)]
        rw [before, before, List.take_of_length_le (by omega : units.length ≤ b)] at hle
        exact hle

theorem startsFrom_getD (size : TextUnit → Nat) (total : Nat) {units : List TextUnit} {k : Nat} (h : k < units.length) :
    (startsFrom size total units).getD k 0 = total + before size units k := by
  induction units generalizing total k with
  | nil => cases h
  | cons u units ih =>
    cases k with
    | zero => simp [startsFrom, before]
    | succ k =>
      rw [startsFrom, List.getD_cons_succ, ih _ (by simpa using h)]
      simp [before, Nat.add_assoc]

def textSize (u : TextUnit) : Nat := u.text.length

/-- A character belongs to the unit that shows it. -/
theorem owner_spec {index c : Nat} {units : List TextUnit} (hvisible : ∀ u ∈ units, u.text.length ≤ 1)
    (hc : c < (joinedText units).length) :
    ∃ k, k < units.length ∧ (ownersFrom index units).getD c 0 = index + k ∧ before textSize units k = c ∧
      textSize (unitAt units k) = 1 := by
  induction units generalizing index c with
  | nil => simp [joinedText] at hc
  | cons u units ih =>
    have hu := hvisible u List.mem_cons_self
    have hrest : ∀ v ∈ units, v.text.length ≤ 1 := fun v hv => hvisible v (List.mem_cons_of_mem _ hv)
    rw [joinedText, List.flatMap_cons, List.length_append] at hc
    obtain hzero | hone : u.text.length = 0 ∨ u.text.length = 1 := by omega
    · obtain ⟨k, hk, howner, hbefore, hsize⟩ := @ih (index + 1) c hrest (by rw [joinedText]; omega)
      refine ⟨k + 1, by simpa using hk, ?_, ?_, hsize⟩
      · have hnil : u.text = [] := List.length_eq_zero_iff.mp hzero
        rw [ownersFrom, hnil, List.map_nil, List.nil_append, howner]
        omega
      · rw [before, List.take_succ_cons, List.map_cons, List.sum_cons, ← hbefore, before, textSize, hzero]
        omega
    · obtain ⟨ch, hch⟩ := List.length_eq_one_iff.mp hone
      cases c with
      | zero =>
        refine ⟨0, by simp, ?_, by simp [before], hone⟩
        rw [ownersFrom, hch]
        simp
      | succ c =>
        obtain ⟨k, hk, howner, hbefore, hsize⟩ := @ih (index + 1) c hrest (by rw [joinedText]; omega)
        refine ⟨k + 1, by simpa using hk, ?_, ?_, hsize⟩
        · rw [ownersFrom, hch, List.map_singleton, List.singleton_append, List.getD_cons_succ, howner]
          omega
        · rw [before, List.take_succ_cons, List.map_cons, List.sum_cons, ← hbefore, before, textSize, hone]
          omega

/-! Positions in a draft. -/

/-- Where a unit begins, or where it was removed. -/
def Draft.start (d : Draft) (j : Nat) : Nat :=
  match d.newStart.getD j none with
  | some p => p
  | none => (d.removedAt.lookup j).getD 0

/-- Where a unit ends; a removed one has no extent. -/
def Draft.stop (d : Draft) (units : List TextUnit) (j : Nat) : Nat :=
  match d.newStart.getD j none with
  | some p => p + wordCount (unitAt units j)
  | none => (d.removedAt.lookup j).getD 0

/-- The first `k` units are written, up to `bound`, with the words `ws` for the ordinary ones. -/
structure Draft.Inv (units : List TextUnit) (spans : List (Span CodePoint)) (d : Draft) (k bound : Nat)
    (ws : List Word) : Prop where
  within : k ≤ units.length
  holds : Holds d.out (controls (units.take k)) ws
  written : d.out.length = 2 * d.written
  length : d.newStart.length = units.length
  later : ∀ j, k ≤ j → d.newStart.getD j none = none
  bytes : ∀ j p, d.newStart.getD j none = some p → 2 * p + (unitAt units j).raw.length ≤ d.out.length ∧
    (d.out.drop (2 * p)).take (unitAt units j).raw.length = (unitAt units j).raw
  removed : ∀ j, j < k → d.newStart.getD j none = none → (unitAt units j).control = false ∧
    ∃ s ∈ spans, s.lo ≤ before textSize units j ∧ before textSize units j < s.hi
  ordered : ∀ i j, i < j → j < k → d.stop units i ≤ d.start j
  bounded : ∀ j, j < k → d.stop units j ≤ bound

variable {units : List TextUnit} {spans : List (Span CodePoint)} {d : Draft} {k bound : Nat} {ws : List Word}

theorem Draft.Inv.weaken (h : d.Inv units spans k bound ws) {wider : Nat} (hwider : bound ≤ wider) :
    d.Inv units spans k wider ws :=
  { h with bounded := fun j hj => (h.bounded j hj).trans hwider }

/-- Writing a mask moves nothing. -/
theorem Draft.Inv.fill (h : d.Inv units spans k bound ws) (text : Str) (htext : ∀ c ∈ text, 32 ≤ c.val) :
    (d.emit none (encoded text)).Inv units spans k bound (ws ++ encode text) := by
  have hwords : ∀ w ∈ encode text, 32 ≤ w.val := by
    intro w hw
    obtain ⟨c, hc, hwc⟩ := List.mem_flatMap.mp hw
    exact encodeOne_ordinary (htext c hc) hwc
  have hlen := length_bytesOf (encode text)
  refine ⟨h.within, ?_, ?_, h.length, h.later, fun j p hp => ?_, h.removed, h.ordered, h.bounded⟩
  · have happend := h.holds.append (Holds.words hwords)
    rw [List.append_nil] at happend
    exact happend
  · have hold := h.written
    change (d.out ++ encoded text).length = 2 * (d.written + (encoded text).length / 2)
    rw [List.length_append, encoded]
    omega
  · obtain ⟨hle, hbytes⟩ := h.bytes j p hp
    change 2 * p + _ ≤ (d.out ++ encoded text).length ∧ ((d.out ++ encoded text).drop (2 * p)).take _ = _
    rw [List.length_append, List.drop_append_of_le_length (by omega), List.take_append_of_le_length
      (by rw [List.length_drop]; omega)]
    exact ⟨by omega, hbytes⟩

theorem controls_take_succ (hk : k < units.length) :
    controls (units.take (k + 1)) = controls (units.take k) ++
      if (unitAt units k).control then [(unitAt units k).raw] else [] := by
  have hget : unitAt units k = units[k] := List.getD_eq_getElem _ _ hk
  rw [controls, List.take_succ_eq_append_getElem hk, List.filter_append, List.map_append, ← controls, hget]
  congr 1
  rw [List.filter_singleton]
  cases units[k].control <;> rfl

theorem lookup_cons_ne {j p : Nat} {l : List (Nat × Nat)} (h : j ≠ k) : ((k, p) :: l).lookup j = l.lookup j := by
  rw [List.lookup_cons]
  have hne : (j == k) = false := by simpa using h
  rw [hne]

/-- Removing an ordinary character of a span. -/
theorem Draft.Inv.remove (h : d.Inv units spans k bound ws) (hk : k < units.length)
    (hordinary : (unitAt units k).control = false)
    (hspan : ∃ s ∈ spans, s.lo ≤ before textSize units k ∧ before textSize units k < s.hi) {p : Nat} (hp : bound ≤ p) :
    Draft.Inv units spans { d with removedAt := (k, p) :: d.removedAt } (k + 1) p ws := by
  have hother : ∀ j, j ≠ k → Draft.start { d with removedAt := (k, p) :: d.removedAt } j = d.start j ∧
      Draft.stop { d with removedAt := (k, p) :: d.removedAt } units j = d.stop units j := by
    intro j hj
    unfold Draft.start Draft.stop
    dsimp only
    rw [lookup_cons_ne hj]
    exact ⟨rfl, rfl⟩
  have hhere : Draft.start { d with removedAt := (k, p) :: d.removedAt } k = p ∧
      Draft.stop { d with removedAt := (k, p) :: d.removedAt } units k = p := by
    unfold Draft.start Draft.stop
    dsimp only
    rw [h.later k (Nat.le_refl k), List.lookup_cons_self]
    exact ⟨rfl, rfl⟩
  refine ⟨hk, ?_, h.written, h.length, fun j hj => h.later j (by omega), h.bytes, fun j hj hnone => ?_,
    fun i j hij hj => ?_, fun j hj => ?_⟩
  · rw [controls_take_succ hk, hordinary]
    simpa using h.holds
  · obtain hlt | rfl : j < k ∨ j = k := by omega
    · exact h.removed j hlt hnone
    · exact ⟨hordinary, hspan⟩
  · obtain hlt | rfl : j < k ∨ j = k := by omega
    · rw [(hother i (by omega)).2, (hother j (by omega)).1]
      exact h.ordered i j hij hlt
    · rw [(hother i (by omega)).2, hhere.1]
      exact (h.bounded i hij).trans hp
  · obtain hlt | rfl : j < k ∨ j = k := by omega
    · rw [(hother j (by omega)).2]
      exact (h.bounded j hlt).trans hp
    · rw [hhere.2]

/-- Copying a unit. -/
theorem Draft.Inv.keep (h : d.Inv units spans k bound ws) (hok : ∀ u ∈ units, u.Ok) (hk : k < units.length)
    (hbound : bound ≤ d.written) :
    (d.emit (some k) (unitAt units k).raw).Inv units spans (k + 1) (d.emit (some k) (unitAt units k).raw).written
      (ws ++ if (unitAt units k).control then [] else wordsOf (unitAt units k).raw) := by
  have hget : unitAt units k = units[k] := List.getD_eq_getElem _ _ hk
  have hu : (unitAt units k).Ok := by
    rw [hget]
    exact hok _ (List.getElem_mem hk)
  have heven := hu.even
  have hwritten := h.written
  have hset : ∀ j, (d.emit (some k) (unitAt units k).raw).newStart.getD j none =
      if j = k then some d.written else d.newStart.getD j none := by
    intro j
    change (d.newStart.set k (some d.written)).getD j none = _
    by_cases hj : j = k
    · rw [if_pos hj, hj, List.getD_eq_getElem _ _ (by rw [List.length_set, h.length]; exact hk), List.getElem_set_self]
    · rw [if_neg hj, List.getD_eq_getElem?_getD, List.getElem?_set_ne (fun h => hj h.symm), ← List.getD_eq_getElem?_getD]
  have hother : ∀ j, j ≠ k → (d.emit (some k) (unitAt units k).raw).start j = d.start j ∧
      (d.emit (some k) (unitAt units k).raw).stop units j = d.stop units j := by
    intro j hj
    unfold Draft.start Draft.stop
    rw [hset j, if_neg hj]
    exact ⟨rfl, rfl⟩
  have hhere : (d.emit (some k) (unitAt units k).raw).start k = d.written ∧
      (d.emit (some k) (unitAt units k).raw).stop units k = d.written + wordCount (unitAt units k) := by
    unfold Draft.start Draft.stop
    rw [hset k, if_pos rfl]
    exact ⟨rfl, rfl⟩
  refine ⟨hk, ?_, ?_, ?_, fun j hj => ?_, fun j p hp => ?_, fun j hj hnone => ?_, fun i j hij hj => ?_, fun j hj => ?_⟩
  · rw [controls_take_succ hk]
    exact h.holds.append hu.holds
  · change (d.out ++ (unitAt units k).raw).length = 2 * (d.written + (unitAt units k).raw.length / 2)
    rw [List.length_append]
    omega
  · change (d.newStart.set k (some d.written)).length = units.length
    rw [List.length_set, h.length]
  · rw [hset j, if_neg (by omega)]
    exact h.later j (by omega)
  · change 2 * p + _ ≤ (d.out ++ (unitAt units k).raw).length ∧ ((d.out ++ (unitAt units k).raw).drop (2 * p)).take _ = _
    rw [hset j] at hp
    by_cases hj : j = k
    · rw [if_pos hj] at hp
      rw [← Option.some.inj hp, hj, ← h.written, List.drop_left, List.take_length, List.length_append]
      exact ⟨Nat.le_refl _, rfl⟩
    · rw [if_neg hj] at hp
      obtain ⟨hle, hbytes⟩ := h.bytes j p hp
      rw [List.length_append, List.drop_append_of_le_length (by omega), List.take_append_of_le_length
        (by rw [List.length_drop]; omega)]
      exact ⟨by omega, hbytes⟩
  · rw [hset j] at hnone
    by_cases hj : j = k
    · rw [if_pos hj] at hnone
      cases hnone
    · rw [if_neg hj] at hnone
      exact h.removed j (by omega) hnone
  · obtain hlt | rfl : j < k ∨ j = k := by omega
    · rw [(hother i (by omega)).2, (hother j (by omega)).1]
      exact h.ordered i j hij hlt
    · rw [(hother i (by omega)).2, hhere.1]
      exact (h.bounded i hij).trans hbound
  · change _ ≤ d.written + wordCount (unitAt units k)
    obtain hlt | rfl : j < k ∨ j = k := by omega
    · rw [(hother j (by omega)).2]
      have hj := h.bounded j hlt
      omega
    · rw [hhere.2]

end XgenSdk.Hwp
