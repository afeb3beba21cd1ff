import XgenSdk.ControlPolicy.HwpDrafts

/-! The paragraph a rewrite makes: nothing of it is lost, masks stand in place
of what they mask, and old positions keep their order. -/
namespace XgenSdk.Hwp
open XgenSdk.Py.Utf16 XgenSdk.Splice

variable {units : List TextUnit} {spans : List (Span CodePoint)} {d : Draft} {k bound : Nat} {ws : List Word}

theorem foldl_range'_succ {β : Type} (f : β → Nat → β) (x : β) (a n : Nat) :
    (List.range' a (n + 1)).foldl f x = f ((List.range' a n).foldl f x) (a + n) := by
  rw [List.range'_concat, List.foldl_append]
  simp

/-- The ordinary words of the units from `a` up to `b`. -/
def ordinaryBetween (units : List TextUnit) (a b : Nat) : List Word := ordinary (slice units a b)

theorem ordinary_append (xs ys : List TextUnit) : ordinary (xs ++ ys) = ordinary xs ++ ordinary ys := by
  simp [ordinary]

theorem slice_succ {a b : Nat} (hab : a ≤ b) (hb : b < units.length) :
    slice units a (b + 1) = slice units a b ++ [unitAt units b] := by
  have hget : unitAt units b = units[b] := List.getD_eq_getElem _ _ hb
  rw [slice, List.take_succ_eq_append_getElem hb, List.drop_append_of_le_length (by rw [List.length_take]; omega), hget]
  rfl

theorem ordinaryBetween_succ {a b : Nat} (hab : a ≤ b) (hb : b < units.length) :
    ordinaryBetween units a (b + 1) = ordinaryBetween units a b ++
      if (unitAt units b).control then [] else wordsOf (unitAt units b).raw := by
  rw [ordinaryBetween, slice_succ hab hb, ordinary_append]
  congr 1
  cases hcontrol : (unitAt units b).control <;> simp [ordinary, hcontrol]

/-- Copying the units up to a place. -/
theorem Draft.Inv.keepUnits {n : Nat} (h : d.Inv units spans k bound ws) (hok : ∀ u ∈ units, u.Ok)
    (hbound : bound ≤ d.written) (hkn : k ≤ n) (hn : n ≤ units.length) :
    (keepUnits units k n d).Inv units spans n (keepUnits units k n d).written (ws ++ ordinaryBetween units k n) := by
  obtain ⟨m, rfl⟩ := Nat.exists_eq_add_of_le hkn
  unfold Hwp.keepUnits
  rw [Nat.add_sub_cancel_left]
  induction m with
  | zero =>
    have hempty : ordinaryBetween units k (k + 0) = [] := by
      rw [Nat.add_zero, ordinaryBetween, slice_self]
      rfl
    rw [hempty, List.append_nil]
    exact h.weaken hbound
  | succ m ih =>
    have hstep := (ih (by omega) (by omega)).keep hok (by omega : k + m < units.length) (Nat.le_refl _)
    rw [foldl_range'_succ, Nat.add_succ, ordinaryBetween_succ (by omega) (by omega), ← List.append_assoc]
    exact hstep

/-! Inside a masked span. -/

theorem safeMask_ordinary {text : Str} {c : CodePoint} (h : c ∈ safeMask text) : 32 ≤ c.val := by
  obtain ⟨b, -, rfl⟩ := List.mem_map.mp h
  split
  · exact Nat.le_refl 32
  · omega

theorem mem_of_mem_slice {α : Type} {text : List α} {a b : Nat} {x : α} (h : x ∈ slice text a b) : x ∈ text :=
  List.mem_of_mem_take (List.mem_of_mem_drop h)

/-- Words of the mask between two of its characters. -/
def maskWords (replacement : Str) (a b : Nat) : Nat := (encode (slice replacement a b)).length

theorem encoded_half (text : Str) : (encoded text).length / 2 = (encode text).length := by
  rw [encoded, length_bytesOf]
  omega

theorem maskWords_mono (replacement : Str) {a b c : Nat} (hab : a ≤ b) (hbc : b ≤ c) :
    maskWords replacement a b ≤ maskWords replacement a c := by
  unfold maskWords
  rw [← slice_append replacement hab hbc, encode_append, List.length_append]
  omega

theorem maskWords_le_drop (replacement : Str) (a b : Nat) :
    maskWords replacement a b ≤ (encode (replacement.drop a)).length := by
  by_cases hab : a ≤ b
  · rw [← slice_drop replacement hab, encode_append, List.length_append, maskWords]
    omega
  · have hnil : slice replacement a b = [] := by
      rw [slice, List.drop_eq_nil_iff, List.length_take]
      omega
    rw [maskWords, hnil]
    exact Nat.zero_le _

section
variable (R : Rounding) (span : Span CodePoint) (replacement : Str)

/-- Where in the mask a character `offset` characters into the span is removed to. -/
def removedPlace (taken offset : Nat) : Nat :=
  max taken (min replacement.length (R.ratio (offset * replacement.length) (span.hi - span.lo)))

theorem removedPlace_mono (taken : Nat) {a b : Nat} (h : a ≤ b) :
    removedPlace R span replacement taken a ≤ removedPlace R span replacement taken b := by
  have hratio := R.mono (span.hi - span.lo) (Nat.mul_le_mul_right replacement.length h)
  unfold removedPlace
  omega

theorem removedPlace_le_controlPlace (visible : Bool) (taken offset : Nat) :
    removedPlace R span replacement taken offset ≤
      max (controlPlace R visible offset (span.hi - span.lo) replacement.length) taken := by
  have hzero := R.zero (span.hi - span.lo)
  unfold removedPlace controlPlace
  cases visible with
  | true =>
    rw [if_pos rfl]
    split
    · omega
    · split
      · rename_i hoffset
        rw [hoffset, Nat.zero_mul, hzero]
        omega
      · omega
  | false =>
    rw [if_neg Bool.false_ne_true]
    split
    · rename_i hoffset
      rw [hoffset, Nat.zero_mul, hzero]
      omega
    · split <;> omega

/-- What a draft may still reach where the next unit is `offset` characters into the span. -/
def reach (d : Draft) (taken offset : Nat) : Nat :=
  d.written + maskWords replacement taken (removedPlace R span replacement taken offset)

theorem le_removedPlace (taken offset : Nat) : taken ≤ removedPlace R span replacement taken offset :=
  Nat.le_max_left _ _

theorem reach_mono (d : Draft) (taken : Nat) {a b : Nat} (h : a ≤ b) :
    reach R span replacement d taken a ≤ reach R span replacement d taken b := by
  have hwords := maskWords_mono replacement (le_removedPlace R span replacement taken a)
    (removedPlace_mono R span replacement taken h)
  unfold reach
  omega

/-- A masked span before its unit `k`, `offset` characters into it. -/
structure Inside (units : List TextUnit) (spans : List (Span CodePoint)) (ws : List Word) (state : Draft × Nat) (k : Nat) : Prop where
  inv : ∃ bound, state.1.Inv units spans k bound (ws ++ encode (replacement.take state.2)) ∧
    bound ≤ reach R span replacement state.1 state.2 (before textSize units k - span.lo)

end

variable {R : Rounding} {span : Span CodePoint} {replacement : Str}

theorem encode_take_slice (replacement : Str) {a b : Nat} (hab : a ≤ b) :
    encode (replacement.take a) ++ encode (slice replacement a b) = encode (replacement.take b) := by
  have hsplit := slice_append replacement (Nat.zero_le a) hab
  have hzero : ∀ c, slice replacement 0 c = replacement.take c := fun c => rfl
  rw [hzero, hzero] at hsplit
  rw [← encode_append, hsplit]

/-- One unit of a masked span. -/
theorem Inside.step {state : Draft × Nat} (h : Inside R span replacement units spans ws state k)
    (hok : ∀ u ∈ units, u.Ok) (hmask : ∀ c ∈ replacement, 32 ≤ c.val) (hk : k < units.length)
    (hspan : span ∈ spans) (hlo : span.lo ≤ before textSize units k)
    (hhi : (unitAt units k).control = false → before textSize units k < span.hi) :
    Inside R span replacement units spans ws
      (stepUnit R units (startsFrom textSize 0 units) span replacement state k) (k + 1) := by
  obtain ⟨bound, hinv, hreach⟩ := h.inv
  have hoffset : (startsFrom textSize 0 units).getD k 0 = before textSize units k := by
    rw [startsFrom_getD textSize 0 hk, Nat.zero_add]
  have hnext : before textSize units k - span.lo ≤ before textSize units (k + 1) - span.lo := by
    have hmono := before_mono textSize units (by omega : k ≤ k + 1)
    omega
  unfold stepUnit
  dsimp only
  rw [hoffset]
  cases hcontrol : (unitAt units k).control with
  | true =>
    rw [if_pos rfl]
    generalize hplace : max (controlPlace R (!(unitAt units k).text.isEmpty) (before textSize units k - span.lo)
      (span.hi - span.lo) replacement.length) state.2 = place
    have htaken : state.2 ≤ place := by rw [← hplace]; exact Nat.le_max_right _ _
    have hbelow : removedPlace R span replacement state.2 (before textSize units k - span.lo) ≤ place := by
      rw [← hplace]
      exact removedPlace_le_controlPlace R span replacement _ _ _
    have hwords := maskWords_mono replacement (le_removedPlace R span replacement state.2 _) hbelow
    -- the mask up to the place of the control character, which may be nothing
    have hfilled : ∀ filled, filled = (if state.2 < place then
        state.1.emit none (encoded (slice replacement state.2 place)) else state.1) →
        filled.Inv units spans k bound (ws ++ encode (replacement.take place)) ∧ bound ≤ filled.written := by
      intro filled hfilled
      rw [hfilled]
      by_cases hlt : state.2 < place
      · rw [if_pos hlt]
        have hfill := hinv.fill (slice replacement state.2 place)
          (fun c hc => hmask c (mem_of_mem_slice hc))
        rw [List.append_assoc, encode_take_slice replacement htaken] at hfill
        refine ⟨hfill, ?_⟩
        change bound ≤ state.1.written + (encoded (slice replacement state.2 place)).length / 2
        rw [encoded_half]
        unfold reach at hreach
        unfold maskWords at hwords hreach
        omega
      · have hsame : place = state.2 := by omega
        rw [if_neg hlt, hsame]
        refine ⟨hinv, ?_⟩
        have hzero : maskWords replacement state.2 place = 0 := by
          rw [hsame, maskWords, slice_self]
          rfl
        unfold reach at hreach
        omega
    obtain ⟨hfill, hbound⟩ := hfilled _ rfl
    have hkeep := hfill.keep hok hk hbound
    rw [hcontrol, if_pos rfl, List.append_nil] at hkeep
    exact ⟨_, hkeep, Nat.le_add_right _ _⟩
  | false =>
    rw [if_neg Bool.false_ne_true]
    have hremove := hinv.remove hk hcontrol ⟨span, hspan, hlo, hhi hcontrol⟩ hreach
    refine ⟨_, ?_, reach_mono R span replacement state.1 state.2 hnext⟩
    have hhalf : (encoded (slice replacement state.2 (removedPlace R span replacement state.2
        (before textSize units k - span.lo)))).length / 2 = maskWords replacement state.2
        (removedPlace R span replacement state.2 (before textSize units k - span.lo)) := encoded_half _
    change Draft.Inv units spans { state.1 with removedAt := (k, state.1.written + (encoded (slice replacement state.2
      (removedPlace R span replacement state.2 (before textSize units k - span.lo)))).length / 2) :: state.1.removedAt }
      (k + 1) _ _
    rw [hhalf]
    exact hremove

theorem Inside.run {state : Draft × Nat} {n : Nat} (h : Inside R span replacement units spans ws state k)
    (hok : ∀ u ∈ units, u.Ok) (hmask : ∀ c ∈ replacement, 32 ≤ c.val) (hn : k + n ≤ units.length)
    (hspan : span ∈ spans) (hlo : span.lo ≤ before textSize units k)
    (hhi : ∀ j, j < k + n → (unitAt units j).control = false → before textSize units j < span.hi) :
    Inside R span replacement units spans ws
      ((List.range' k n).foldl (stepUnit R units (startsFrom textSize 0 units) span replacement) state) (k + n) := by
  induction n with
  | zero => exact h
  | succ n ih =>
    have hrest := ih (by omega) fun j hj => hhi j (by omega)
    have hmono := before_mono textSize units (by omega : k ≤ k + n)
    rw [foldl_range'_succ]
    exact hrest.step hok hmask (by omega) hspan (by omega) (hhi (k + n) (by omega))

/-- The rest of the mask stands behind the last unit of its span. -/
theorem Inside.flush {state : Draft × Nat} (h : Inside R span replacement units spans ws state k)
    (hmask : ∀ c ∈ replacement, 32 ≤ c.val) {filled : Draft}
    (hfilled : filled = if state.2 < replacement.length then
      state.1.emit none (encoded (replacement.drop state.2)) else state.1) :
    ∃ bound, filled.Inv units spans k bound (ws ++ encode replacement) ∧ bound ≤ filled.written := by
  obtain ⟨bound, hinv, hreach⟩ := h.inv
  have hdrop := maskWords_le_drop replacement state.2
    (removedPlace R span replacement state.2 (before textSize units k - span.lo))
  unfold reach at hreach
  refine ⟨bound, ?_⟩
  rw [hfilled]
  by_cases hlt : state.2 < replacement.length
  · rw [if_pos hlt]
    have hfill := hinv.fill (replacement.drop state.2) fun c hc => hmask c (List.mem_of_mem_drop hc)
    rw [List.append_assoc, ← encode_append, List.take_append_drop] at hfill
    refine ⟨hfill, ?_⟩
    change bound ≤ state.1.written + (encoded (replacement.drop state.2)).length / 2
    rw [encoded_half]
    omega
  · rw [if_neg hlt]
    have hall : replacement.take state.2 = replacement := List.take_of_length_le (by omega)
    have hnil : replacement.drop state.2 = [] := List.drop_eq_nil_iff.mpr (by omega)
    rw [hnil] at hdrop
    rw [hall] at hinv
    refine ⟨hinv, ?_⟩
    simp only [encode, List.flatMap_nil, List.length_nil] at hdrop
    omega

/-! The words of the text. -/

/-- For each character of the text, the ordinary words it stands for. -/
def charWords (units : List TextUnit) : List (List Word) :=
  units.flatMap fun u => u.text.map fun _ => if u.control then [] else wordsOf u.raw

theorem charWords_append (xs ys : List TextUnit) : charWords (xs ++ ys) = charWords xs ++ charWords ys :=
  List.flatMap_append

theorem length_charWords (units : List TextUnit) : (charWords units).length = (units.map textSize).sum := by
  simp only [charWords, List.length_flatMap, List.length_map]
  rfl

/-- An ordinary unit is one character. -/
theorem flatten_charWords {units : List TextUnit} (hok : ∀ u ∈ units, u.Ok) :
    (charWords units).flatten = ordinary units := by
  induction units with
  | nil => rfl
  | cons u units ih =>
    have hrest := ih fun v hv => hok v (List.mem_cons_of_mem _ hv)
    have hu := hok u List.mem_cons_self
    rw [← List.singleton_append, charWords_append, List.flatten_append, hrest, ordinary_append]
    congr 1
    cases hcontrol : u.control with
    | true =>
      have hempty : ∀ x ∈ charWords [u], x = [] := by
        intro x hx
        simp only [charWords, List.flatMap_singleton, hcontrol, if_true, List.mem_map] at hx
        obtain ⟨_, _, rfl⟩ := hx
        rfl
      rw [List.flatten_eq_nil_iff.mpr hempty]
      simp [ordinary, hcontrol]
    | false =>
      obtain ⟨c, hc⟩ := List.length_eq_one_iff.mp (hu.ordinary hcontrol)
      simp [charWords, ordinary, hcontrol, hc]

theorem take_charWords (units : List TextUnit) (k : Nat) :
    (charWords units).take (before textSize units k) = charWords (units.take k) := by
  have hsplit : charWords units = charWords (units.take k) ++ charWords (units.drop k) := by
    rw [← charWords_append, List.take_append_drop]
  have hlen : before textSize units k = (charWords (units.take k)).length := by
    rw [length_charWords]
    rfl
  rw [hsplit, hlen, List.take_left]

/-- The words of the characters between two units are those of the units. -/
theorem flatten_slice_charWords (hok : ∀ u ∈ units, u.Ok) {a b : Nat} (hab : a ≤ b) :
    (slice (charWords units) (before textSize units a) (before textSize units b)).flatten = ordinaryBetween units a b := by
  have hsplit : units.take b = units.take a ++ slice units a b := by
    have h := slice_append units (Nat.zero_le a) hab
    exact h.symm
  have hlen : before textSize units a = (charWords (units.take a)).length := by
    rw [length_charWords]
    rfl
  rw [slice, take_charWords, hsplit, charWords_append, hlen, List.drop_left, ordinaryBetween]
  exact flatten_charWords fun u hu => hok u (mem_of_mem_slice hu)

/-! All spans. -/

/-- A span of the text, over the words of its characters. -/
def wordSpan (s : Span CodePoint) : Span (List Word) := ⟨s.lo, s.hi, [encode (safeMask s.body)]⟩

/-- One span more. -/
theorem rewriteSpan_spec {cursor : Nat} (h : d.Inv units spans cursor bound ws) (hbound : bound ≤ d.written)
    (hok : ∀ u ∈ units, u.Ok) {s : Span CodePoint} (hs : s ∈ spans) (hlo : before textSize units cursor ≤ s.lo)
    (hne : s.lo < s.hi) (hhi : s.hi ≤ (joinedText units).length) :
    ∃ d' last bound', rewriteSpan R units (ownersFrom 0 units) (startsFrom textSize 0 units) (d, cursor) s = (d', last + 1) ∧
      d'.Inv units spans (last + 1) bound'
        (ws ++ (slice (charWords units) (before textSize units cursor) s.lo).flatten ++ encode (safeMask s.body)) ∧
      bound' ≤ d'.written ∧ before textSize units (last + 1) = s.hi := by
  have hvisible : ∀ u ∈ units, u.text.length ≤ 1 := fun u hu => (hok u hu).visible
  obtain ⟨first, hfirst, hownerFirst, hbeforeFirst, hsizeFirst⟩ := @owner_spec 0 s.lo units hvisible (by omega)
  obtain ⟨last, hlast, hownerLast, hbeforeLast, hsizeLast⟩ := @owner_spec 0 (s.hi - 1) units hvisible (by omega)
  have hafterFirst := before_succ textSize hfirst
  have hafterLast := before_succ textSize hlast
  have hcursor : cursor ≤ first := by
    by_contra hgt
    have hmono := before_mono textSize units (by omega : first + 1 ≤ cursor)
    omega
  have horder : first ≤ last := by
    by_contra hgt
    have hmono := before_mono textSize units (by omega : last + 1 ≤ first)
    omega
  obtain ⟨n, hn⟩ : ∃ n, last + 1 = first + n := ⟨last + 1 - first, by omega⟩
  have hkeep := h.keepUnits hok hbound hcursor (by omega : first ≤ units.length)
  have hmask : ∀ c ∈ safeMask s.body, 32 ≤ c.val := fun c hc => safeMask_ordinary hc
  have hstart : Inside R s (safeMask s.body) units spans (ws ++ ordinaryBetween units cursor first)
      (keepUnits units cursor first d, 0) first := by
    refine ⟨_, ?_, Nat.le_add_right _ _⟩
    rw [List.take_zero]
    simpa [encode] using hkeep
  have hrun := hstart.run hok hmask (by omega : first + n ≤ units.length) hs (by omega) fun j hj _ => by
    have hmono := before_mono textSize units (by omega : j ≤ last)
    omega
  obtain ⟨bound', hinv, hle⟩ := hrun.flush hmask rfl
  refine ⟨_, last, bound', ?_, ?_, hle, by omega⟩
  · unfold rewriteSpan
    dsimp only
    rw [hownerFirst, hownerLast, Nat.zero_add, Nat.zero_add, hn, Nat.add_sub_cancel_left]
  · rw [← hbeforeFirst, flatten_slice_charWords hok hcursor, hn]
    exact hinv

/-- The units before `state.2` are written; with the words still to come they are those of the spliced text. -/
structure Draft.Rewritten (units : List TextUnit) (spans rest : List (Span CodePoint)) (state : Draft × Nat) : Prop where
  inv : ∃ bound ws, state.1.Inv units spans state.2 bound ws ∧ bound ≤ state.1.written ∧
    ws ++ (spliceFrom (charWords units) (before textSize units state.2) (rest.map wordSpan)).flatten =
      (splice (charWords units) (spans.map wordSpan)).flatten
  inOrder : InOrder (joinedText units).length (before textSize units state.2) rest
  nonempty : ∀ s ∈ rest, s.lo < s.hi
  among : ∀ s ∈ rest, s ∈ spans

theorem Draft.Rewritten.step {rest : List (Span CodePoint)} {state : Draft × Nat} {s : Span CodePoint}
    (hok : ∀ u ∈ units, u.Ok) (h : Draft.Rewritten units spans (s :: rest) state) :
    Draft.Rewritten units spans rest (rewriteSpan R units (ownersFrom 0 units) (startsFrom textSize 0 units) state s) := by
  obtain ⟨bound, ws, hinv, hbound, hwords⟩ := h.inv
  obtain ⟨hlo, -, hhi, hrest⟩ := h.inOrder
  obtain ⟨d', last, bound', hstate, hinv', hbound', hbefore⟩ := rewriteSpan_spec (R := R) hinv hbound hok
    (h.among s List.mem_cons_self) hlo (h.nonempty s List.mem_cons_self) hhi
  rw [hstate]
  refine ⟨⟨bound', _, hinv', hbound', ?_⟩, ?_, fun t ht => h.nonempty t (List.mem_cons_of_mem _ ht),
    fun t ht => h.among t (List.mem_cons_of_mem _ ht)⟩
  · rw [← hwords, hbefore]
    simp [spliceFrom, wordSpan, List.append_assoc]
  · rw [hbefore]
    exact hrest

theorem Draft.Rewritten.run {rest : List (Span CodePoint)} {state : Draft × Nat} (hok : ∀ u ∈ units, u.Ok)
    (h : Draft.Rewritten units spans rest state) :
    Draft.Rewritten units spans []
      (rest.foldl (rewriteSpan R units (ownersFrom 0 units) (startsFrom textSize 0 units)) state) := by
  induction rest generalizing state with
  | nil => exact h
  | cons s rest ih => exact ih (h.step hok)

/-- The whole rewrite. -/
theorem rewrite_draft (R : Rounding) (hok : ∀ u ∈ units, u.Ok) (hspans : InOrder (joinedText units).length 0 spans)
    (hne : ∀ s ∈ spans, s.lo < s.hi) :
    ∃ d : Draft, rewrite R units (ownersFrom 0 units) spans =
        ⟨d.out, d.written, (units.map wordCount).sum, startsFrom wordCount 0 units, d.newStart, d.removedAt⟩ ∧
      d.Inv units spans units.length d.written (splice (charWords units) (spans.map wordSpan)).flatten := by
  have hstart : Draft.Rewritten units spans spans (⟨[], 0, List.replicate units.length none, []⟩, 0) := by
    have hnone : ∀ j, (List.replicate units.length (none : Option Nat)).getD j none = none := by
      intro j
      rw [List.getD_eq_getElem?_getD, List.getElem?_replicate]
      split <;> rfl
    refine ⟨⟨0, [], ?_, Nat.le_refl 0, rfl⟩, hspans, hne, fun s hs => hs⟩
    refine ⟨Nat.zero_le _, .nil, rfl, List.length_replicate, fun j _ => hnone j, fun j p hp => ?_,
      fun j hj => by omega, fun i j _ hj => by omega, fun j hj => by omega⟩
    rw [hnone j] at hp
    cases hp
  have hrun := hstart.run (R := R) hok
  obtain ⟨bound, ws, hinv, hbound, hwords⟩ := hrun.inv
  have hkeep := hinv.keepUnits hok hbound hinv.within (Nat.le_refl units.length)
  refine ⟨_, rfl, ?_⟩
  rw [← hwords]
  have hrest : (spliceFrom (charWords units) (before textSize units (spans.foldl (rewriteSpan R units (ownersFrom 0 units)
      (startsFrom textSize 0 units)) (⟨[], 0, List.replicate units.length none, []⟩, 0)).2) ([].map wordSpan)).flatten =
      ordinaryBetween units (spans.foldl (rewriteSpan R units (ownersFrom 0 units)
      (startsFrom textSize 0 units)) (⟨[], 0, List.replicate units.length none, []⟩, 0)).2 units.length := by
    rw [← flatten_slice_charWords hok hinv.within, slice]
    congr 1
    rw [List.map_nil, spliceFrom, List.take_of_length_le]
    rw [length_charWords, before, List.take_length]
  rw [hrest]
  exact hkeep

/-! Old positions. -/

theorem bisectRight_startsFrom {size : TextUnit → Nat} {total old : Nat} (hk : k < units.length)
    (hlo : total + before size units k ≤ old) (hhi : old < total + before size units (k + 1)) :
    bisectRight (startsFrom size total units) old = k + 1 := by
  induction units generalizing total k with
  | nil => cases hk
  | cons u units ih =>
    have htotal : total ≤ old := by omega
    rw [bisectRight, startsFrom, List.takeWhile_cons_of_pos (by simpa using htotal), List.length_cons, ← bisectRight]
    cases k with
    | zero =>
      have hnext : old < total + size u := by simpa [before] using hhi
      cases units with
      | nil => rfl
      | cons v units =>
        rw [bisectRight, startsFrom, List.takeWhile_cons_of_neg (by simpa using hnext)]
        rfl
    | succ k =>
      simp only [before, List.take_succ_cons, List.map_cons, List.sum_cons] at hlo hhi
      rw [ih (by simpa using hk) (by rw [before]; omega) (by rw [before]; omega)]

theorem exists_unit_at {size : TextUnit → Nat} {n old : Nat} (h : old < before size units n) :
    ∃ k, k < n ∧ before size units k ≤ old ∧ old < before size units (k + 1) := by
  induction n with
  | zero => simp [before] at h
  | succ n ih =>
    by_cases hn : old < before size units n
    · obtain ⟨k, hk, hat⟩ := ih hn
      exact ⟨k, by omega, hat⟩
    · exact ⟨n, by omega, by omega, h⟩

/-- A control character, or an ordinary one in no span. -/
def Kept (units : List TextUnit) (spans : List (Span CodePoint)) (k : Nat) : Prop :=
  (unitAt units k).control = true ∨
    ∀ s ∈ spans, ¬ (s.lo ≤ before textSize units k ∧ before textSize units k < s.hi)

/-- A rewritten paragraph: what it holds when it is read again, where its units are, and where old positions go. -/
structure Faithful (units : List TextUnit) (spans : List (Span CodePoint)) (r : Rewrite) : Prop where
  parsed : ∃ after, parseUnits r.payload = .ok after ∧ controls after = controls units ∧
    ordinary after = (splice (charWords units) (spans.map wordSpan)).flatten
  kept : ∀ k, k < units.length → Kept units spans k →
    2 * r.position (before wordCount units k) + (unitAt units k).raw.length ≤ r.payload.length ∧
    (r.payload.drop (2 * r.position (before wordCount units k))).take (unitAt units k).raw.length = (unitAt units k).raw
  ordered : ∀ i j, i < j → j < units.length → Kept units spans i → Kept units spans j →
    r.position (before wordCount units i) + wordCount (unitAt units i) ≤ r.position (before wordCount units j)
  total : r.payload.length = 2 * r.newTotal
  monotone : ∀ a b, a ≤ b → r.position a ≤ r.position b
  tail : ∀ k, r.position ((units.map wordCount).sum + k) = r.newTotal + k

/-- The positions of a finished draft. -/
def Draft.finished (d : Draft) (units : List TextUnit) : Rewrite :=
  ⟨d.out, d.written, (units.map wordCount).sum, startsFrom wordCount 0 units, d.newStart, d.removedAt⟩

theorem before_length (size : TextUnit → Nat) (units : List TextUnit) :
    before size units units.length = (units.map size).sum := by
  rw [before, List.take_length]

theorem position_of_unit {old : Nat} (hk : k < units.length) (hlo : before wordCount units k ≤ old)
    (hhi : old < before wordCount units (k + 1)) :
    (d.finished units).position old = match d.newStart.getD k none with
      | none => (d.removedAt.lookup k).getD 0
      | some p => p + (old - before wordCount units k) := by
  have hbisect : bisectRight (startsFrom wordCount 0 units) old = k + 1 :=
    bisectRight_startsFrom hk (by omega) (by omega)
  have hstart : (startsFrom wordCount 0 units).getD k 0 = before wordCount units k := by
    rw [startsFrom_getD wordCount 0 hk, Nat.zero_add]
  have hmono := before_mono wordCount units (by omega : k + 1 ≤ units.length)
  have hlt : ¬ (units.map wordCount).sum ≤ old := by
    rw [← before_length]
    omega
  unfold Rewrite.position Draft.finished
  dsimp only
  cases hnew : d.newStart.getD k none with
  | none => rw [if_neg hlt, hbisect, Nat.add_sub_cancel, hnew]
  | some p => rw [if_neg hlt, hbisect, Nat.add_sub_cancel, hnew, hstart]

theorem start_le_position {old : Nat} (hk : k < units.length) (hlo : before wordCount units k ≤ old)
    (hhi : old < before wordCount units (k + 1)) :
    d.start k ≤ (d.finished units).position old ∧ (d.finished units).position old ≤ d.stop units k := by
  have hstep := before_succ wordCount hk
  rw [position_of_unit hk hlo hhi]
  unfold Draft.start Draft.stop
  cases d.newStart.getD k none with
  | none => exact ⟨Nat.le_refl _, Nat.le_refl _⟩
  | some p => exact ⟨Nat.le_add_right _ _, Nat.add_le_add_left (by omega) p⟩

theorem position_tail (d : Draft) (units : List TextUnit) {old : Nat} (h : (units.map wordCount).sum ≤ old) :
    (d.finished units).position old = d.written + (old - (units.map wordCount).sum) := by
  unfold Rewrite.position Draft.finished
  dsimp only
  rw [if_pos h]

theorem position_mono (h : d.Inv units spans units.length d.written ws) {a b : Nat} (hab : a ≤ b) :
    (d.finished units).position a ≤ (d.finished units).position b := by
  have hsum := before_length wordCount units
  by_cases ha : (units.map wordCount).sum ≤ a
  · rw [position_tail d units ha, position_tail d units (ha.trans hab)]
    omega
  · obtain ⟨i, hi, hilo, hihi⟩ := exists_unit_at (by omega : a < before wordCount units units.length)
    have hstop := (start_le_position (d := d) hi hilo hihi).2
    by_cases hb : (units.map wordCount).sum ≤ b
    · have hbound := h.bounded i hi
      rw [position_tail d units hb]
      omega
    · obtain ⟨j, hj, hjlo, hjhi⟩ := exists_unit_at (by omega : b < before wordCount units units.length)
      have hstart := (start_le_position (d := d) hj hjlo hjhi).1
      obtain hij | rfl | hji : i < j ∨ i = j ∨ j < i := by omega
      · have hordered := h.ordered i j hij hj
        omega
      · rw [position_of_unit hi hilo hihi, position_of_unit hi hjlo hjhi]
        cases d.newStart.getD i none with
        | none => exact Nat.le_refl _
        | some p => exact Nat.add_le_add_left (by omega) p
      · have hmono := before_mono wordCount units (by omega : j + 1 ≤ i)
        omega

/-- A unit that is kept is where its first position goes. -/
theorem kept_start (h : d.Inv units spans units.length d.written ws) (hok : ∀ u ∈ units, u.Ok) (hk : k < units.length)
    (hkept : Kept units spans k) :
    d.newStart.getD k none = some ((d.finished units).position (before wordCount units k)) := by
  have hget : unitAt units k = units[k] := List.getD_eq_getElem _ _ hk
  have hpos := (hok _ (List.getElem_mem hk)).pos
  rw [← hget] at hpos
  have hstep := before_succ wordCount hk
  have hwide : 0 < wordCount (unitAt units k) := by
    unfold wordCount
    omega
  rw [position_of_unit hk (Nat.le_refl _) (by omega)]
  cases hstart : d.newStart.getD k none with
  | some p => simp
  | none =>
    obtain ⟨hordinary, s, hs, hin⟩ := h.removed k hk hstart
    obtain hcontrol | hout := hkept
    · rw [hcontrol] at hordinary
      cases hordinary
    · exact absurd hin (hout s hs)

/-- A rewrite loses nothing, masks what the spans cover, and keeps old positions in order. -/
theorem rewrite_faithful (R : Rounding) {payload : Bytes} {units : List TextUnit} {spans : List (Span CodePoint)}
    (h : parseUnits payload = .ok units) (hspans : InOrder (paragraphText units).1.length 0 spans)
    (hne : ∀ s ∈ spans, s.lo < s.hi) :
    Faithful units spans (rewrite R units (paragraphText units).2 spans) := by
  have hok := (parseUnits_ok h).ok
  obtain ⟨d, hrewrite, hinv⟩ := rewrite_draft R hok hspans hne
  have hfinished : rewrite R units (paragraphText units).2 spans = d.finished units := hrewrite
  have hkept : ∀ k, k < units.length → Kept units spans k →
      d.newStart.getD k none = some ((d.finished units).position (before wordCount units k)) :=
    fun k hk hkeep => kept_start hinv hok hk hkeep
  rw [hfinished]
  refine ⟨?_, fun k hk hkeep => ?_, fun i j hij hj hi hkeep => ?_, hinv.written, fun a b hab => position_mono hinv hab,
    fun k => ?_⟩
  · obtain ⟨after, hafter, hcontrols, hwords⟩ := hinv.holds.parse
    rw [List.take_length] at hcontrols
    refine ⟨after, ?_, hcontrols, hwords⟩
    have heven := hinv.holds.even
    rw [parseUnits, if_neg (by change ¬ d.out.length % 2 ≠ 0; omega)]
    exact hafter
  · exact hinv.bytes k _ (hkept k hk hkeep)
  · have hstop : d.stop units i = (d.finished units).position (before wordCount units i) + wordCount (unitAt units i) := by
      rw [Draft.stop, hkept i (by omega) hi]
    have hstart : d.start j = (d.finished units).position (before wordCount units j) := by
      rw [Draft.start, hkept j hj hkeep]
    rw [← hstop, ← hstart]
    exact hinv.ordered i j hij hj
  · rw [position_tail d units (Nat.le_add_right _ _), Nat.add_sub_cancel_left]
    rfl

/-- A field that starts between two letters, and the end of the paragraph. -/
def linked : Bytes := [65, 0, 3, 0, 107, 108, 104, 37, 0, 0, 0, 0, 0, 0, 0, 0, 3, 0, 66, 0, 13, 0]

def linkedUnits : List TextUnit :=
  [⟨false, [65, 0], [65]⟩, ⟨true, [3, 0, 107, 108, 104, 37, 0, 0, 0, 0, 0, 0, 0, 0, 3, 0], []⟩,
   ⟨false, [66, 0], [66]⟩, ⟨true, [13, 0], [10]⟩]

theorem parseUnits_linked : parseUnits linked = .ok linkedUnits := by
  have hfirst : firstUnit 65 0 (linked.drop 2) = .ok ⟨false, [65, 0], [65]⟩ := by decide
  have hfield : firstUnit 3 0 (linked.drop 4) =
      .ok ⟨true, [3, 0, 107, 108, 104, 37, 0, 0, 0, 0, 0, 0, 0, 0, 3, 0], []⟩ := by decide
  have hsecond : firstUnit 66 0 (linked.drop 20) = .ok ⟨false, [66, 0], [66]⟩ := by decide
  have hend : firstUnit 13 0 (linked.drop 22) = .ok ⟨true, [13, 0], [10]⟩ := by decide
  simp only [linked, List.drop_succ_cons, List.drop_zero] at hfirst hfield hsecond hend
  rw [parseUnits, linked, if_neg (by decide), unitsFrom, hfirst]
  simp only [List.length_cons, List.length_nil, Nat.reduceAdd, Nat.reduceSub, List.drop_zero]
  rw [unitsFrom, hfield]
  simp only [List.length_cons, List.length_nil, Nat.reduceAdd, Nat.reduceSub, List.drop_succ_cons, List.drop_zero]
  rw [unitsFrom, hsecond]
  simp only [List.length_cons, List.length_nil, Nat.reduceAdd, Nat.reduceSub, List.drop_zero]
  rw [unitsFrom, hend]
  simp only [List.length_cons, List.length_nil, Nat.reduceAdd, Nat.reduceSub, List.drop_zero]
  rw [unitsFrom]
  · rfl
  · intro lo hi rest h
    cases h

theorem rewrite_faithful_linked :
    Faithful linkedUnits [⟨0, 2, [42, 42, 42]⟩]
      (rewrite Rounding.exact linkedUnits (paragraphText linkedUnits).2 [⟨0, 2, [42, 42, 42]⟩]) :=
  rewrite_faithful Rounding.exact parseUnits_linked ⟨by decide, by decide, by decide, trivial⟩
    (by intro s hs; rw [List.mem_singleton.mp hs]; decide)

end XgenSdk.Hwp
