import XgenSdk.ControlPolicy.HwpParagraph

/-! A masked section has the records it had, each paragraph consistent in
itself, and everything else as it was. -/
namespace XgenSdk.Hwp
open XgenSdk.Py.Utf16 XgenSdk.Py.Struct XgenSdk.Splice

/-! What masking does to a text in a slot: it has as many words as before. -/

theorem utf16Units_eq (text : Str) : utf16Units text = (encode text).length := by
  induction text with
  | nil => rfl
  | cons c text ih =>
    have hone := length_encodeOne c
    change (if 0xFFFF < c.val then 2 else 1) + utf16Units text = (encodeOne c ++ encode text).length
    rw [List.length_append, hone, ih]
    split <;> split <;> omega

theorem utf16Units_cons (c : CodePoint) (text : Str) : utf16Units (c :: text) = utf16Units [c] + utf16Units text := rfl

theorem utf16Units_append (a b : Str) : utf16Units (a ++ b) = utf16Units a + utf16Units b := by
  rw [utf16Units_eq, utf16Units_eq, utf16Units_eq, encode_append, List.length_append]

theorem fit_le {units used : Nat} (h : used ≤ units) (mask : Str) : used + utf16Units (fit units used mask) ≤ units := by
  induction mask generalizing used with
  | nil => exact h
  | cons c mask ih =>
    rw [fit]
    split
    · exact h
    · have hrest := ih (by omega : used + utf16Units [c] ≤ units)
      rw [utf16Units_cons]
      omega

theorem utf16Units_stars (n : Nat) : utf16Units (List.replicate n 42) = n := by
  induction n with
  | zero => rfl
  | succ n ih =>
    have hstar : utf16Units [42] = 1 := by decide
    rw [List.replicate_succ, utf16Units_cons, ih, hstar, Nat.add_comm]

/-- A mask is made as long as what it stands for. -/
theorem utf16Units_fitted (units : Nat) (mask : Str) : utf16Units (fitted units mask) = units := by
  have hfit := fit_le (Nat.zero_le units) (safeMask mask)
  rw [fitted, utf16Units_append, utf16Units_stars]
  omega

theorem utf16Units_fitSpans {text : Str} {last : Nat} {spans : List (Span CodePoint)}
    (h : InOrder text.length last spans) : utf16Units (fitSpans text last spans) = utf16Units (text.drop last) := by
  induction spans generalizing last with
  | nil => rfl
  | cons s spans ih =>
    obtain ⟨hlast, hspan, -, hrest⟩ := h
    rw [fitSpans, utf16Units_append, utf16Units_append, utf16Units_fitted, ih hrest, ← slice_drop text hlast,
      ← slice_drop text hspan, utf16Units_append, utf16Units_append, Nat.add_assoc]

theorem utf16Units_maskSameLength (F : Finder) (text : Str) :
    utf16Units (maskSameLength F text).1 = utf16Units text := by
  unfold maskSameLength
  dsimp only
  split
  · rfl
  · rw [utf16Units_fitSpans (F.inOrder text)]
    rfl

/-- The slot holds a text in which something is masked. -/
def SlotChanges (F : Finder) (r : Record) : Prop :=
  ∃ offset count text, stringSlot r = some offset ∧ wstrAt r.payload offset = some (count, text) ∧ text ≠ [] ∧
    F.find text ≠ []

/-- The record is as before but for the characters of its slot. -/
structure SlotMasked (r out : Record) : Prop where
  repacked : out.raw = none
  dropped : out.dropped = r.dropped
  length : out.payload.length = r.payload.length
  outside : ∀ offset count text, stringSlot r = some offset → wstrAt r.payload offset = some (count, text) →
    out.payload.take (offset + 2) = r.payload.take (offset + 2) ∧
    out.payload.drop (offset + 2 + 2 * count) = r.payload.drop (offset + 2 + 2 * count)

theorem wstrAt_ok {payload : Bytes} {offset count : Nat} {text : Str} (h : wstrAt payload offset = some (count, text)) :
    offset + 2 + count * 2 ≤ payload.length ∧ leBytes 2 count = (payload.drop offset).take 2 ∧ utf16Units text = count := by
  unfold wstrAt at h
  split at h
  · cases h
  · dsimp only at h
    split at h
    · cases h
    · rename_i hshort hfits
      obtain ⟨rfl, rfl⟩ := Prod.mk.inj (Option.some.inj h)
      have htwo : ((payload.drop offset).take 2).length = 2 := by
        rw [List.length_take, List.length_drop]
        omega
      refine ⟨by omega, ?_, ?_⟩
      · have hback := leBytes_leNat ((payload.drop offset).take 2)
        rwa [htwo] at hback
      · rw [utf16Units_eq, encode_decode, length_wordsOf, List.length_take, List.length_drop]
        omega

theorem maskStringSlot_ok {F : Finder} {r out : Record} {hits : Nat} (h : maskStringSlot F r = .ok (out, hits)) :
    (¬ SlotChanges F r ∧ out = r) ∨
      (SlotChanges F r ∧ out.tag = r.tag ∧ out.level = r.level ∧ SlotMasked r out) := by
  unfold maskStringSlot at h
  split at h
  · rename_i hnone
    refine .inl ⟨fun ⟨offset, count, text, hslot, hfound, _, _⟩ => ?_, (Prod.mk.inj (Except.ok.inj h)).1.symm⟩
    rw [hslot, Option.bind_some, hfound] at hnone
    cases hnone
  · rename_i offset count text hsome
    obtain ⟨hslot, hfound⟩ : stringSlot r = some offset ∧ wstrAt r.payload offset = some (count, text) := by
      obtain ⟨at_, hat, hmap⟩ := Option.bind_eq_some_iff.mp hsome
      obtain ⟨found, hfound, hpair⟩ := Option.map_eq_some_iff.mp hmap
      cases hpair
      exact ⟨hat, hfound⟩
    have hsame : ∀ {offset' count' : Nat} {text' : Str}, stringSlot r = some offset' →
        wstrAt r.payload offset' = some (count', text') → offset' = offset ∧ count' = count ∧ text' = text := by
      intro offset' count' text' hslot' hfound'
      obtain rfl : offset = offset' := Option.some.inj (hslot.symm.trans hslot')
      obtain ⟨rfl, rfl⟩ := Prod.mk.inj (Option.some.inj (hfound.symm.trans hfound'))
      exact ⟨rfl, rfl, rfl⟩
    split at h
    · rename_i hempty
      refine .inl ⟨fun ⟨offset', count', text', hslot', hfound', hne, _⟩ => ?_, (Prod.mk.inj (Except.ok.inj h)).1.symm⟩
      rw [(hsame hslot' hfound').2.2] at hne
      exact hne hempty
    · rename_i hne
      dsimp only at h
      have hspans : (maskSameLength F text).2 = (F.find text).length := by
        unfold maskSameLength
        dsimp only
        split
        · rename_i hnil
          rw [hnil]
          rfl
        · rfl
      rw [hspans] at h
      split at h
      · rename_i hzero
        refine .inl ⟨fun ⟨offset', count', text', hslot', hfound', _, hfind⟩ => ?_,
          (Prod.mk.inj (Except.ok.inj h)).1.symm⟩
        rw [(hsame hslot' hfound').2.2] at hfind
        exact hfind (List.length_eq_zero_iff.mp hzero)
      · rename_i hsome'
        obtain ⟨size, hsize, h⟩ := hwpBind_ok h
        obtain ⟨rfl, -⟩ := Prod.mk.inj (Except.ok.inj h)
        obtain ⟨hfits, hcount, hunits⟩ := wstrAt_ok hfound
        have hbody : (encoded (maskSameLength F text).1).length = 2 * count := by
          rw [encoded, length_bytesOf, ← utf16Units_eq, utf16Units_maskSameLength, hunits]
        obtain ⟨-, rfl⟩ := packU16_ok hsize
        have hhalf : (encoded (maskSameLength F text).1).length / 2 = count := by omega
        have hhead : r.payload.take offset ++ leBytes 2 ((encoded (maskSameLength F text).1).length / 2) =
            r.payload.take (offset + 2) := by
          rw [hhalf, hcount, List.take_add]
        have hheadLength : (r.payload.take (offset + 2)).length = offset + 2 := by
          rw [List.length_take]
          omega
        refine .inr ⟨⟨offset, count, text, hslot, hfound, hne, fun hnil => hsome' (by rw [hnil]; rfl)⟩, rfl, rfl, rfl, rfl,
          ?_, fun offset' count' text' hslot' hfound' => ?_⟩
        · change (r.payload.take offset ++ _ ++ _ ++ _).length = _
          rw [hhead, List.length_append, List.length_append, hheadLength, hbody, List.length_drop]
          omega
        · obtain ⟨rfl, rfl, -⟩ := hsame hslot' hfound'
          change (r.payload.take offset' ++ _ ++ _ ++ _).take _ = _ ∧ (r.payload.take offset' ++ _ ++ _ ++ _).drop _ = _
          rw [hhead]
          constructor
          · rw [List.append_assoc, List.take_append_of_le_length (Nat.le_of_eq hheadLength.symm), List.take_take, Nat.min_self]
          · have hcut : (r.payload.take (offset' + 2) ++ encoded (maskSameLength F text).1).length = offset' + 2 + 2 * count' := by
              rw [List.length_append, hheadLength, hbody]
            rw [← hcut, List.drop_left, hcut, Nat.mul_comm 2 count']

/-! The section. -/

variable {R : Rounding} {F : Finder} {before rs out : List Record} {h hits : Nat}

/-- The spans that are masked in the paragraph at `h`. -/
def spansOf (F : Finder) (rs : List Record) (h : Nat) : List (Span CodePoint) :=
  match (childrenOf rs h).lookup paraText with
  | none => []
  | some t =>
    if (recordAt rs h).payload.length < 4 then []
    else
      match parseUnits (recordAt rs t).payload with
      | .error _ => []
      | .ok units => F.find (paragraphText units).1

structure ParagraphChanges (F : Finder) (rs : List Record) (h : Nat) : Prop where
  within : h < rs.length
  header : (recordAt rs h).tag = paraHeader
  spans : spansOf F rs h ≠ []

/-- The header, the text and the shapes of a paragraph that was edited. -/
structure ParagraphEdited (before out : List Record) (h : Nat) : Prop where
  four : 4 ≤ (recordAt before h).payload.length
  header : (recordAt out h).payload.length = (recordAt before h).payload.length
  text : ∃ t total, (childrenOf before h).lookup paraText = some t ∧ (recordAt out t).raw = none ∧
    (recordAt out t).dropped = (recordAt before t).dropped ∧ (recordAt out t).payload.length = 2 * total ∧
    leNat ((recordAt out h).payload.take 4) = (leNat ((recordAt before h).payload.take 4) &&& 0x80000000) ||| total
  shapes : ∀ s, (childrenOf before h).lookup paraCharShape = some s →
    Ascending (pairs (unpackU32s (recordAt out s).payload)) ∧
    (recordAt out s).payload.length = 8 * (pairs (unpackU32s (recordAt out s).payload)).length ∧
    (14 ≤ (recordAt before h).payload.length →
      leNat (((recordAt out h).payload.drop 12).take 2) = (pairs (unpackU32s (recordAt out s).payload)).length)

/-- The records that masking at `h` may change are as it leaves them. -/
structure Settled (F : Finder) (before out : List Record) (h : Nat) : Prop where
  paragraph : ParagraphChanges F before h → ParagraphEdited before out h
  slot : SlotChanges F (recordAt before h) → SlotMasked (recordAt before h) (recordAt out h)
  unchanged : ¬ ParagraphChanges F before h → ¬ SlotChanges F (recordAt before h) →
    ∀ j, Owns before h j → recordAt out j = recordAt before j
  repacked : ∀ j, Owns before h j → recordAt out j = recordAt before j ∨ (recordAt out j).raw = none ∨
    (recordAt out j).dropped = true
  dropped : ∀ j, Owns before h j → ((recordAt out j).dropped = true ↔ (recordAt before j).dropped = true ∨
    ParagraphChanges F before h ∧ (childrenOf before h).lookup paraLineSeg = some j)

theorem owns_part (hheader : (recordAt rs h).tag = paraHeader) {tag j : Nat} (htag : tag ∈ dependents)
    (hfound : (childrenOf rs h).lookup tag = some j) : Owns rs h j := .inl ⟨hheader, .inr ⟨tag, htag, hfound⟩⟩

theorem owns_header (hheader : (recordAt rs h).tag = paraHeader) : Owns rs h h := .inl ⟨hheader, .inl rfl⟩

theorem stringSlot_tag {r : Record} {offset : Nat} (h : stringSlot r = some offset) : r.tag = ctrlHeader ∨ r.tag = eqEdit := by
  unfold stringSlot at h
  dsimp only at h
  split at h
  · rename_i hfield
    simp only [Bool.and_eq_true, decide_eq_true_eq] at hfield
    exact .inl hfield.1.1
  · split at h
    · rename_i hobject
      simp only [Bool.and_eq_true, decide_eq_true_eq] at hobject
      exact .inl hobject.1.1.1
    · split at h
      · rename_i heq
        exact .inr heq
      · cases h

theorem SlotChanges.owns (hslot : SlotChanges F (recordAt rs h)) : Owns rs h h := by
  obtain ⟨offset, count, text, hslot, -⟩ := hslot
  exact .inr ⟨stringSlot_tag hslot, rfl⟩

theorem not_slotChanges (hheader : (recordAt rs h).tag = paraHeader) : ¬ SlotChanges F (recordAt rs h) := by
  intro ⟨offset, count, text, hslot, _⟩
  obtain htag | htag := stringSlot_tag hslot
  · rw [hheader] at htag
    cases htag
  · rw [hheader] at htag
    cases htag

theorem length_of_outline (houtline : outline out = outline rs) : out.length = rs.length := by
  rw [← length_outline, houtline, length_outline]

/-! One record. -/

theorem spansOf_congr (houtline : outline rs = outline before)
    (hsame : ∀ j, Owns before h j → recordAt rs j = recordAt before j) (hheader : (recordAt before h).tag = paraHeader) :
    spansOf F rs h = spansOf F before h := by
  unfold spansOf
  rw [childrenOf_congr houtline]
  cases htext : (childrenOf before h).lookup paraText with
  | none => rfl
  | some t =>
    dsimp only
    rw [hsame h (owns_header hheader), hsame t (owns_part hheader (by decide) htext)]

theorem maskParagraph_ok (h4 : maskParagraph R F rs h = .ok (out, hits)) :
    (spansOf F rs h = [] ∧ out = rs) ∨
      ∃ t units, (childrenOf rs h).lookup paraText = some t ∧ 4 ≤ (recordAt rs h).payload.length ∧
        parseUnits (recordAt rs t).payload = .ok units ∧ spansOf F rs h ≠ [] ∧
        editParagraph (rewrite R units (paragraphText units).2 (F.find (paragraphText units).1)) h t (childrenOf rs h) rs =
          .ok out := by
  unfold maskParagraph at h4
  unfold spansOf
  dsimp only at h4
  cases htext : (childrenOf rs h).lookup paraText with
  | none =>
    rw [htext] at h4
    exact .inl ⟨rfl, (Prod.mk.inj (Except.ok.inj h4)).1.symm⟩
  | some t =>
    rw [htext] at h4
    dsimp only at h4 ⊢
    by_cases hshort : (recordAt rs h).payload.length < 4
    · rw [if_pos hshort] at h4 ⊢
      exact .inl ⟨rfl, (Prod.mk.inj (Except.ok.inj h4)).1.symm⟩
    · rw [if_neg hshort] at h4 ⊢
      cases hunits : parseUnits (recordAt rs t).payload with
      | error e =>
        rw [hunits] at h4
        cases h4
      | ok units =>
        rw [hunits] at h4
        dsimp only at h4 ⊢
        by_cases hnil : F.find (paragraphText units).1 = []
        · rw [if_pos hnil] at h4
          exact .inl ⟨hnil, (Prod.mk.inj (Except.ok.inj h4)).1.symm⟩
        · rw [if_neg hnil] at h4
          obtain ⟨edited, hedited, hpair⟩ := map_ok h4
          obtain ⟨rfl, -⟩ := Prod.mk.inj hpair
          exact .inr ⟨t, units, rfl, by omega, hunits, hnil, hedited⟩

/-- A rewritten text has as many words as its total. -/
theorem length_rewrite {payload : Bytes} {units : List TextUnit} (hunits : parseUnits payload = .ok units) :
    (rewrite R units (paragraphText units).2 (F.find (paragraphText units).1)).payload.length =
      2 * (rewrite R units (paragraphText units).2 (F.find (paragraphText units).1)).newTotal := by
  obtain ⟨d, hrewrite, hinv⟩ := rewrite_draft R (parseUnits_ok hunits).ok (F.inOrder (joinedText units))
    (F.nonempty (joinedText units))
  change (rewrite R units (ownersFrom 0 units) (F.find (joinedText units))).payload.length =
    2 * (rewrite R units (ownersFrom 0 units) (F.find (joinedText units))).newTotal
  rw [hrewrite]
  exact hinv.written

/-- The records around the paragraph at `h` are those it had before. -/
structure Untouched (before rs : List Record) (h : Nat) : Prop where
  outline : outline rs = outline before
  same : ∀ j, Owns before h j → recordAt rs j = recordAt before j

theorem settled_of_same (hsame : ∀ j, Owns before h j → recordAt out j = recordAt before j)
    (hparagraph : ¬ ParagraphChanges F before h) (hslot : ¬ SlotChanges F (recordAt before h)) :
    Settled F before out h where
  paragraph hchange := absurd hchange hparagraph
  slot hchange := absurd hchange hslot
  unchanged _ _ j hj := hsame j hj
  repacked j hj := .inl (hsame j hj)
  dropped j hj := by
    rw [hsame j hj]
    exact ⟨fun hdrop => .inl hdrop, fun hor => hor.elim id fun hchange => absurd hchange.1 hparagraph⟩

/-- An edit of the paragraph at `h`, whose text is at `t`. -/
structure ParagraphEdit (F : Finder) (before rs out : List Record) (h t : Nat) (w : Rewrite) : Prop where
  untouched : Untouched before rs h
  changes : ParagraphChanges F before h
  four : 4 ≤ (recordAt before h).payload.length
  text : (childrenOf before h).lookup paraText = some t
  words : w.payload.length = 2 * w.newTotal
  edited : Edited w h t (childrenOf before h) rs out

namespace ParagraphEdit
variable {t : Nat} {w : Rewrite}

theorem child (e : ParagraphEdit F before rs out h t w) {tag j : Nat} (htag : tag ∈ dependents)
    (hfound : (childrenOf before h).lookup tag = some j) : recordAt rs j = recordAt before j :=
  e.untouched.same j (owns_part e.changes.header htag hfound)

theorem paragraph (e : ParagraphEdit F before rs out h t w) : ParagraphEdited before out h := by
  obtain ⟨head, hhead, hlength, hchars, hcount⟩ := e.edited.header
  rw [e.untouched.same h (owns_header e.changes.header)] at hhead hlength hchars hcount
  refine ⟨e.four, ?_, ⟨t, w.newTotal, e.text, ?_, ?_, ?_, ?_⟩, fun s hs => ?_⟩
  · rw [hhead]
    exact hlength
  · rw [e.edited.text]
    rfl
  · rw [e.edited.text, e.child (by decide) e.text]
    rfl
  · rw [e.edited.text]
    exact e.words
  · rw [hhead]
    exact hchars
  · obtain ⟨payload, hpayload, hpairs, hsize⟩ := e.edited.shapes s hs
    rw [hpayload, hhead]
    change Ascending (pairs (unpackU32s payload)) ∧ payload.length = 8 * (pairs (unpackU32s payload)).length ∧ (_ →
      leNat ((head.drop 12).take 2) = (pairs (unpackU32s payload)).length)
    rw [hpairs]
    exact ⟨movedShapes_ascending _ _, hsize, hcount s hs⟩

/-- The records of the paragraph: the header, and the dependents. -/
theorem cases (e : ParagraphEdit F before rs out h t w) {j : Nat} (hj : Owns before h j) :
    (∃ payload, recordAt out j = (recordAt before j).setPayload payload) ∧ (childrenOf before h).lookup paraLineSeg ≠ some j ∨
      recordAt out j = (recordAt before j).drop ∧ (childrenOf before h).lookup paraLineSeg = some j := by
  have hnotLine : ∀ {tag : Nat}, tag ≠ paraLineSeg → (childrenOf before h).lookup tag = some j →
      (childrenOf before h).lookup paraLineSeg ≠ some j := by
    intro tag hne hfound hline
    rw [← (childrenOf_lookup hfound).tag, (childrenOf_lookup hline).tag] at hne
    exact hne rfl
  obtain ⟨-, rfl | ⟨tag, htag, hfound⟩⟩ | ⟨hslot, -⟩ := hj
  · obtain ⟨head, hhead, -⟩ := e.edited.header
    rw [e.untouched.same j (owns_header e.changes.header)] at hhead
    refine .inl ⟨⟨head, hhead⟩, fun hline => ?_⟩
    have hafter := (childrenOf_lookup hline).after
    omega
  · have hsame := e.child htag hfound
    simp only [dependents, List.mem_cons, List.not_mem_nil, or_false] at htag
    obtain rfl | rfl | rfl | rfl := htag
    · obtain rfl := Option.some.inj (e.text.symm.trans hfound)
      exact .inl ⟨⟨w.payload, by rw [e.edited.text, hsame]⟩, hnotLine (by decide) hfound⟩
    · obtain ⟨payload, hpayload, -⟩ := e.edited.shapes j hfound
      exact .inl ⟨⟨payload, by rw [hpayload, hsame]⟩, hnotLine (by decide) hfound⟩
    · exact .inr ⟨by rw [e.edited.lines j hfound, hsame], hfound⟩
    · obtain ⟨payload, hpayload⟩ := e.edited.ranges j hfound
      exact .inl ⟨⟨payload, by rw [hpayload, hsame]⟩, hnotLine (by decide) hfound⟩
  · rw [e.changes.header] at hslot
    obtain hslot | hslot := hslot <;> cases hslot

theorem settled (e : ParagraphEdit F before rs out h t w) : Settled F before out h where
  paragraph _ := e.paragraph
  slot hslot := absurd hslot (not_slotChanges e.changes.header)
  unchanged hnot := absurd e.changes hnot
  repacked j hj := by
    obtain ⟨⟨payload, hpayload⟩, -⟩ | ⟨hdrop, -⟩ := e.cases hj
    · exact .inr (.inl (by rw [hpayload]; rfl))
    · exact .inr (.inr (by rw [hdrop]; rfl))
  dropped j hj := by
    obtain ⟨⟨payload, hpayload⟩, hnot⟩ | ⟨hdrop, hline⟩ := e.cases hj
    · rw [hpayload]
      exact ⟨.inl, fun hor => hor.elim id fun hline => absurd hline.2 hnot⟩
    · rw [hdrop]
      exact ⟨fun _ => .inr ⟨e.changes, hline⟩, fun _ => rfl⟩

end ParagraphEdit

/-- What masking at `h` does. -/
structure Stepped (F : Finder) (before rs out : List Record) (h : Nat) : Prop where
  outline : outline out = outline before
  others : ∀ j, ¬ Owns before h j → recordAt out j = recordAt rs j
  settled : Settled F before out h

theorem maskParagraph_stepped (hrs : Untouched before rs h) (hlt : h < before.length)
    (hheader : (recordAt before h).tag = paraHeader) (hmask : maskParagraph R F rs h = .ok (out, hits)) :
    Stepped F before rs out h := by
  have hspans := spansOf_congr (F := F) hrs.outline hrs.same hheader
  obtain ⟨hnil, rfl⟩ | ⟨t, units, htext, hfour, hunits, hne, hedit⟩ := maskParagraph_ok hmask
  · exact ⟨hrs.outline, fun _ _ => rfl, settled_of_same hrs.same (fun hchange => hchange.spans (hspans ▸ hnil))
      (not_slotChanges hheader)⟩
  · have hlength := length_of_outline hrs.outline
    have hedited := editParagraph_ok (family_childrenOf (by omega) htext) hfour hedit
    rw [hspans] at hne
    rw [childrenOf_congr hrs.outline] at htext hedited
    rw [hrs.same h (owns_header hheader)] at hfour
    have hedit : ParagraphEdit F before rs out h t _ :=
      ⟨hrs, ⟨hlt, hheader, hne⟩, hfour, htext, length_rewrite hunits, hedited⟩
    exact ⟨hedited.outline.trans hrs.outline, fun j hj => hedited.others j (fun heq => hj (by rw [heq]; exact owns_header hheader))
      fun tag htag hfound => hj (owns_part hheader htag hfound), hedit.settled⟩

theorem maskSlot_stepped (hrs : Untouched before rs h) (hlt : h < before.length)
    (hheader : (recordAt before h).tag ≠ paraHeader) {r : Record}
    (hmask : maskStringSlot F (recordAt rs h) = .ok (r, hits)) : Stepped F before rs (rs.set h r) h := by
  have hparagraph : ¬ ParagraphChanges F before h := fun hchange => hheader hchange.header
  have hlength := length_of_outline hrs.outline
  have hset : ∀ f, (∀ r', f r' = r) → rs.set h r = modifyAt (some h) f rs := by
    intro f hf
    rw [modifyAt, List.modify_eq_set_getElem?, List.getElem?_eq_getElem (by omega)]
    change _ = rs.set h (f rs[h])
    rw [hf]
  have hself : recordAt (rs.set h r) h = r := by
    rw [hset (fun _ => r) fun _ => rfl, recordAt_modifyAt_self (by omega)]
  have hother : ∀ j, j ≠ h → recordAt (rs.set h r) j = recordAt rs j := by
    intro j hj
    rw [hset (fun _ => r) fun _ => rfl, recordAt_modifyAt_ne fun heq => hj (Option.some.inj heq).symm]
  obtain ⟨hnot, rfl⟩ | ⟨hchange, htag, hlevel, hmasked⟩ := maskStringSlot_ok hmask
  · have hid : rs.set h (recordAt rs h) = rs := by
      rw [recordAt_of_lt (by omega), List.set_getElem_self]
    rw [hid]
    refine ⟨hrs.outline, fun _ _ => rfl, settled_of_same hrs.same hparagraph fun hchange => hnot ?_⟩
    rwa [hrs.same h hchange.owns]
  · have howns : Owns before h h := by
      have hown := hchange.owns
      rwa [owns_congr hrs.outline] at hown
    have honly : ∀ j, Owns before h j → j = h := by
      intro j hj
      obtain ⟨hown, -⟩ | ⟨-, hown⟩ := hj
      · exact absurd hown hheader
      · exact hown
    rw [hrs.same h howns] at hchange htag hlevel hmasked
    refine ⟨?_, fun j hj => hother j fun heq => hj (heq ▸ howns), fun hparagraph' => absurd hparagraph' hparagraph,
      fun _ => ?_, fun _ hslot => absurd hchange hslot, fun j hj => ?_, fun j hj => ?_⟩
    · refine (outline_ext ?_ fun j => ?_).trans hrs.outline
      · exact List.length_set
      · by_cases hj : j = h
        · rw [hj, hself, hrs.same h howns]
          exact ⟨htag, hlevel⟩
        · rw [hother j hj]
          exact ⟨rfl, rfl⟩
    · rw [hself]
      exact hmasked
    · rw [honly j hj, hself]
      exact .inr (.inl hmasked.repacked)
    · rw [honly j hj, hself, hmasked.dropped]
      exact ⟨.inl, fun hor => hor.elim id fun hline => absurd hline.1 hparagraph⟩

theorem maskRecord_stepped (hrs : Untouched before rs h) (hlt : h < before.length)
    (hmask : maskRecord R F rs h = .ok (out, hits)) : Stepped F before rs out h := by
  unfold maskRecord at hmask
  have htag := tag_congr hrs.outline h
  split at hmask
  · rename_i hheader
    exact maskParagraph_stepped hrs hlt (htag ▸ hheader) hmask
  · rename_i hheader
    obtain ⟨masked, hmasked, hpair⟩ := map_ok hmask
    obtain ⟨rfl, -⟩ := Prod.mk.inj hpair
    exact maskSlot_stepped hrs hlt (htag ▸ hheader) hmasked

/-! The whole section. -/

/-- The first `n` records are masked. -/
structure Progress (F : Finder) (before rs : List Record) (n : Nat) : Prop where
  outline : outline rs = outline before
  settled : ∀ h, h < n → Settled F before rs h
  rest : ∀ j, (∀ h, h < n → ¬ Owns before h j) → recordAt rs j = recordAt before j

/-- Later steps leave what is settled. -/
theorem Settled.congr (hsettled : Settled F before rs h) (hsame : ∀ j, Owns before h j → recordAt out j = recordAt rs j) :
    Settled F before out h where
  paragraph hchange := by
    obtain ⟨hfour, hlength, ⟨t, total, htext, hraw, hdropped, hwords, hchars⟩, hshapes⟩ := hsettled.paragraph hchange
    have hheader := hsame h (owns_header hchange.header)
    refine ⟨hfour, ?_, ⟨t, total, htext, ?_⟩, fun s hs => ?_⟩
    · rw [hheader]
      exact hlength
    · rw [hheader, hsame t (owns_part hchange.header (by decide) htext)]
      exact ⟨hraw, hdropped, hwords, hchars⟩
    · rw [hheader, hsame s (owns_part hchange.header (by decide) hs)]
      exact hshapes s hs
  slot hchange := by
    rw [hsame h hchange.owns]
    exact hsettled.slot hchange
  unchanged hparagraph hslot j hj := (hsame j hj).trans (hsettled.unchanged hparagraph hslot j hj)
  repacked j hj := by
    rw [hsame j hj]
    exact hsettled.repacked j hj
  dropped j hj := by
    rw [hsame j hj]
    exact hsettled.dropped j hj

theorem Progress.step {n : Nat} (hrs : Progress F before rs n) (hn : n < before.length)
    (hmask : maskRecord R F rs n = .ok (out, hits)) : Progress F before out (n + 1) := by
  have hsame : ∀ j, Owns before n j → recordAt rs j = recordAt before j := by
    intro j hj
    refine hrs.rest j fun h hh hother => ?_
    rw [hj.unique hother] at hh
    exact Nat.lt_irrefl _ hh
  have hstep := maskRecord_stepped ⟨hrs.outline, hsame⟩ hn hmask
  refine ⟨hstep.outline, fun h hh => ?_, fun j hj => ?_⟩
  · obtain hlt | rfl : h < n ∨ h = n := by omega
    · refine (hrs.settled h hlt).congr fun j hj => hstep.others j fun hother => ?_
      rw [hother.unique hj] at hlt
      exact Nat.lt_irrefl _ hlt
    · exact hstep.settled
  · rw [hstep.others j (hj n (by omega))]
    exact hrs.rest j fun h hh => hj h (by omega)

theorem maskRecords_progress {m n hits' : Nat} (hrs : Progress F before rs n) (hm : n + m ≤ before.length)
    (hmask : maskRecords R F m n rs hits = .ok (out, hits')) : Progress F before out (n + m) := by
  induction m generalizing n rs hits with
  | zero =>
    obtain ⟨rfl, -⟩ := Prod.mk.inj (Except.ok.inj hmask)
    exact hrs
  | succ m ih =>
    rw [maskRecords] at hmask
    cases hone : maskRecord R F rs n with
    | error e =>
      rw [hone] at hmask
      cases hmask
    | ok stepped =>
      rw [hone] at hmask
      have hrest := ih (hrs.step (by omega) hone) (by omega) hmask
      rwa [show n + 1 + m = n + (m + 1) by omega] at hrest

/-- The header of a changed paragraph tells the words of its text and the number of its shapes. -/
structure ParagraphMasked (before final : List Record) (h : Nat) : Prop where
  header : 4 ≤ (recordAt before h).payload.length ∧ (recordAt final h).payload.length = (recordAt before h).payload.length
  words : ∃ t, (childrenOf before h).lookup paraText = some t ∧
    (recordAt final t).payload.length = 2 * (leNat ((recordAt final h).payload.take 4) % 2 ^ 31)
  top : leNat ((recordAt final h).payload.take 4) / 2 ^ 31 = leNat ((recordAt before h).payload.take 4) / 2 ^ 31
  shapes : ∀ s, (childrenOf before h).lookup paraCharShape = some s →
    Ascending (pairs (unpackU32s (recordAt final s).payload)) ∧
    (recordAt final s).payload.length = 8 * (pairs (unpackU32s (recordAt final s).payload)).length ∧
    (14 ≤ (recordAt before h).payload.length →
      leNat (((recordAt final h).payload.drop 12).take 2) = (pairs (unpackU32s (recordAt final s).payload)).length)

/-- The records of a masked section, with those that are dropped. -/
structure Masked (F : Finder) (before final : List Record) : Prop where
  outline : outline final = outline before
  dropped : ∀ j, (recordAt final j).dropped = true ↔
    ∃ h, ParagraphChanges F before h ∧ (childrenOf before h).lookup paraLineSeg = some j
  kept : ∀ j, (∀ h, ParagraphChanges F before h → ¬ PartOf before h j) → ¬ SlotChanges F (recordAt before j) →
    recordAt final j = recordAt before j
  paragraph : ∀ h, ParagraphChanges F before h → ParagraphMasked before final h
  slot : ∀ j, SlotChanges F (recordAt before j) → SlotMasked (recordAt before j) (recordAt final j)

/-- The record that is read for one that was packed. -/
structure Same (r read : Record) : Prop where
  tag : read.tag = r.tag
  level : read.level = r.level
  payload : read.payload = r.payload
  raw : ∀ bytes, r.raw = some bytes → read.raw = some bytes

def kept (rs : List Record) : List Record := rs.filter fun r => !r.dropped

theorem mem_recordAt {r : Record} (hr : r ∈ rs) : ∃ j, j < rs.length ∧ recordAt rs j = r := by
  obtain ⟨j, hj, rfl⟩ := List.getElem_of_mem hr
  exact ⟨j, hj, recordAt_of_lt hj⟩

theorem framed_of_records {data : Bytes} (hread : records data = .ok rs) {r : Record} (hr : r ∈ rs) : ∃ raw, Frames raw r := by
  obtain ⟨raws, hframes, -⟩ := records_frames hread
  clear hread
  induction hframes with
  | nil => cases hr
  | cons hframe _ ih =>
    obtain rfl | hr := List.mem_cons.mp hr
    · exact ⟨_, hframe⟩
    · exact ih hr

/-- A record with ten bits for its tag and its level, that has the bytes it was read from or none. -/
structure Packable (r : Record) : Prop where
  tag : r.tag < 1024
  level : r.level < 1024
  raw : r.raw = none ∨ ∃ raw, Frames raw r

theorem pack_size {r : Record} {raw : Bytes} (hraw : r.raw = none) (hpack : pack r = .ok raw) :
    r.payload.length < 2 ^ 32 := by
  unfold pack at hpack
  rw [hraw] at hpack
  obtain ⟨header, hheader, -⟩ := hwpBind_ok hpack
  unfold packHeader at hheader
  split at hheader
  · obtain ⟨word, -, hheader⟩ := hwpBind_ok hheader
    obtain ⟨extended, hextended, -⟩ := hwpBind_ok hheader
    exact (packU32_ok hextended).1
  · omega

theorem Packable.read {r : Record} {raw : Bytes} (hr : Packable r) (hpack : pack r = .ok raw) :
    ∃ read, Frames raw read ∧ Same r read := by
  obtain hraw | ⟨raw', hframe⟩ := hr.raw
  · obtain ⟨raw', hpack', hframe⟩ := pack_frames hr.tag hr.level (pack_size hraw hpack) hraw
    obtain rfl := Except.ok.inj (hpack.symm.trans hpack')
    refine ⟨_, hframe, rfl, rfl, rfl, fun bytes hbytes => ?_⟩
    rw [hraw] at hbytes
    cases hbytes
  · rw [pack, hframe.kept] at hpack
    obtain rfl := Except.ok.inj hpack
    exact ⟨r, hframe, rfl, rfl, rfl, fun bytes hbytes => hbytes⟩

theorem packAll_read {bytes : Bytes} (hrs : ∀ r ∈ rs, Packable r) (hpack : packAll rs = .ok bytes) :
    (∃ after, records bytes = .ok after ∧ List.Forall₂ Same rs after) ∧
      ∀ r ∈ rs, r.raw = none → r.payload.length < 2 ^ 32 := by
  obtain ⟨raws, hraws, rfl⟩ := packAll_ok hpack
  clear hpack
  have hread : ∃ after, List.Forall₂ Frames raws after ∧ List.Forall₂ Same rs after := by
    induction hraws with
    | nil => exact ⟨[], .nil, .nil⟩
    | cons hone _ ih =>
      obtain ⟨read, hframe, hsame⟩ := (hrs _ List.mem_cons_self).read hone
      obtain ⟨after, hframes, hsames⟩ := ih fun r hr => hrs r (List.mem_cons_of_mem _ hr)
      exact ⟨read :: after, .cons hframe hframes, .cons hsame hsames⟩
  obtain ⟨after, hframes, hsames⟩ := hread
  refine ⟨⟨after, records_of_frames hframes, hsames⟩, ?_⟩
  clear hframes hsames
  induction hraws with
  | nil => exact fun r hr => by cases hr
  | cons hone _ ih =>
    intro r hr hnone
    obtain rfl | hr := List.mem_cons.mp hr
    · exact pack_size hnone hone
    · exact ih (fun r hr => hrs r (List.mem_cons_of_mem _ hr)) r hr hnone

/-- A record is masked from the place that owns it, or it is as it was. -/
theorem Progress.cases (hfinal : Progress F before rs before.length) (j : Nat) :
    recordAt rs j = recordAt before j ∧ (∀ h, ¬ Owns before h j) ∨ ∃ h, h < before.length ∧ Owns before h j := by
  by_cases howned : ∃ h, h < before.length ∧ Owns before h j
  · exact .inr howned
  · have hnone : ∀ h, h < before.length → ¬ Owns before h j := fun h hh hown => howned ⟨h, hh, hown⟩
    refine .inl ⟨hfinal.rest j hnone, fun h hown => ?_⟩
    by_cases hh : h < before.length
    · exact hnone h hh hown
    · -- there is no record from the end on
      have hdefault : recordAt before h = ⟨0, 0, [], none, false⟩ := List.getD_eq_default _ _ (by omega)
      obtain ⟨htag, -⟩ | ⟨htag, -⟩ := hown
      · rw [hdefault] at htag
        cases htag
      · rw [hdefault] at htag
        obtain htag | htag := htag <;> cases htag

theorem Progress.packable {data : Bytes} (hread : records data = .ok before)
    (hfinal : Progress F before rs before.length) : ∀ r ∈ kept rs, Packable r := by
  intro r hr
  obtain ⟨hmem, hkept⟩ := List.mem_filter.mp hr
  obtain ⟨j, hj, rfl⟩ := mem_recordAt hmem
  rw [length_of_outline hfinal.outline] at hj
  have hin : recordAt before j ∈ before := by
    rw [recordAt_of_lt hj]
    exact List.getElem_mem hj
  obtain ⟨raw, hframe⟩ := framed_of_records hread hin
  obtain ⟨htag, hlevel, -⟩ := hframe.bounds
  refine ⟨by rw [tag_congr hfinal.outline]; exact htag, by rw [level_congr hfinal.outline]; exact hlevel, ?_⟩
  have hor : recordAt rs j = recordAt before j ∨ (recordAt rs j).raw = none ∨ (recordAt rs j).dropped = true := by
    obtain ⟨hsame, -⟩ | ⟨h, hh, hown⟩ := hfinal.cases j
    · exact .inl hsame
    · exact (hfinal.settled h hh).repacked j hown
  obtain hsame | hnone | hdropped := hor
  · rw [hsame]
    exact .inr ⟨raw, hframe⟩
  · exact .inl hnone
  · rw [hdropped] at hkept
    cases hkept

theorem Progress.masked {data : Bytes} (hread : records data = .ok before)
    (hfinal : Progress F before rs before.length)
    (hsize : ∀ r ∈ kept rs, r.raw = none → r.payload.length < 2 ^ 32) : Masked F before rs := by
  have hundropped : ∀ j, (recordAt before j).dropped = false := by
    intro j
    by_cases hj : j < before.length
    · have hin : recordAt before j ∈ before := by
        rw [recordAt_of_lt hj]
        exact List.getElem_mem hj
      obtain ⟨raw, hframe⟩ := framed_of_records hread hin
      exact hframe.bounds.2.2
    · rw [recordAt, List.getD_eq_default _ _ (by omega)]
  refine ⟨hfinal.outline, fun j => ?_, fun j hparagraph hslot => ?_, fun h hchange => ?_, fun j hchange => ?_⟩
  · obtain ⟨hsame, hnone⟩ | ⟨h, hh, hown⟩ := hfinal.cases j
    · rw [hsame, hundropped]
      refine ⟨(fun hfalse => by cases hfalse), ?_⟩
      rintro ⟨h, hchange, hline⟩
      exact absurd (owns_part hchange.header (by decide) hline) (hnone h)
    · rw [(hfinal.settled h hh).dropped j hown, hundropped]
      refine ⟨fun hor => ?_, ?_⟩
      · obtain hfalse | hline := hor
        · cases hfalse
        · exact ⟨h, hline⟩
      · rintro ⟨g, hchange, hline⟩
        obtain rfl := (owns_part hchange.header (by decide) hline).unique hown
        exact .inr ⟨hchange, hline⟩
  · obtain ⟨hsame, -⟩ | ⟨h, hh, hown⟩ := hfinal.cases j
    · exact hsame
    · refine (hfinal.settled h hh).unchanged (fun hchange => ?_) (fun hchange => ?_) j hown
      · obtain ⟨-, hpart⟩ | ⟨htag, -⟩ := hown
        · exact hparagraph h hchange hpart
        · rw [hchange.header] at htag
          obtain htag | htag := htag <;> cases htag
      · obtain ⟨hheader, -⟩ | ⟨-, rfl⟩ := hown
        · exact not_slotChanges hheader hchange
        · exact hslot hchange
  · obtain ⟨hfour, hlength, ⟨t, total, htext, hraw, hdropped, hwords, hchars⟩, hshapes⟩ :=
      (hfinal.settled h hchange.within).paragraph hchange
    have hin : recordAt rs t ∈ kept rs := by
      have ht : t < rs.length := by
        rw [length_of_outline hfinal.outline]
        exact (childrenOf_lookup htext).within
      refine List.mem_filter.mpr ⟨?_, by rw [hdropped, hundropped]; rfl⟩
      rw [recordAt_of_lt ht]
      exact List.getElem_mem ht
    have htotal := hsize _ hin hraw
    have hold := leNat_lt ((recordAt before h).payload.take 4)
    rw [List.length_take, Nat.min_eq_left hfour] at hold
    obtain ⟨hlow, htop⟩ := top_bit (by omega : leNat ((recordAt before h).payload.take 4) < 2 ^ 32)
      (by omega : total < 2 ^ 31)
    refine ⟨⟨hfour, hlength⟩, ⟨t, htext, ?_⟩, ?_, hshapes⟩
    · rw [hchars, hlow, hwords]
    · rw [hchars, htop]
  · have hj : j < before.length := by
      obtain ⟨-, hnone⟩ | ⟨h, hh, hown⟩ := hfinal.cases j
      · exact absurd hchange.owns (hnone j)
      · rwa [hown.unique hchange.owns] at hh
    exact (hfinal.settled j hj).slot hchange

theorem maskSection_masked {data bytes : Bytes} (hmask : maskSection R F data = .ok (bytes, hits)) (hhits : 0 < hits) :
    ∃ before final after, records data = .ok before ∧ Masked F before final ∧ records bytes = .ok after ∧
      List.Forall₂ Same (kept final) after := by
  obtain ⟨before, hread, hmask⟩ := hwpBind_ok hmask
  obtain ⟨⟨final, total⟩, hrun, hmask⟩ := hwpBind_ok hmask
  have hstart : Progress F before before 0 := ⟨rfl, fun h hh => absurd hh (Nat.not_lt_zero h), fun _ _ => rfl⟩
  have hfinal := maskRecords_progress hstart (by omega) hrun
  rw [Nat.zero_add] at hfinal
  dsimp only at hmask
  split at hmask
  · rename_i hzero
    obtain ⟨-, rfl⟩ := Prod.mk.inj (Except.ok.inj hmask)
    omega
  · obtain ⟨out, hpack, hpair⟩ := map_ok hmask
    obtain ⟨rfl, -⟩ := Prod.mk.inj hpair
    obtain ⟨⟨after, hafter, hsames⟩, hsize⟩ := packAll_read (hfinal.packable hread) hpack
    exact ⟨before, final, after, hread, hfinal.masked hread hsize, hafter, hsames⟩

/-- Reading and packing undo each other, and masking keeps the structure of a section. -/
theorem section_structure (R : Rounding) (F : Finder) :
    (∀ data rs, records data = .ok rs → packAll rs = .ok data) ∧
    (∀ rs : List Record, (∀ r ∈ rs, r.tag < 1024 ∧ r.level < 1024 ∧ r.payload.length < 2 ^ 32 ∧ r.raw = none) →
      ∃ data after, packAll rs = .ok data ∧ records data = .ok after ∧
        List.Forall₂ (fun r a => a.tag = r.tag ∧ a.level = r.level ∧ a.payload = r.payload) rs after) ∧
    (∀ data bytes hits, maskSection R F data = .ok (bytes, hits) → 0 < hits →
      ∃ before final after, records data = .ok before ∧ Masked F before final ∧ records bytes = .ok after ∧
        List.Forall₂ Same (kept final) after) :=
  ⟨fun _ _ => packAll_records, fun _ => records_packAll, fun _ _ _ => maskSection_masked⟩

/-- A formula whose script has two letters. -/
def formula : Bytes := [88, 0, 160, 0, 0, 0, 0, 0, 2, 0, 65, 0, 66, 0]

/-- The first letter of a text is masked. -/
def firstLetter : Finder where
  find text := if text.length = 0 then [] else [⟨0, 1, [35]⟩]
  inOrder text := by
    split
    · trivial
    · exact ⟨Nat.le_refl 0, Nat.zero_le 1, by change 1 ≤ _; omega, trivial⟩
  nonempty text s hs := by
    split at hs
    · cases hs
    · rw [List.mem_singleton.mp hs]
      exact Nat.one_pos

theorem maskSection_formula :
    maskSection Rounding.exact firstLetter formula = .ok ([88, 0, 160, 0, 0, 0, 0, 0, 2, 0, 35, 0, 66, 0], 1) := by
  have hfirst : firstRecord formula = .ok ⟨88, 0, formula.drop 4, some formula, false⟩ := by decide
  have hrest : formula.drop (rawLength ⟨88, 0, formula.drop 4, some formula, false⟩) = [] := by decide
  have hread : records formula = .ok [⟨88, 0, formula.drop 4, some formula, false⟩] := by
    rw [records, if_neg (by decide)]
    split
    · rename_i e herror
      rw [hfirst] at herror
      cases herror
    · rename_i r hr
      rw [hfirst] at hr
      cases hr
      rw [hrest, records]
      rfl
  rw [maskSection, hread]
  rfl

theorem section_structure_formula :
    ∃ before final after, records formula = .ok before ∧ Masked firstLetter before final ∧
      records [88, 0, 160, 0, 0, 0, 0, 0, 2, 0, 35, 0, 66, 0] = .ok after ∧ List.Forall₂ Same (kept final) after :=
  (section_structure Rounding.exact firstLetter).2.2 formula _ 1 maskSection_formula (by decide)

end XgenSdk.Hwp
