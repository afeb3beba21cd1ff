import XgenSdk.ControlPolicy.OoxmlNodes
import XgenSdk.ControlPolicy.HtmlDetected

/-! Masking the text nodes of a fragment splices their texts, and nothing else. -/
namespace XgenSdk.OoxmlSplice
open XgenSdk.Splice XgenSdk.Rules XgenSdk.Spans XgenSdk.Matches XgenSdk.Pieces XgenSdk.Ooxml XgenSdk.OoxmlNodes
variable {table : WordTable} {fragment : Text}

/-! The chunks of a part. -/

def Tiled : Nat → Nat → List Chunk → Prop
  | a, b, [] => a = b
  | a, b, c :: rest => c.start = a ∧ a ≤ c.stop ∧ Tiled c.stop b rest

theorem Tiled.le {a b : Nat} {chunks : List Chunk} (h : Tiled a b chunks) : a ≤ b := by
  induction chunks generalizing a with
  | nil => exact Nat.le_of_eq h
  | cons c rest ih => exact h.2.1.trans (ih h.2.2)

theorem Tiled.text {a b : Nat} {chunks : List Chunk} (h : Tiled a b chunks) (xml : Text) :
    (chunks.flatMap fun c => slice xml c.start c.stop) = slice xml a b := by
  induction chunks generalizing a with
  | nil =>
    obtain rfl : a = b := h
    rw [List.flatMap_nil, slice_self]
  | cons c rest ih =>
    obtain ⟨rfl, hstop, hrest⟩ := h
    rw [List.flatMap_cons, ih hrest, slice_append xml hstop hrest.le]

/-- Tags in order from one place to another. -/
def Between : Nat → Nat → List GroupTag → Prop
  | lo, hi, [] => lo ≤ hi
  | lo, hi, tag :: rest => lo ≤ tag.start ∧ tag.start ≤ tag.stop ∧ Between tag.stop hi rest

theorem Between.weaken {lo lo' hi : Nat} {tags : List GroupTag} (h : Between lo hi tags) (hle : lo' ≤ lo) : Between lo' hi tags := by
  cases tags with
  | nil => exact hle.trans h
  | cons tag rest => exact ⟨hle.trans h.1, h.2⟩

theorem groupTagsFrom_between (table : WordTable) (pos : Nat) (ps : List (Matches.Part Char)) :
    Between pos (pos + (ps.flatMap Matches.Part.text).length) (groupTagsFrom table pos ps) := by
  induction ps generalizing pos with
  | nil => exact Nat.le_refl pos
  | cons part rest ih =>
    cases part with
    | single x =>
      have h := ih (pos + 1)
      rw [Nat.add_right_comm] at h
      exact h.weaken (Nat.le_succ pos)
    | found r =>
      have h := ih (pos + r.length)
      rw [List.flatMap_cons, List.length_append, ← Nat.add_assoc]
      rw [groupTagsFrom]
      split
      · exact ⟨Nat.le_refl _, Nat.le_add_right _ _, h⟩
      · exact h.weaken (Nat.le_add_right _ _)

theorem chunksFrom_tiled {length last : Nat} {tags : List GroupTag} (depth : Nat) (h : Between last length tags) :
    Tiled last length (chunksFrom length last depth tags) := by
  induction tags generalizing last depth with
  | nil => exact ⟨rfl, h, rfl⟩
  | cons tag rest ih => exact ⟨rfl, h.1, rfl, h.2.1, ih _ h.2.2⟩

theorem groupTagAt_bounded : Bounded fun s => (groupTagAt table s).map Prod.fst := by
  intro s n h
  obtain ⟨⟨m, closes, selfClosing⟩, htag, rfl⟩ := Option.map_eq_some_iff.mp h
  unfold groupTagAt at htag
  split at htag
  · obtain ⟨hread, heq⟩ := Option.ite_none_right_eq_some.mp htag
    rw [Bool.and_eq_true, decide_eq_true_eq] at hread
    obtain rfl := (Prod.mk.inj (Option.some.inj heq)).1
    rw [List.length_cons]
    have := hread.2
    dsimp only
    omega
  · cases htag

theorem ooxmlGroups_tiled (table : WordTable) (xml : Text) : Tiled 0 xml.length (ooxmlGroups table xml) := by
  have h := groupTagsFrom_between table 0 (parts (fun s => (groupTagAt table s).map Prod.fst) xml)
  rw [parts_text groupTagAt_bounded, Nat.zero_add] at h
  exact chunksFrom_tiled 0 h

/-! One node after another. -/

/-- A mask goes where its span begins. -/
def firstShare : Share Char := fun s lo _ => if lo = s.lo then s.body else []

theorem divides_firstShare (s : Span Char) : Divides firstShare s := by
  constructor
  · exact if_pos rfl
  · intro a b _ _ hb _
    simp only [firstShare, hb.ne', if_false, List.append_nil]

theorem tail_eq {piece : Text} {start cursor : Nat} (hhi : cursor ≤ start + piece.length) :
    (if cursor < start + piece.length then piece.drop (cursor - start) else []) = piece.drop (cursor - start) := by
  split
  · rfl
  · rename_i hno
    rw [List.drop_eq_nil_of_le (by omega)]

theorem cutNode_eq_walk {piece : Text} {n start cursor : Nat} {spans : List (Span Char)} (hlo : start ≤ cursor)
    (hhi : cursor ≤ start + piece.length) (hahead : Ahead n cursor spans) (hfirst : cursor = start ∨ InOrder n cursor spans) :
    cutNode piece start cursor spans = walk firstShare piece start cursor spans := by
  induction spans generalizing cursor with
  | nil => rw [cutNode, walk, tail_eq hhi]
  | cons s rest ih =>
    obtain ⟨hcursor, hs, hn, hrest, hne⟩ := hahead
    have hbefore : s.lo < cursor → cursor = start := fun h => hfirst.resolve_right fun hin => absurd hin.1 (by omega)
    have hnext : max cursor (min s.hi (start + piece.length)) = min s.hi (start + piece.length) := max_eq_right (by omega)
    have hkept : (if cursor < s.lo then slice piece (cursor - start) (s.lo - start) else []) =
        slice piece (cursor - start) (max s.lo start - start) := by
      split
      · rw [max_eq_left (by omega)]
      · rename_i hno
        rw [slice_eq_nil]
        have := hbefore
        omega
    have hmask : (if start ≤ s.lo then s.body else []) = firstShare s (max s.lo start) (min s.hi (start + piece.length)) := by
      rw [firstShare]
      by_cases h : start ≤ s.lo
      · rw [if_pos h, if_pos (max_eq_left h)]
      · rw [if_neg h, if_neg (by omega)]
    rw [cutNode, walk]
    dsimp only
    rw [hkept, hmask, hnext, tail_eq hhi, tail_eq (min_le_right _ _)]
    by_cases hin : s.lo < start + piece.length
    · rw [if_pos hin, if_pos hin]
      by_cases hover : start + piece.length < s.hi
      · rw [if_pos hover, if_pos hover]
      · have hend : s.hi ≤ start + piece.length := by omega
        rw [if_neg hover, if_neg hover, min_eq_left hend,
          ih (by omega) hend (InOrder.ahead hrest hn hne) (Or.inr hrest)]
    · rw [if_neg hin, if_neg hin]

theorem cutNodes_eq {n start : Nat} {spans : List (Span Char)} {pieces : List Text}
    (hn : start + pieces.flatten.length ≤ n) (h : Ahead n start (live start spans)) :
    cutNodes start spans pieces = reworked firstShare start spans pieces := by
  induction pieces generalizing start spans with
  | nil => rfl
  | cons piece rest ih =>
    rw [List.flatten_cons, List.length_append] at hn
    have hnext := h.live (by omega : start + piece.length ≤ n) (Nat.le_add_right _ _)
    have hrest : cutNodes (start + piece.length) (live start spans) rest = _ := ih (by omega) hnext
    have hpiece : cutNode piece start start (live start spans) = _ :=
      cutNode_eq_walk (Nat.le_refl _) (Nat.le_add_right _ _) h (Or.inl rfl)
    rw [cutNodes, reworked, ← hrest, ← hpiece]
    rfl

/-! One group of nodes. -/

/-- What becomes of the texts of a group. -/
structure GroupMasked (spans : List (Span Char)) (texts : List Text) (masked : List (Option Text)) : Prop where
  length : masked.length = texts.length
  touched : ∀ i < texts.length, ((masked[i]?).bind id).isSome = true ↔
    ∃ s ∈ spans, Meets s (startAt texts i) (startAt texts (i + 1))
  text : (refilled texts masked).flatten = splice texts.flatten spans

theorem refilled_none (texts : List Text) : refilled texts (texts.map fun _ => none) = texts := by
  induction texts with
  | nil => rfl
  | cons t texts ih => exact congrArg (t :: ·) ih

theorem maskGroup_masked (rules : List MaskingRule) (texts : List Text) :
    GroupMasked (findMaskedSpans texts.flatten rules) texts (maskGroup rules texts).1 := by
  have hfound := findMaskedSpans_found texts.flatten rules
  unfold maskGroup
  generalize findMaskedSpans texts.flatten rules = spans at hfound ⊢
  dsimp only
  by_cases hnone : spans = []
  · subst hnone
    refine ⟨by simp, fun i hi => by simp [hi], ?_⟩
    exact congrArg List.flatten (refilled_none texts)
  · have hahead : Ahead texts.flatten.length 0 (live 0 spans) := by
      rw [live_zero hfound.nonempty]
      exact InOrder.ahead hfound.inOrder (Nat.zero_le _) hfound.nonempty
    have hcut : cutNodes 0 spans texts = reworked firstShare 0 spans texts := cutNodes_eq (by omega) hahead
    rw [if_neg (mt List.isEmpty_iff.mp hnone), hcut]
    refine ⟨length_reworked _ _ _ _, fun i hi => ?_, ?_⟩
    · have h : (((reworked firstShare 0 spans texts)[i]?).bind id).isSome = true ↔ _ :=
        reworked_isSome hfound.inOrder hfound.nonempty hi
      rw [Nat.zero_add, Nat.zero_add] at h
      exact h
    · rw [refilled_reworked]
      exact walkAll_flatten divides_firstShare hfound.inOrder hfound.nonempty

/-! From places of a fragment to its parts. -/

def rawContents (table : WordTable) (fragment : Text) : List Text := (textNodes table fragment).map (raw fragment)

/-- What lies outside the contents of the nodes. -/
def outside (fragment : Text) : Nat → List Node → List Text
  | last, [] => [fragment.drop last]
  | last, n :: rest => slice fragment last n.start :: outside fragment n.stop rest

theorem slice_of_drop {pos : Nat} {front rest : Text} (h : fragment.drop pos = front ++ rest) :
    slice fragment pos (pos + front.length) = front ∧ fragment.drop (pos + front.length) = rest := by
  constructor
  · rw [slice, List.drop_take, Nat.add_sub_cancel_left, h, List.take_left' rfl]
  · rw [← List.drop_drop, h, List.drop_left' rfl]

/-- Parts that are read off a text have its nodes. -/
def Formed (table : WordTable) (ps : List (Matches.Part Char)) : Prop :=
  ∀ r, .found r ∈ ps → ∃ inside name text, NodeForm table inside name text ∧ r = node inside name text

theorem parts_formed (table : WordTable) (s : Text) : Formed table (parts (textLength table) s) := by
  intro r hr
  obtain ⟨rest, hrest⟩ := length_of_mem (textLength_bounded table) hr
  obtain ⟨inside, name, text, rest', hform, hsplit, hlength⟩ := textLength_form hrest
  exact ⟨inside, name, text, hform, (List.append_inj hsplit hlength).1⟩

/-- Where the parts of a node lie. -/
structure Placed (fragment : Text) (pos : Nat) (r rest : Text) : Prop where
  opening : slice fragment pos (pos + (opening r).length) = opening r
  content : slice fragment (pos + (Ooxml.opening r).length) (pos + (Ooxml.opening r).length + (content r).length) = content r
  closing : slice fragment (pos + (Ooxml.opening r).length + (Ooxml.content r).length) (pos + r.length) =
    closing (tagName r.tail)
  rest : fragment.drop (pos + r.length) = rest

theorem length_placed {inside name text : Text} (hform : NodeForm table inside name text) :
    (node inside name text).length =
      (opening (node inside name text)).length + (content (node inside name text)).length + (closing name).length := by
  rw [hform.alone.1, hform.alone.2, node]
  simp
  omega

theorem placed_of_drop {pos : Nat} {inside name text rest : Text} (hform : NodeForm table inside name text)
    (h : fragment.drop pos = node inside name text ++ rest) : Placed fragment pos (node inside name text) rest := by
  have hlength := length_placed hform
  rw [hform.alone.1, hform.alone.2] at hlength
  have hsplit : fragment.drop pos = ('<' :: (inside ++ ['>'])) ++ (text ++ (closing name ++ rest)) := by
    rw [h]
    simp [node]
  have hopening := slice_of_drop hsplit
  have hcontent := slice_of_drop hopening.2
  have hclosing := slice_of_drop hcontent.2
  constructor
  · rw [hform.alone.1, hopening.1]
  · rw [hform.alone.1, hform.alone.2, hcontent.1]
  · rw [hform.alone.1, hform.alone.2, hform.name_eq, hlength, ← Nat.add_assoc, ← Nat.add_assoc, hclosing.1]
  · rw [hlength, ← Nat.add_assoc, ← Nat.add_assoc, hclosing.2]

theorem nodesFrom_contents {ps : List (Matches.Part Char)} (hps : Formed table ps) {pos : Nat}
    (h : fragment.drop pos = ps.flatMap Matches.Part.text) : (nodesFrom pos ps).map (raw fragment) = contents ps := by
  induction ps generalizing pos with
  | nil => rfl
  | cons part rest ih =>
    have hrest : Formed table rest := fun r hr => hps r (List.mem_cons_of_mem part hr)
    rw [List.flatMap_cons] at h
    cases part with
    | single x =>
      have hstep : slice fragment pos (pos + [x].length) = [x] ∧ _ := slice_of_drop h
      rw [nodesFrom]
      exact ih hrest hstep.2
    | found r =>
      obtain ⟨inside, name, text, hform, rfl⟩ := hps r List.mem_cons_self
      have hplaced := placed_of_drop hform h
      rw [nodesFrom, List.map_cons, ih hrest hplaced.rest]
      exact congrArg (· :: contents rest) hplaced.content

theorem nodesFrom_outside {ps : List (Matches.Part Char)} (hps : Formed table ps) {last pos : Nat} (hlast : last ≤ pos)
    (h : fragment.drop pos = ps.flatMap Matches.Part.text) :
    outside fragment last (nodesFrom pos ps) = frames (slice fragment last pos) ps := by
  induction ps generalizing last pos with
  | nil =>
    rw [nodesFrom, outside, frames, ← slice_drop fragment hlast, h]
    exact congrArg (fun s => [s]) (List.append_nil _)
  | cons part rest ih =>
    have hrest : Formed table rest := fun r hr => hps r (List.mem_cons_of_mem part hr)
    rw [List.flatMap_cons] at h
    cases part with
    | single x =>
      have hstep : slice fragment pos (pos + [x].length) = [x] ∧ _ := slice_of_drop h
      rw [nodesFrom, frames, ih hrest (hlast.trans (Nat.le_succ pos)) hstep.2, ← slice_append fragment hlast (Nat.le_succ pos)]
      exact congrArg (frames · rest) (congrArg (slice fragment last pos ++ ·) hstep.1)
    | found r =>
      obtain ⟨inside, name, text, hform, rfl⟩ := hps r List.mem_cons_self
      have hplaced := placed_of_drop hform h
      rw [nodesFrom, outside, frames, ih hrest _ hplaced.rest, hplaced.closing,
        ← slice_append fragment hlast (Nat.le_add_right _ _), hplaced.opening]
      have := length_placed hform
      dsimp only
      omega

theorem nodesFrom_splice {ps : List (Matches.Part Char)} (hps : Formed table ps) {last pos : Nat} (hlast : last ≤ pos)
    (h : fragment.drop pos = ps.flatMap Matches.Part.text) {texts : List Text} (htexts : texts.length = (contents ps).length) :
    spliceFrom fragment last (List.zipWith (fun n t => ⟨n.start, n.stop, t⟩) (nodesFrom pos ps) texts) =
      slice fragment last pos ++ refill ps texts := by
  induction ps generalizing last pos texts with
  | nil => rw [nodesFrom, List.zipWith_nil_left, spliceFrom, refill, ← slice_drop fragment hlast, h, List.flatMap_nil]
  | cons part rest ih =>
    have hrest : Formed table rest := fun r hr => hps r (List.mem_cons_of_mem part hr)
    rw [List.flatMap_cons] at h
    cases part with
    | single x =>
      have hstep : slice fragment pos (pos + [x].length) = [x] ∧ _ := slice_of_drop h
      rw [nodesFrom, ih hrest (hlast.trans (Nat.le_succ pos)) hstep.2 htexts, ← slice_append fragment hlast (Nat.le_succ pos),
        refill, List.append_assoc]
      exact congrArg (fun s => slice fragment last pos ++ (s ++ refill rest texts)) hstep.1
    | found r =>
      obtain ⟨inside, name, text, hform, rfl⟩ := hps r List.mem_cons_self
      have hplaced := placed_of_drop hform h
      cases texts with
      | nil => cases htexts
      | cons t texts =>
        rw [nodesFrom, List.zipWith_cons_cons, spliceFrom, ih hrest _ hplaced.rest (Nat.succ.inj htexts), hplaced.closing,
          ← slice_append fragment hlast (Nat.le_add_right _ _), hplaced.opening, refill]
        · simp only [List.append_assoc]
        · have := length_placed hform
          dsimp only
          omega

/-! The groups of a fragment. -/

def groupsOf (joined : Bool) (texts : List Text) : List (List Text) := if joined then [texts] else texts.map fun t => [t]

/-- A span meets the text of a node. -/
def Touched (rules : List MaskingRule) (joined : Bool) (texts : List Text) (i : Nat) : Prop :=
  if joined then ∃ s ∈ findMaskedSpans texts.flatten rules, Meets s (startAt texts i) (startAt texts (i + 1))
  else ∃ t ∈ texts[i]?, ∃ s ∈ findMaskedSpans t rules, Meets s 0 t.length

def maskedTexts (rules : List MaskingRule) (joined : Bool) (texts : List Text) : List (Option Text) :=
  (groupsOf joined texts).flatMap fun group => (maskGroup rules group).1

structure AllMasked (rules : List MaskingRule) (joined : Bool) (texts : List Text) (masked : List (Option Text)) : Prop where
  length : masked.length = texts.length
  touched : ∀ i < texts.length, ((masked[i]?).bind id).isSome = true ↔ Touched rules joined texts i
  text : (groupsOf joined (refilled texts masked)).map List.flatten =
    (groupsOf joined texts).map fun group => splice group.flatten (findMaskedSpans group.flatten rules)

/-- A node by itself. -/
theorem maskGroup_alone (rules : List MaskingRule) (t : Text) : ∃ masked, (maskGroup rules [t]).1 = [masked] ∧
    (masked.isSome = true ↔ ∃ s ∈ findMaskedSpans t rules, Meets s 0 t.length) ∧
    masked.getD t = splice t (findMaskedSpans t rules) := by
  obtain ⟨hlength, htouched, htext⟩ := maskGroup_masked rules [t]
  obtain ⟨masked, hmasked⟩ := List.length_eq_one_iff.mp hlength
  have hone : startAt [t] 0 = 0 ∧ startAt [t] 1 = t.length := by simp [startAt]
  have hfirst := htouched 0 Nat.zero_lt_one
  have hflat : [t].flatten = t := by simp
  rw [hmasked, hflat, Nat.zero_add, hone.1, hone.2] at hfirst
  rw [hmasked, hflat] at htext
  exact ⟨masked, hmasked, hfirst, by simpa [refilled] using htext⟩

theorem maskedTexts_masked (rules : List MaskingRule) (joined : Bool) (texts : List Text) :
    AllMasked rules joined texts (maskedTexts rules joined texts) := by
  cases joined with
  | true =>
    have hgroup : maskedTexts rules true texts = (maskGroup rules texts).1 := by simp [maskedTexts, groupsOf]
    obtain ⟨hlength, htouched, htext⟩ := maskGroup_masked rules texts
    rw [hgroup]
    exact ⟨hlength, htouched, congrArg (fun t => [t]) htext⟩
  | false =>
    induction texts with
    | nil => exact ⟨rfl, fun i hi => (nomatch hi), rfl⟩
    | cons t texts ih =>
      obtain ⟨masked, hmasked, htouched, htext⟩ := maskGroup_alone rules t
      have hcons : maskedTexts rules false (t :: texts) = masked :: maskedTexts rules false texts := by
        change (maskGroup rules [t]).1 ++ maskedTexts rules false texts = _
        rw [hmasked, List.singleton_append]
      rw [hcons]
      refine ⟨congrArg Nat.succ ih.length, fun i hi => ?_, ?_⟩
      · cases i with
        | zero =>
          rw [List.getElem?_cons_zero]
          refine htouched.trans ⟨fun h => ⟨t, rfl, h⟩, fun ⟨u, hu, h⟩ => ?_⟩
          cases hu
          exact h
        | succ i =>
          rw [List.getElem?_cons_succ]
          exact ih.touched i (Nat.lt_of_succ_lt_succ hi)
      · have hrest := ih.text
        simp only [groupsOf, Bool.false_eq_true, if_false, List.map_map] at hrest ⊢
        refine congrArg₂ List.cons ?_ hrest
        simpa using htext

/-! The whole fragment. -/

theorem refill_contents {ps : List (Matches.Part Char)} (hps : Formed table ps) : refill ps (contents ps) = ps.flatMap Matches.Part.text := by
  induction ps with
  | nil => rfl
  | cons part rest ih =>
    have hrest := ih fun r hr => hps r (List.mem_cons_of_mem part hr)
    cases part with
    | single x => exact congrArg (x :: ·) hrest
    | found r =>
      obtain ⟨inside, name, text, hform, rfl⟩ := hps r List.mem_cons_self
      change refill (_ :: rest) (content (node inside name text) :: contents rest) = _
      rw [refill, hrest, hform.alone.1, hform.alone.2, hform.name_eq, List.flatMap_cons]
      simp [node, Matches.Part.text]

/-- The new contents, escaped where they are new. -/
def newContents (rules : List MaskingRule) (joined : Bool) (unescape : Html.Unescape) (raws : List Text) : List Text :=
  refilled raws ((maskedTexts rules joined (raws.map unescape)).map fun text => text.map xmlEscape)

theorem zipWith_getD {β : Type} (mk : Node → Text → β) (f : Node → Text) (nodes : List Node) (replaced : List (Option Text)) :
    List.zipWith (fun n text => mk n (text.getD (f n))) nodes replaced =
      List.zipWith mk nodes (refilled (nodes.map f) replaced) := by
  induction nodes generalizing replaced with
  | nil => rfl
  | cons n nodes ih =>
    cases replaced with
    | nil => rfl
    | cons text replaced => exact congrArg (mk n (text.getD (f n)) :: ·) (ih replaced)

theorem textNodes_contents (table : WordTable) (fragment : Text) :
    rawContents table fragment = contents (parts (textLength table) fragment) :=
  nodesFrom_contents (parts_formed table fragment) (parts_text (textLength_bounded table) fragment).symm

theorem refilled_all_none {texts : List Text} {masked : List (Option Text)} (hlength : masked.length = texts.length)
    (h : masked.all Option.isNone = true) : refilled texts masked = texts := by
  induction texts generalizing masked with
  | nil =>
    obtain rfl := List.length_eq_zero_iff.mp hlength
    rfl
  | cons t texts ih =>
    cases masked with
    | nil => cases hlength
    | cons m masked =>
      rw [List.all_cons, Bool.and_eq_true, Option.isNone_iff_eq_none] at h
      obtain ⟨rfl, h⟩ := h
      exact congrArg (t :: ·) (ih (Nat.succ.inj hlength) h)

theorem length_newContents (rules : List MaskingRule) (joined : Bool) (unescape : Html.Unescape) (raws : List Text) :
    (newContents rules joined unescape raws).length = raws.length := by
  have hlength := (maskedTexts_masked rules joined (raws.map unescape)).length
  rw [List.length_map] at hlength
  rw [newContents, refilled, List.length_zipWith, List.length_map, hlength, Nat.min_self]

/-- A fragment is masked by writing the new contents into its nodes. -/
theorem maskOoxmlFragment_eq (unescape : Html.Unescape) (table : WordTable) (fragment : Text) (rules : List MaskingRule)
    (joined : Bool) : (maskOoxmlFragment unescape table fragment rules joined).1 =
      refill (parts (textLength table) fragment) (newContents rules joined unescape (rawContents table fragment)) := by
  have hformed := parts_formed table fragment
  have htext := parts_text (textLength_bounded table) fragment
  have hraws := textNodes_contents table fragment
  have hcount := length_newContents rules joined unescape (rawContents table fragment)
  have hwhole : refill (parts (textLength table) fragment) (rawContents table fragment) = fragment := by
    rw [hraws, refill_contents hformed, htext]
  have hpieces : (textNodes table fragment).map (fun n => unescape (raw fragment n)) = (rawContents table fragment).map unescape := by
    rw [rawContents, List.map_map]
    rfl
  have hmasked : (((groupsOf joined ((rawContents table fragment).map unescape)).map (maskGroup rules)).flatMap Prod.fst) =
      maskedTexts rules joined ((rawContents table fragment).map unescape) := by
    rw [maskedTexts, List.flatMap_map]
  rw [groupsOf] at hmasked
  unfold maskOoxmlFragment
  dsimp only
  rw [hpieces, hmasked]
  split
  · rename_i hnone
    have hempty : rawContents table fragment = [] := by
      rw [rawContents, List.isEmpty_iff.mp hnone, List.map_nil]
    rw [hempty] at hcount hwhole
    rw [hempty, List.length_eq_zero_iff.mp hcount, hwhole]
  · split
    · rename_i hall
      have hlength := (maskedTexts_masked rules joined ((rawContents table fragment).map unescape)).length
      rw [List.length_map] at hlength
      rw [newContents, refilled_all_none (by rw [List.length_map, hlength]) hall, hwhole]
    · have hspliced : spliceFrom fragment 0 (List.zipWith (fun n t => ⟨n.start, n.stop, t⟩) (textNodes table fragment)
          (newContents rules joined unescape (rawContents table fragment))) = slice fragment 0 0 ++ _ :=
        nodesFrom_splice hformed (Nat.le_refl 0) htext.symm (by rw [hcount, hraws])
      rw [slice_self, List.nil_append] at hspliced
      rw [← hspliced, newContents, rawContents, ← zipWith_getD]
      rfl

theorem xmlEscape_plain (t : Text) : '<' ∉ xmlEscape t := by
  intro h
  obtain ⟨c, -, hc⟩ := List.mem_flatMap.mp h
  split at hc
  · exact absurd hc (by decide)
  · split at hc
    · exact absurd hc (by decide)
    · split at hc
      · exact absurd hc (by decide)
      · rename_i hlt _
        exact hlt (List.mem_singleton.mp hc).symm

theorem contents_plain {ps : List (Matches.Part Char)} (hps : Formed table ps) : ∀ t ∈ contents ps, '<' ∉ t := by
  intro t ht
  obtain ⟨r, hr, rfl⟩ := List.mem_map.mp ht
  obtain ⟨part, hpart, hfound⟩ := List.mem_filterMap.mp hr
  cases part with
  | single x => cases hfound
  | found r' =>
    obtain rfl := Option.some.inj hfound
    obtain ⟨inside, name, text, hform, rfl⟩ := hps r' hpart
    rw [hform.alone.2]
    exact hform.plain

theorem mem_refilled {texts : List Text} {masked : List (Option Text)} {t : Text} (h : t ∈ refilled texts masked) :
    t ∈ texts ∨ some t ∈ masked := by
  obtain ⟨i, hi⟩ := List.mem_iff_getElem?.mp h
  rw [refilled, List.getElem?_zipWith] at hi
  split at hi
  · rename_i piece text hpiece htext
    cases text with
    | none => exact Or.inl (Option.some.inj hi ▸ List.mem_of_getElem? hpiece)
    | some u => exact Or.inr (Option.some.inj hi ▸ List.mem_of_getElem? htext)
  · cases hi

/-- The new contents read as the new texts. -/
theorem newContents_read {unescape : Html.Unescape} (hescape : ∀ t, unescape (xmlEscape t) = t) (raws : List Text)
    (masked : List (Option Text)) :
    (refilled raws (masked.map fun text => text.map xmlEscape)).map unescape = refilled (raws.map unescape) masked := by
  induction raws generalizing masked with
  | nil => rfl
  | cons r raws ih =>
    cases masked with
    | nil => rfl
    | cons m masked =>
      refine congrArg₂ List.cons ?_ (ih masked)
      cases m with
      | none => rfl
      | some t => exact hescape t

/-- A fragment whose nodes have their texts spliced, each group as one text, and nothing else changed. -/
structure Spliced (unescape : Html.Unescape) (table : WordTable) (rules : List MaskingRule) (joined : Bool)
    (fragment out : Text) : Prop where
  outside : outside out 0 (textNodes table out) = OoxmlSplice.outside fragment 0 (textNodes table fragment)
  untouched : ∀ (i : Nat) (text : Text), (rawContents table fragment)[i]? = some text →
    ¬Touched rules joined ((rawContents table fragment).map unescape) i → (rawContents table out)[i]? = some text
  groups : (groupsOf joined ((rawContents table out).map unescape)).map List.flatten =
    (groupsOf joined ((rawContents table fragment).map unescape)).map fun group =>
      splice group.flatten (findMaskedSpans group.flatten rules)

/-- Masking a part is a splice: its chunks cover it, and in each the texts of the nodes have their spans replaced. -/
theorem ooxml_spliced (unescape : Html.Unescape) (hescape : ∀ t, unescape (xmlEscape t) = t) (table : WordTable) :
    (∀ xml : Text, Tiled 0 xml.length (ooxmlGroups table xml) ∧
      ((ooxmlGroups table xml).flatMap fun c => slice xml c.start c.stop) = xml) ∧
    ∀ (fragment : Text) (rules : List MaskingRule) (joined : Bool),
      Spliced unescape table rules joined fragment (maskOoxmlFragment unescape table fragment rules joined).1 := by
  refine ⟨fun xml => ⟨ooxmlGroups_tiled table xml, ?_⟩, fun fragment rules joined => ?_⟩
  · rw [(ooxmlGroups_tiled table xml).text xml, slice_full]
  · have hraws := textNodes_contents table fragment
    have hformed := parts_formed table fragment
    have hall := maskedTexts_masked rules joined ((rawContents table fragment).map unescape)
    have hlike : Like table fragment (maskOoxmlFragment unescape table fragment rules joined).1
        (newContents rules joined unescape (rawContents table fragment)) := by
      rw [maskOoxmlFragment_eq]
      refine like_refill (by rw [length_newContents, hraws]) fun t ht => ?_
      rcases mem_refilled ht with ht | ht
      · exact contents_plain hformed t (hraws ▸ ht)
      · obtain ⟨m, -, hm⟩ := List.mem_map.mp ht
        obtain ⟨u, -, rfl⟩ := Option.map_eq_some_iff.mp hm
        exact xmlEscape_plain u
    generalize (maskOoxmlFragment unescape table fragment rules joined).1 = out at hlike ⊢
    have hnew : rawContents table out = newContents rules joined unescape (rawContents table fragment) := by
      rw [textNodes_contents, hlike.contents_eq]
    refine ⟨?_, fun i text htext huntouched => ?_, ?_⟩
    · have hout := nodesFrom_outside (parts_formed table out) (Nat.le_refl 0) (parts_text (textLength_bounded table) out).symm
      have hin := nodesFrom_outside hformed (Nat.le_refl 0) (parts_text (textLength_bounded table) fragment).symm
      rw [slice_self] at hout hin
      exact hout.trans ((hlike.frames_eq []).trans hin.symm)
    · have hi : i < ((rawContents table fragment).map unescape).length := by
        rw [List.length_map]
        exact (List.getElem?_eq_some_iff.mp htext).1
      have hnone : (((maskedTexts rules joined ((rawContents table fragment).map unescape))[i]?).bind id).isSome = false := by
        rw [Bool.eq_false_iff]
        exact mt (hall.touched i hi).mp huntouched
      have hsome := List.getElem?_eq_getElem (hall.length.symm ▸ hi)
      rw [hsome, Option.bind_some, id, Option.isSome_eq_false_iff, Option.isNone_iff_eq_none] at hnone
      rw [hnone] at hsome
      rw [hnew, newContents, refilled, List.getElem?_zipWith, htext, List.getElem?_map, hsome]
      rfl
    · rw [hnew, newContents, newContents_read hescape]
      exact hall.text

/-! `html.unescape` takes back what `escape` writes. -/

/-- The names that `escape` writes. -/
def KnowsEscapes (html5 : HtmlUnescape.Html5) : Prop :=
  html5 "amp;".toList = some ['&'] ∧ html5 "lt;".toList = some ['<'] ∧ html5 "gt;".toList = some ['>']

theorem wholeText_name {html5 : HtmlUnescape.Html5} {name value : Text} (hvalue : html5 name = some value)
    (hfirst : name.head? ≠ some '#') (hentity : Html.entityLength ('&' :: name) = some (name.length + 1)) (rest : Text) :
    HtmlDetected.wholeText html5 ('&' :: name ++ rest) = value ++ HtmlDetected.wholeText html5 rest := by
  have hlength := HtmlDetected.charrefLength_of_entityLength (HtmlDetected.entityLength_append hentity rest)
  have hreplaced : HtmlUnescape.replaceCharref html5 name = value := by
    unfold HtmlUnescape.replaceCharref
    split
    · exact absurd rfl hfirst
    · rw [hvalue]
  rw [← hreplaced]
  exact (HtmlDetected.charrefs_form html5 rest hlength).2

theorem unescape_xmlEscape {html5 : HtmlUnescape.Html5} (h : KnowsEscapes html5) (t : Text) :
    HtmlUnescape.unescape html5 (xmlEscape t) = t := by
  obtain ⟨hamp, hlt, hgt⟩ := h
  rw [HtmlDetected.unescape_eq]
  induction t with
  | nil => rfl
  | cons c t ih =>
    rw [xmlEscape, Html.escape, List.flatMap_cons]
    change HtmlDetected.wholeText html5 (_ ++ xmlEscape t) = _
    split
    · rename_i hc
      exact (wholeText_name hamp (by decide) (by decide) (xmlEscape t)).trans (by rw [ih, hc]; rfl)
    · split
      · rename_i hc
        exact (wholeText_name hlt (by decide) (by decide) (xmlEscape t)).trans (by rw [ih, hc]; rfl)
      · split
        · rename_i hc
          exact (wholeText_name hgt (by decide) (by decide) (xmlEscape t)).trans (by rw [ih, hc]; rfl)
        · rename_i hc _ _
          rw [HtmlDetected.wholeText, List.singleton_append, sub_of_none (HtmlDetected.charrefLength_amp _ hc)]
          exact congrArg (c :: ·) ih

def escapeNames : HtmlUnescape.Html5 := fun name =>
  if name = "amp;".toList then some ['&'] else if name = "lt;".toList then some ['<']
  else if name = "gt;".toList then some ['>'] else none

/-- A policy on every text. -/
def wholeRule : MaskingRule where
  policyId := some 1
  policyName := "whole"
  policyType := "pii"
  finditer := fun text => if text = [] then [] else [⟨0, text.length, "<*>".toList⟩]
  ordered := fun text => by
    split
    · trivial
    · exact ⟨Nat.le_refl 0, Nat.zero_le _, Nat.le_refl _, trivial⟩

theorem ooxml_spliced_three :
    Spliced (HtmlUnescape.unescape escapeNames) Char.isAlpha [wholeRule] true
      "<w:t>a&amp;</w:t><w:r/><w:t></w:t><w:t>b</w:t>".toList "<w:t>&lt;*&gt;</w:t><w:r/><w:t></w:t><w:t></w:t>".toList := by
  have h := (ooxml_spliced (HtmlUnescape.unescape escapeNames) (unescape_xmlEscape ⟨rfl, rfl, rfl⟩) Char.isAlpha).2
    "<w:t>a&amp;</w:t><w:r/><w:t></w:t><w:t>b</w:t>".toList [wholeRule] true
  have hout : (maskOoxmlFragment (HtmlUnescape.unescape escapeNames) Char.isAlpha
      "<w:t>a&amp;</w:t><w:r/><w:t></w:t><w:t>b</w:t>".toList [wholeRule] true).1 =
        "<w:t>&lt;*&gt;</w:t><w:r/><w:t></w:t><w:t></w:t>".toList := by decide
  rwa [hout] at h

end XgenSdk.OoxmlSplice
