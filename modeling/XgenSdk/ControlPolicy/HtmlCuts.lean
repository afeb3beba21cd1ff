import XgenSdk.ControlPolicy.HtmlScan

/-! Cutting a document: the pieces by the text alone, and that the segments of
the loop over positions are these pieces, one after the other. -/
namespace XgenSdk.HtmlCuts
open XgenSdk.Search XgenSdk.Splice XgenSdk.Rules XgenSdk.Html XgenSdk.HtmlScan

/-- A piece of a document, as a segment shows it. -/
abbrev Cut := Kind × Text

def textCut (pending : Text) : List Cut := if pending = [] then [] else [(.text, pending)]

/-- What follows the opener of a comment or CDATA section, up to its closer. -/
def sectionCuts (o : Text × Text) (inner : Text) : List Cut × Text :=
  match search (literal o.2) inner with
  | none => ([(.markup, o.1), (.raw, inner)], [])
  | some (k, _) =>
    ([(.markup, o.1), (.raw, inner.take k), (.markup, o.2)], inner.drop (k + o.2.length))

def rawCut (s : Text) : List Cut := if s = [] then [] else [(.raw, s)]

/-- What follows the opening tag of a script or style element. -/
def elementCuts (name tag rest : Text) : List Cut × Text :=
  match search (closingAt name) rest with
  | none => ((.markup, tag) :: rawCut rest, [])
  | some (k, n) =>
    ((.markup, tag) :: (rawCut (rest.take k) ++ [(.markup, (rest.drop k).take n)]), rest.drop (k + n))

/-- The pieces of what opens at the head of a text, and the text behind them. -/
inductive Opens : Text → List Cut × Text → Prop
  | comment {s o} : openers.find? (·.1.isPrefixOf s) = some o → Opens s (sectionCuts o (s.drop o.1.length))
  | element {name tag rest} : openers.find? (·.1.isPrefixOf (tag ++ rest)) = none →
      rawTextName (tag ++ rest) = some name →
      TagTo (((tag ++ rest).drop (1 + name.length)).dropWhile tagNameChar) rest →
      Opens (tag ++ rest) (elementCuts name tag rest)
  | tag {tag rest} : openers.find? (·.1.isPrefixOf (tag ++ rest)) = none → rawTextName (tag ++ rest) = none →
      TagTo (((tag ++ rest).drop 1).dropWhile tagNameChar) rest → Opens (tag ++ rest) ([(.markup, tag)], rest)

/-- The pieces of a document whose text up to the tag is still pending. -/
inductive Cuts : Text → Text → List Cut → Prop
  | done {pending} : Cuts pending [] (textCut pending)
  | char {pending c s cuts} : opensTag (c :: s) = false → Cuts (pending ++ [c]) s cuts → Cuts pending (c :: s) cuts
  | cut {pending s opened cuts} : opensTag s = true → Opens s opened → Cuts [] opened.2 cuts →
      Cuts pending s (textCut pending ++ opened.1 ++ cuts)

theorem opensTag_head {c : Char} {s : Text} (h : opensTag (c :: s) = true) : c = '<' := by
  unfold opensTag at h
  split at h
  · rename_i heq
    exact (List.cons.inj heq).1
  · rename_i heq
    exact (List.cons.inj heq).1
  · cases h

theorem notMem_of_search {c : Char} {s : Text} (h : search (literal [c]) s = none) : c ∉ s := by
  intro hmem
  obtain ⟨front, back, rfl⟩ := List.append_of_mem hmem
  have hnone := search_none h front.length (by simp)
  rw [List.drop_left] at hnone
  have hsome : literal [c] (c :: back) = some 1 := literal_eq_some.mpr ⟨by simp, rfl⟩
  rw [hsome] at hnone
  cases hnone

/-- Text without `<` is passed over. -/
theorem Cuts.chars {pending s : Text} {cuts : List Cut} (front : Text) (hfront : '<' ∉ front)
    (h : Cuts (pending ++ front) s cuts) : Cuts pending (front ++ s) cuts := by
  induction front generalizing pending with
  | nil => simpa using h
  | cons c front ih =>
    have hc : opensTag (c :: (front ++ s)) = false := by
      refine Bool.eq_false_iff.mpr fun hopen => hfront ?_
      rw [opensTag_head hopen]
      exact List.mem_cons_self
    refine .char hc (ih (fun hmem => hfront (List.mem_cons_of_mem _ hmem)) ?_)
    rwa [List.append_assoc]

/-! Segments. -/

def cutOf (document : Text) (s : Segment) : Cut := (s.kind, content document s)

/-- Segments from `a` to `b`, each from where the previous one ends. -/
def Chain : Nat → Nat → List Segment → Prop
  | a, b, [] => a = b
  | a, b, s :: rest => s.start = a ∧ a ≤ s.stop ∧ Chain s.stop b rest

theorem Chain.append {a b c : Nat} {front back : List Segment} (h : Chain a b front) (h' : Chain b c back) :
    Chain a c (front ++ back) := by
  induction front generalizing a with
  | nil =>
    obtain rfl : a = b := h
    exact h'
  | cons s front ih => exact ⟨h.1, h.2.1, ih h.2.2⟩

theorem Chain.le {a b : Nat} {segments : List Segment} (h : Chain a b segments) : a ≤ b := by
  induction segments generalizing a with
  | nil =>
    obtain rfl : a = b := h
    exact Nat.le_refl _
  | cons s rest ih => exact h.2.1.trans (ih h.2.2)

/-- The contents of a chain are the text between its ends. -/
theorem Chain.contents {document : Text} {a b : Nat} {segments : List Segment} (h : Chain a b segments) :
    segments.flatMap (content document) = slice document a b := by
  induction segments generalizing a with
  | nil =>
    obtain rfl : a = b := h
    rw [List.flatMap_nil, slice_self]
  | cons s rest ih =>
    rw [List.flatMap_cons, ih h.2.2, content, h.1, slice_append document h.2.1 h.2.2.le]

theorem flush_chain {a b : Nat} (h : a ≤ b) : Chain a b (flush a b) := by
  unfold flush
  split
  · exact ⟨rfl, h, rfl⟩
  · exact Nat.le_antisymm h (by omega)

theorem flush_cuts {document : Text} {a b : Nat} (hb : b ≤ document.length) :
    (flush a b).map (cutOf document) = textCut (slice document a b) := by
  have hlen := length_slice document (a := a) hb
  unfold flush textCut
  split
  · rename_i hlt
    rw [if_neg (by intro hnil; rw [hnil] at hlen; simp at hlen; omega)]
    rfl
  · rename_i hge
    rw [if_pos (List.length_eq_zero_iff.mp (by omega))]
    rfl

section Markup
variable {document : Text} {lt : Nat}

theorem slice_of_prefix {s : Text} (h : s <+: document.drop lt) : slice document lt (lt + s.length) = s := by
  obtain ⟨t, ht⟩ := h
  rw [slice, List.drop_take, Nat.add_sub_cancel_left, ← ht, List.take_left]

theorem sectionAt_cuts {o : Text × Text} (ho : o ∈ openers) (hpre : o.1 <+: document.drop lt) (hlt : lt ≤ document.length) :
    let cut := sectionAt document lt o.1 o.2
    lt < cut.2 ∧ cut.2 ≤ document.length ∧ Chain lt cut.2 cut.1 ∧
      (cut.1.map (cutOf document), document.drop cut.2) =
        sectionCuts o ((document.drop lt).drop o.1.length) := by
  intro cut
  have hne : o.1 ≠ [] ∧ o.2 ≠ [] := by
    have hall : ∀ o ∈ openers, o.1 ≠ [] ∧ o.2 ≠ [] := by decide
    exact hall o ho
  have hlen := hpre.length_le
  have hpos := List.length_pos_iff.mpr hne.1
  rw [List.length_drop] at hlen
  have hinner : (document.drop lt).drop o.1.length = document.drop (lt + o.1.length) := List.drop_drop
  have hopen := slice_of_prefix hpre
  rw [hinner]
  cases hfind : findFrom document o.2 (lt + o.1.length) with
  | none =>
    have hs : search (literal o.2) (document.drop (lt + o.1.length)) = none := Option.map_eq_none_iff.mp hfind
    have hcut : cut = ([⟨lt, lt + o.1.length, .markup⟩, ⟨lt + o.1.length, document.length, .raw⟩],
        document.length) := by
      simp only [cut, sectionAt, hfind]
    rw [hcut]
    refine ⟨by dsimp only; omega, Nat.le_refl _, ⟨rfl, by dsimp only; omega, rfl, by dsimp only; omega, rfl⟩, ?_⟩
    have hrest : slice document (lt + o.1.length) document.length = document.drop (lt + o.1.length) := by
      rw [slice, List.take_length]
    simp only [sectionCuts, hs, List.map_cons, List.map_nil, cutOf, content, hopen, hrest, List.drop_length]
  | some close =>
    obtain ⟨hle, hend, hs⟩ := findFrom_some hfind hne.2
    have hcut : cut = ([⟨lt, lt + o.1.length, .markup⟩, ⟨lt + o.1.length, close, .raw⟩,
        ⟨close, close + o.2.length, .markup⟩], close + o.2.length) := by
      simp only [cut, sectionAt, hfind]
    rw [hcut]
    refine ⟨by dsimp only; omega, hend, ⟨rfl, by dsimp only; omega, rfl, hle, rfl, by dsimp only; omega, rfl⟩, ?_⟩
    have hclose : slice document close (close + o.2.length) = o.2 := by
      refine slice_of_prefix ?_
      have hm := (literal_eq_some.mp (search_some hs).2.1).1
      rwa [List.drop_drop, Nat.add_sub_cancel' hle] at hm
    have hraw : slice document (lt + o.1.length) close =
        (document.drop (lt + o.1.length)).take (close - (lt + o.1.length)) := by
      rw [slice, List.drop_take]
    have hrest : (document.drop (lt + o.1.length)).drop (close - (lt + o.1.length) + o.2.length) =
        document.drop (close + o.2.length) := by
      rw [List.drop_drop]
      congr 1
      omega
    simp only [sectionCuts, hs, List.map_cons, List.map_nil, cutOf, content, hopen, hclose, hraw, hrest]

theorem raw_cuts {a b : Nat} (hb : b ≤ document.length) :
    (if a < b then [(⟨a, b, .raw⟩ : Segment)] else []).map (cutOf document) = rawCut (slice document a b) := by
  have hlen := length_slice document (a := a) hb
  unfold rawCut
  split
  · rename_i hlt
    rw [if_neg (by intro hnil; rw [hnil] at hlen; simp at hlen; omega)]
    rfl
  · rename_i hge
    rw [if_pos (List.length_eq_zero_iff.mp (by omega))]
    rfl

theorem raw_chain {a b : Nat} (h : a ≤ b) : Chain a b (if a < b then [(⟨a, b, .raw⟩ : Segment)] else []) := by
  split
  · exact ⟨rfl, h, rfl⟩
  · exact Nat.le_antisymm h (by omega)

theorem rawTextAt_cuts {openEnd : Nat} (name : Text) (hlt : lt < openEnd) (hend : openEnd ≤ document.length) :
    let cut := rawTextAt document lt openEnd name
    lt < cut.2 ∧ cut.2 ≤ document.length ∧ Chain lt cut.2 cut.1 ∧
      (cut.1.map (cutOf document), document.drop cut.2) =
        elementCuts name (slice document lt openEnd) (document.drop openEnd) := by
  intro cut
  cases hs : search (closingAt name) (document.drop openEnd) with
  | none =>
    have hcut : cut = (⟨lt, openEnd, .markup⟩ :: (if openEnd < document.length then
        [⟨openEnd, document.length, .raw⟩] else []), document.length) := by
      simp only [cut, rawTextAt, hs]
    rw [hcut]
    refine ⟨by dsimp only; omega, Nat.le_refl _, ⟨rfl, by dsimp only; omega, raw_chain hend⟩, ?_⟩
    have hrest : slice document openEnd document.length = document.drop openEnd := by
      rw [slice, List.take_length]
    simp only [elementCuts, hs, List.map_cons, raw_cuts (Nat.le_refl _), hrest, List.drop_length]
    rfl
  | some found =>
    obtain ⟨k, n⟩ := found
    have hcut : cut = (⟨lt, openEnd, .markup⟩ :: (if openEnd < openEnd + k then
        [⟨openEnd, openEnd + k, .raw⟩] else []) ++ [⟨openEnd + k, openEnd + k + n, .markup⟩],
        openEnd + k + n) := by
      simp only [cut, rawTextAt, hs]
    obtain ⟨hk, hm, -⟩ := search_some hs
    have hn := (local_closingAt name).length_le hm
    have hpos := (local_closingAt name).pos hm
    rw [List.length_drop] at hk hn
    rw [List.length_drop] at hn
    rw [hcut]
    refine ⟨by dsimp only; omega, by dsimp only; omega, ?_, ?_⟩
    · refine ⟨rfl, by dsimp only; omega, ?_⟩
      exact (raw_chain (Nat.le_add_right _ _)).append ⟨rfl, by dsimp only; omega, rfl⟩
    · have hraw : slice document openEnd (openEnd + k) = (document.drop openEnd).take k := by
        rw [slice, List.drop_take, Nat.add_sub_cancel_left]
      have hclose : slice document (openEnd + k) (openEnd + k + n) = ((document.drop openEnd).drop k).take n := by
        rw [slice, List.drop_take, Nat.add_sub_cancel_left, List.drop_drop]
      have hrest : (document.drop openEnd).drop (k + n) = document.drop (openEnd + k + n) := by
        rw [List.drop_drop, Nat.add_assoc]
      simp only [elementCuts, hs, List.cons_append, List.map_cons, List.map_append, List.map_nil,
        raw_cuts (by omega : openEnd + k ≤ document.length), cutOf, content, hraw,
        hclose, hrest]

theorem tagEnd_tagged {found : Found} {pos : Nat} (hfound : Remembers document found)
    (hpos : pos ≤ document.length) :
    ∃ j found', tagEnd document found pos = some (j, found') ∧ Remembers document found' ∧ pos ≤ j ∧
      j ≤ document.length ∧ TagTo ((document.drop pos).dropWhile tagNameChar) (document.drop j) := by
  have hle := le_runEnd document tagNameChar pos
  obtain ⟨j, found', hj, hfound', hij, hjn, hto⟩ :=
    tagLoop_tagged (document.length + 1) hfound (runEnd_le document tagNameChar hpos) (by omega)
  rw [drop_runEnd] at hto
  exact ⟨j, found', hj, hfound', hle.trans hij, hjn, hto⟩

theorem rawTextName_length {s name : Text} (h : rawTextName s = some name) : 1 + name.length ≤ s.length := by
  have hname : ∀ {s name' : Text}, matchRawName s name' = some name → name.length ≤ s.length := by
    intro s name' h
    unfold matchRawName at h
    dsimp only at h
    split at h
    · split at h
      · rw [← Option.some.inj h, List.length_take]
        exact Nat.min_le_right _ _
      · cases h
    · cases h
  unfold rawTextName at h
  split at h
  · rename_i s
    obtain h | h := Option.or_eq_some_iff.mp h
    · have := hname h
      rw [List.length_cons]
      omega
    · have := hname h.2
      rw [List.length_cons]
      omega
  · cases h

/-- Whatever opens at `lt`, its segments are the pieces there. -/
theorem markupAt_opens {found : Found} (hfound : Remembers document found)
    (hopen : opensTag (document.drop lt) = true) :
    ∃ cut found', markupAt document found lt = some (cut, found') ∧ Remembers document found' ∧
      lt < cut.2 ∧ cut.2 ≤ document.length ∧ Chain lt cut.2 cut.1 ∧
      Opens (document.drop lt) (cut.1.map (cutOf document), document.drop cut.2) := by
  have hlt : lt < document.length := by
    refine Nat.lt_of_not_le fun hle => ?_
    rw [List.drop_of_length_le hle] at hopen
    cases hopen
  unfold markupAt
  split
  · rename_i o ho
    have hmem := List.mem_of_find?_eq_some ho
    have hpre : o.1 <+: document.drop lt := List.isPrefixOf_iff_prefix.mp (by simpa using List.find?_some ho)
    obtain ⟨h1, h2, h3, h4⟩ := sectionAt_cuts hmem hpre hlt.le
    refine ⟨_, found, rfl, hfound, h1, h2, h3, ?_⟩
    rw [h4]
    exact .comment ho
  · rename_i hsections
    split
    · rename_i name hname
      have hlen := rawTextName_length hname
      rw [List.length_drop] at hlen
      obtain ⟨j, found', hj, hfound', hle, hjn, hto⟩ :=
        tagEnd_tagged hfound (by omega : lt + 1 + name.length ≤ document.length)
      obtain ⟨h1, h2, h3, h4⟩ := rawTextAt_cuts name (by omega : lt < j) hjn
      refine ⟨_, found', by rw [hj]; rfl, hfound', h1, h2, h3, ?_⟩
      rw [h4]
      have hsplit : slice document lt j ++ document.drop j = document.drop lt := slice_drop document (by omega)
      rw [← hsplit] at hsections hname ⊢
      refine .element hsections hname ?_
      rw [hsplit, List.drop_drop, ← Nat.add_assoc]
      exact hto
    · rename_i hname
      obtain ⟨j, found', hj, hfound', hle, hjn, hto⟩ := tagEnd_tagged hfound (by omega : lt + 1 ≤ document.length)
      refine ⟨([⟨lt, j, .markup⟩], j), found', by rw [hj]; rfl, hfound', by dsimp only; omega, hjn,
        ⟨rfl, by dsimp only; omega, rfl⟩, ?_⟩
      have hsplit : slice document lt j ++ document.drop j = document.drop lt := slice_drop document (by omega)
      rw [← hsplit] at hsections hname ⊢
      refine .tag hsections hname ?_
      rw [hsplit, List.drop_drop]
      exact hto

/-- The loop ends, and its segments are the pieces of the document from `textStart` on. -/
theorem segmentLoop_cuts (fuel : Nat) {found : Found} {pos textStart : Nat} (hfound : Remembers document found)
    (hstart : textStart ≤ pos) (hpos : pos ≤ document.length) (hfuel : document.length - pos ≤ fuel) :
    ∃ segments, segmentLoop document fuel found pos textStart = some segments ∧
      Chain textStart document.length segments ∧
      Cuts (slice document textStart pos) (document.drop pos) (segments.map (cutOf document)) := by
  induction fuel generalizing found pos textStart with
  | zero =>
    have heq : pos = document.length := by omega
    subst heq
    have hnone : findFrom document ['<'] document.length = none := by
      rw [findFrom, List.drop_length]
      rfl
    refine ⟨flush textStart document.length, by unfold segmentLoop; rw [hnone], flush_chain hstart, ?_⟩
    rw [flush_cuts (Nat.le_refl _), List.drop_length]
    exact .done
  | succ fuel ih =>
    cases hfind : findFrom document ['<'] pos with
    | none =>
      refine ⟨flush textStart document.length, by unfold segmentLoop; rw [hfind],
        flush_chain (hstart.trans hpos), ?_⟩
      have hno : '<' ∉ document.drop pos := notMem_of_search (Option.map_eq_none_iff.mp hfind)
      rw [flush_cuts (Nat.le_refl _), ← slice_append document hstart hpos]
      have hrest : slice document pos document.length = document.drop pos := by
        rw [slice, List.take_length]
      rw [hrest, ← List.append_nil (document.drop pos)]
      refine .chars _ hno ?_
      rw [List.append_nil]
      exact .done
    | some lt =>
      obtain ⟨hle, hend, hs⟩ := findFrom_some hfind (List.cons_ne_nil _ _)
      rw [List.length_singleton] at hend hs
      have hfront : '<' ∉ slice document pos lt := by
        obtain ⟨before, word, after, hsplit, hlen, -, -, hnone⟩ := search_split (local_literal (List.cons_ne_nil _ _)) hs
        have hbefore : slice document pos lt = before := by
          rw [slice, List.drop_take, hsplit, List.append_assoc, ← hlen, List.take_left]
        rw [hbefore]
        exact notMem_of_search hnone
      have htext := slice_append document hstart hle
      rw [← slice_drop document hle]
      unfold segmentLoop
      rw [hfind]
      dsimp only
      cases hopen : opensTag (document.drop lt) with
      | false =>
        -- a stray `<` is text
        obtain ⟨segments, hsegments, hchain, hcuts⟩ :=
          ih hfound (by omega : textStart ≤ lt + 1) hend (by omega)
        refine ⟨segments, by simpa using hsegments, hchain, .chars _ hfront ?_⟩
        have hcons : document.drop lt = document[lt] :: document.drop (lt + 1) := List.drop_eq_getElem_cons hend
        rw [hcons] at hopen ⊢
        refine .char hopen ?_
        have hone : slice document lt (lt + 1) = [document[lt]] := by
          rw [slice, List.drop_take, Nat.add_sub_cancel_left, hcons]
          rfl
        rw [htext, ← hone, slice_append document (hstart.trans hle) (Nat.le_succ lt)]
        exact hcuts
      | true =>
        obtain ⟨cut, found', hcut, hfound', hlt, hcutn, hchain, hopens⟩ := markupAt_opens hfound hopen
        obtain ⟨segments, hsegments, hchain', hcuts⟩ := ih hfound' (Nat.le_refl cut.2) hcutn (by omega)
        refine ⟨flush textStart lt ++ cut.1 ++ segments, ?_, ?_, .chars _ hfront ?_⟩
        · rw [hcut]
          change (segmentLoop document fuel found' cut.2 cut.2 >>= fun rest => _) = _
          rw [hsegments]
          rfl
        · exact ((flush_chain (hstart.trans hle)).append hchain).append hchain'
        · rw [List.map_append, List.map_append, flush_cuts (by omega), htext]
          rw [slice_self] at hcuts
          exact .cut hopen hopens hcuts

end Markup

end XgenSdk.HtmlCuts
