import XgenSdk.ControlPolicy.HtmlTags

/-! The pieces of a document as a grammar of their own: which lists of pieces are
the pieces of the text they make up. -/
namespace XgenSdk.HtmlBlocks
open XgenSdk.Search XgenSdk.Splice XgenSdk.Rules XgenSdk.Html XgenSdk.HtmlScan XgenSdk.HtmlCuts XgenSdk.HtmlTags

def flat (cuts : List Cut) : Text := cuts.flatMap Prod.snd

@[simp] theorem flat_nil : flat [] = [] := rfl

@[simp] theorem flat_cons (cut : Cut) (cuts : List Cut) : flat (cut :: cuts) = cut.2 ++ flat cuts := rfl

@[simp] theorem flat_append (front back : List Cut) : flat (front ++ back) = flat front ++ flat back :=
  List.flatMap_append

@[simp] theorem flat_textCut (w : Text) : flat (textCut w) = w := by
  unfold textCut
  split
  · rename_i h
    rw [h, flat_nil]
  · simp

@[simp] theorem flat_rawCut (w : Text) : flat (rawCut w) = w := by
  unfold rawCut
  split
  · rename_i h
    rw [h, flat_nil]
  · simp

/-- No tag opens in `w`, with `rest` behind it. -/
def NoOpener (w rest : Text) : Prop :=
  ∀ front back, w = front ++ back → back ≠ [] → opensTag (back ++ rest) = false

/-- What a tag has behind its name. -/
def attributes (tag : Text) : Text := (tag.drop 1).dropWhile tagNameChar

/-- `tag` is a tag, up to `rest`. -/
structure Tag (tag rest : Text) : Prop where
  opens : opensTag tag = true
  noSection : openers.find? (·.1.isPrefixOf tag) = none
  ends : TagTo (attributes tag ++ rest) rest

/-- No text comes at once. -/
def Starts (cuts : List Cut) : Prop := ∀ w rest, cuts ≠ (.text, w) :: rest

/-- Pieces that are the pieces of the text they make up. -/
inductive Doc : List Cut → Prop
  | nil : Doc []
  | text {w cuts} : w ≠ [] → NoOpener w (flat cuts) → Starts cuts → Doc cuts → Doc ((.text, w) :: cuts)
  | comment {o raw cuts} : o ∈ openers → search (literal o.2) raw = none → Doc cuts →
      Doc ((.markup, o.1) :: (.raw, raw) :: (.markup, o.2) :: cuts)
  | openComment {o raw} : o ∈ openers → search (literal o.2) raw = none → Doc [(.markup, o.1), (.raw, raw)]
  | element {tag name raw close cuts} : Tag tag (raw ++ (close ++ flat cuts)) → rawTextName tag = some name →
      search (closingAt name) raw = none → closingAt name close = some close.length → Doc cuts →
      Doc ((.markup, tag) :: (rawCut raw ++ (.markup, close) :: cuts))
  | openElement {tag name raw} : Tag tag raw → rawTextName tag = some name → search (closingAt name) raw = none →
      Doc ((.markup, tag) :: rawCut raw)
  | tag {tag cuts} : Tag tag (flat cuts) → rawTextName tag = none → Doc cuts → Doc ((.markup, tag) :: cuts)

/-! The names of raw text elements. -/

/-- A character of a name of a raw text element, as far as the scan minds. -/
def plain (c : Char) : Bool := tagNameChar c && !isQuote c && c ≠ '<'

theorem plain_of_upper {c : Char} (hlow : 65 ≤ c.toNat) (hhigh : c.toNat ≤ 90) : plain c = true := by
  have hne : ∀ d : Char, d.toNat < 65 → c ≠ d := by
    rintro d hd rfl
    omega
  have hspace : Py.isSpace c = false := by
    unfold Py.isSpace
    dsimp only
    simp only [Bool.or_eq_false_iff, Bool.and_eq_false_iff, decide_eq_false_iff_not]
    omega
  simp [plain, tagNameChar, isQuote, hspace, hne '/' (by decide), hne '>' (by decide), hne '"' (by decide),
    hne '\'' (by decide), hne '<' (by decide)]

/-- The letters of these names. -/
def nameLetters : Text := "script".toList ++ "style".toList

/-- A character that folds to a letter of such a name is a letter. -/
theorem plain_of_caseless {c : Char} (h : caseless c ∈ nameLetters) : plain c = true := by
  have hletters : ∀ d ∈ nameLetters, plain d = true := forall_mem_of_all (by decide)
  unfold caseless at h
  split at h
  · rename_i hc
    obtain rfl | rfl := hc <;> decide
  · split at h
    · rename_i hc
      rw [hc]
      decide
    · unfold Char.toLower at h
      split at h
      · rename_i hupper
        exact plain_of_upper hupper.1 hupper.2
      · exact hletters c h

theorem letters_of_same {body name : Text} (hsame : sameCaseless body name = true)
    (hname : ∀ c ∈ name, caseless c ∈ nameLetters) : ∀ c ∈ body, caseless c ∈ nameLetters := by
  intro c hc
  have hfolded : caseless c ∈ name.map caseless := by
    rw [← of_decide_eq_true hsame]
    exact List.mem_map_of_mem hc
  obtain ⟨d, hd, heq⟩ := List.mem_map.mp hfolded
  exact heq ▸ hname d hd

/-- What a raw text element of name `name` begins with. -/
theorem matchRawName_some {s name found : Text} (h : matchRawName s name = some found) :
    sameCaseless found name = true ∧ ∃ c t, s = found ++ c :: t ∧ (Py.isSpace c = true ∨ c = '/' ∨ c = '>') := by
  unfold matchRawName at h
  dsimp only at h
  split at h
  · rename_i c t ht
    split at h
    · rename_i hcond
      simp only [Bool.and_eq_true, Bool.or_eq_true, decide_eq_true_eq] at hcond
      obtain rfl := Option.some.inj h
      refine ⟨hcond.1, c, t, ?_, ?_⟩
      · rw [← ht, List.take_append_drop]
      · simpa [or_assoc] using hcond.2
    · cases h
  · cases h

theorem rawTextName_some {s name : Text} (h : rawTextName s = some name) :
    (∀ c ∈ name, caseless c ∈ nameLetters) ∧
      ∃ c t, s = '<' :: (name ++ c :: t) ∧ (Py.isSpace c = true ∨ c = '/' ∨ c = '>') := by
  unfold rawTextName at h
  split at h
  · obtain h | ⟨-, h⟩ := Option.or_eq_some_iff.mp h
    · obtain ⟨hsame, c, t, rfl, hc⟩ := matchRawName_some h
      exact ⟨letters_of_same hsame (forall_mem_of_all (by decide)), c, t, rfl, hc⟩
    · obtain ⟨hsame, c, t, rfl, hc⟩ := matchRawName_some h
      exact ⟨letters_of_same hsame (forall_mem_of_all (by decide)), c, t, rfl, hc⟩
  · cases h

/-- With its `>` in it, the tag alone says which element opens. -/
theorem matchRawName_append {u name : Text} (hgt : '>' ∈ u) (hname : ∀ c ∈ name, caseless c ∈ nameLetters)
    (r : Text) : matchRawName (u ++ r) name = matchRawName u name := by
  obtain hlt | hle := Nat.lt_or_ge name.length u.length
  · unfold matchRawName
    rw [List.take_append_of_le_length hlt.le, List.drop_append_of_le_length hlt.le]
    have hne : u.drop name.length ≠ [] := by
      intro hnil
      have hlen := congrArg List.length hnil
      rw [List.length_drop, List.length_nil] at hlen
      omega
    obtain ⟨c, t, hct⟩ := List.exists_cons_of_ne_nil hne
    rw [hct, List.cons_append]
  · -- the name would reach over the `>`
    have hright : matchRawName u name = none := by
      unfold matchRawName
      rw [List.drop_of_length_le hle]
    rw [hright]
    cases hleft : matchRawName (u ++ r) name with
    | none => rfl
    | some found =>
      exfalso
      obtain ⟨hsame, c, t, hsplit, -⟩ := matchRawName_some hleft
      have hlen : found.length = name.length := by
        have hmap := congrArg List.length (of_decide_eq_true hsame)
        simpa using hmap
      have hpre : u <+: found := by
        refine List.prefix_of_prefix_length_le (List.prefix_append u r) ?_ (by omega)
        rw [hsplit]
        exact List.prefix_append _ _
      have hplain := plain_of_caseless (letters_of_same hsame hname '>' (hpre.subset hgt))
      exact absurd hplain (by decide)

theorem rawTextName_append {tag : Text} (hgt : '>' ∈ tag) (r : Text) : rawTextName (tag ++ r) = rawTextName tag := by
  cases tag with
  | nil => cases hgt
  | cons c u =>
    by_cases hc : c = '<'
    · subst hc
      have hgt' : '>' ∈ u := (List.mem_cons.mp hgt).resolve_left (by decide)
      rw [List.cons_append, rawTextName, rawTextName,
        matchRawName_append hgt' (forall_mem_of_all (by decide)),
        matchRawName_append hgt' (forall_mem_of_all (by decide))]
    · unfold rawTextName
      split
      · rename_i s hs
        exact absurd (List.cons.inj hs).1 hc
      · split
        · rename_i s hs
          exact absurd (List.cons.inj hs).1 hc
        · rfl

/-- With its `>` in it, the tag alone says that it is no comment. -/
theorem isPrefixOf_append {o tag : Text} (hgt : '>' ∈ tag) (ho : '>' ∉ o) (r : Text) :
    o.isPrefixOf (tag ++ r) = o.isPrefixOf tag := by
  rw [Bool.eq_iff_iff, List.isPrefixOf_iff_prefix, List.isPrefixOf_iff_prefix]
  constructor
  · intro hpre
    obtain hle | hle := Nat.le_total o.length tag.length
    · exact List.prefix_of_prefix_length_le hpre (List.prefix_append _ _) hle
    · exact absurd ((List.prefix_of_prefix_length_le (List.prefix_append tag r) hpre hle).subset hgt) ho
  · exact fun hpre => hpre.trans (List.prefix_append _ _)

theorem noSection_append {tag : Text} (hgt : '>' ∈ tag) (r : Text) :
    openers.find? (·.1.isPrefixOf (tag ++ r)) = openers.find? (·.1.isPrefixOf tag) := by
  have hcomment : "<!--".toList.isPrefixOf (tag ++ r) = _ := isPrefixOf_append hgt (by decide) r
  have hcdata : "<![CDATA[".toList.isPrefixOf (tag ++ r) = _ := isPrefixOf_append hgt (by decide) r
  simp only [openers, List.find?_cons, List.find?_nil, hcomment, hcdata]

theorem opensTag_append {tag : Text} (hgt : '>' ∈ tag.drop 1) (r : Text) : opensTag (tag ++ r) = opensTag tag := by
  match tag, hgt with
  | c :: d :: t, _ =>
    by_cases hc : c = '<'
    · subst hc
      rfl
    · simp [opensTag, hc]
  | [c], hgt => cases hgt
  | [], hgt => cases hgt

/-! Tags. -/

theorem gt_of_attributes {tag : Text} (h : '>' ∈ attributes tag) : '>' ∈ tag.drop 1 ∧ '>' ∈ tag :=
  ⟨mem_of_mem_dropWhile h, List.mem_of_mem_drop (mem_of_mem_dropWhile h)⟩

theorem Tag.gt {tag rest : Text} (h : Tag tag rest) : rest = [] ∨ '>' ∈ attributes tag := by
  by_cases hrest : rest = []
  · exact .inl hrest
  · exact .inr (tagTo_append hrest h.ends).1

/-- What a tag is shows on the tag alone. -/
theorem Tag.whole {tag rest : Text} (h : Tag tag rest) :
    opensTag (tag ++ rest) = true ∧ openers.find? (·.1.isPrefixOf (tag ++ rest)) = none ∧
      rawTextName (tag ++ rest) = rawTextName tag := by
  obtain rfl | hgt := h.gt
  · rw [List.append_nil]
    exact ⟨h.opens, h.noSection, rfl⟩
  · obtain ⟨hdrop, hmem⟩ := gt_of_attributes hgt
    rw [opensTag_append hdrop, noSection_append hmem, rawTextName_append hmem]
    exact ⟨h.opens, h.noSection, rfl⟩

/-- A tag leaves open no quote that is behind it. -/
theorem Tag.shut {tag rest : Text} (h : Tag tag rest) {quote : Char} (hopen : LeavesOpen (attributes tag) quote) :
    quote ∉ rest := by
  by_cases hrest : rest = []
  · rw [hrest]
    exact List.not_mem_nil
  · exact (tagTo_append hrest h.ends).2.1 quote hopen

/-- The text behind a tag may change as long as no quote left open comes into it. -/
theorem Tag.change {tag rest rest' : Text} (h : Tag tag rest) (hend : rest = [] → rest' = [])
    (hshut : ∀ quote, LeavesOpen (attributes tag) quote → quote ∉ rest') : Tag tag rest' := by
  by_cases hrest : rest = []
  · rw [hend hrest]
    rwa [hrest] at h
  · exact ⟨h.opens, h.noSection, (tagTo_append hrest h.ends).2.2 rest' hshut⟩

/-- A scan from behind the first characters of the name is a scan from behind the name. -/
theorem attributes_of_scan {tag rest front u : Text} (hsplit : tag ++ rest = '<' :: (front ++ u))
    (hfront : ∀ c ∈ front, tagNameChar c = true) (hto : TagTo (u.dropWhile tagNameChar) rest) :
    TagTo (attributes tag ++ rest) rest := by
  by_cases hrest : rest = []
  · subst hrest
    rw [List.append_nil] at hsplit ⊢
    rw [attributes, hsplit, List.drop_succ_cons, List.drop_zero, List.dropWhile_append_of_pos hfront]
    exact hto
  · have hlt := tagTo_shorter hto hrest
    have hle := length_dropWhile_le tagNameChar u
    obtain ⟨v, rfl⟩ : rest <:+ u := by
      refine List.suffix_of_suffix_length_le (List.suffix_append tag rest) ?_ (by omega)
      rw [hsplit, ← List.cons_append]
      exact List.suffix_append _ _
    have htag : tag = '<' :: (front ++ v) := by
      rw [← List.append_assoc, ← List.cons_append] at hsplit
      exact List.append_cancel_right hsplit
    have hv : v.dropWhile tagNameChar ≠ [] := by
      intro hnil
      rw [dropWhile_through hnil] at hlt
      have := length_dropWhile_le tagNameChar rest
      omega
    rw [attributes, htag, List.drop_succ_cons, List.drop_zero, List.dropWhile_append_of_pos hfront,
      ← dropWhile_append hv]
    exact hto

theorem opensTag_cons {s : Text} (h : opensTag s = true) : ∃ u, s = '<' :: u := by
  cases s with
  | nil => cases h
  | cons c u => exact ⟨u, by rw [opensTag_head h]⟩

/-- What opens at the head of a text, with nothing of the text behind it. -/
theorem tag_of_opens {tag rest u : Text} (front : Text) (hopen : opensTag (tag ++ rest) = true)
    (hsections : openers.find? (·.1.isPrefixOf (tag ++ rest)) = none) (hsplit : tag ++ rest = '<' :: (front ++ u))
    (hfront : ∀ c ∈ front, tagNameChar c = true) (hto : TagTo (u.dropWhile tagNameChar) rest) :
    Tag tag rest ∧ rawTextName (tag ++ rest) = rawTextName tag := by
  have hends := attributes_of_scan hsplit hfront hto
  by_cases hrest : rest = []
  · subst hrest
    rw [List.append_nil] at hopen hsections ⊢
    exact ⟨⟨hopen, hsections, hends⟩, rfl⟩
  · obtain ⟨hdrop, hmem⟩ := gt_of_attributes (tagTo_append hrest hends).1
    rw [opensTag_append hdrop] at hopen
    rw [noSection_append hmem] at hsections
    exact ⟨⟨hopen, hsections, hends⟩, rawTextName_append hmem rest⟩

/-! Pieces of a document are such a list. -/

theorem plain_tagNameChar {c : Char} (h : plain c = true) : tagNameChar c = true := by
  simp only [plain, Bool.and_eq_true] at h
  exact h.1.1

theorem doc_textCut {w : Text} {cuts : List Cut} (hno : NoOpener w (flat cuts)) (hstarts : Starts cuts)
    (hdoc : Doc cuts) : Doc (textCut w ++ cuts) := by
  unfold textCut
  split
  · exact hdoc
  · rename_i hw
    exact .text hw hno hstarts hdoc

theorem opener_ne {o : Text × Text} (ho : o ∈ openers) : o.1 ≠ [] ∧ o.2 ≠ [] := by
  have hall : ∀ o ∈ openers, o.1 ≠ [] ∧ o.2 ≠ [] := by decide
  exact hall o ho

theorem tag_ne {tag rest : Text} (h : Tag tag rest) : tag ≠ [] := by
  rintro rfl
  cases h.opens

theorem Doc.eq_nil {cuts : List Cut} (h : Doc cuts) (hflat : flat cuts = []) : cuts = [] := by
  cases h with
  | nil => rfl
  | text hw _ _ _ => exact absurd (List.append_eq_nil_iff.mp hflat).1 hw
  | comment ho _ _ => exact absurd (List.append_eq_nil_iff.mp hflat).1 (opener_ne ho).1
  | openComment ho _ => exact absurd (List.append_eq_nil_iff.mp hflat).1 (opener_ne ho).1
  | element htag _ _ _ _ => exact absurd (List.append_eq_nil_iff.mp hflat).1 (tag_ne htag)
  | openElement htag _ _ => exact absurd (List.append_eq_nil_iff.mp hflat).1 (tag_ne htag)
  | tag htag _ _ => exact absurd (List.append_eq_nil_iff.mp hflat).1 (tag_ne htag)

theorem starts_markup (tag : Text) (cuts : List Cut) : Starts ((.markup, tag) :: cuts) := by
  intro w rest h
  cases (List.cons.inj h).1

/-- What opens at the head of a text makes a document with the pieces behind it. -/
theorem Doc.of_opens {s : Text} {opened : List Cut × Text} {cuts : List Cut} (hopen : opensTag s = true)
    (h : Opens s opened) (hflat : flat cuts = opened.2) (hdoc : Doc cuts) :
    flat (opened.1 ++ cuts) = s ∧ Starts (opened.1 ++ cuts) ∧ Doc (opened.1 ++ cuts) := by
  cases h with
  | @comment s o ho =>
    have hmem := List.mem_of_find?_eq_some ho
    have hpre : o.1 <+: s := List.isPrefixOf_iff_prefix.mp (by simpa using List.find?_some ho)
    obtain ⟨inner, rfl⟩ := hpre
    rw [List.drop_left] at hflat ⊢
    cases hs : search (literal o.2) inner with
    | none =>
      simp only [sectionCuts, hs] at hflat ⊢
      obtain rfl := hdoc.eq_nil hflat
      exact ⟨by simp, starts_markup _ _, .openComment hmem hs⟩
    | some found =>
      obtain ⟨k, n⟩ := found
      obtain ⟨before, word, after, rfl, rfl, hn, hword, hbefore⟩ :=
        search_split (local_literal (opener_ne hmem).2) hs
      obtain rfl := eq_of_literal (hn ▸ hword)
      simp only [sectionCuts, hs] at hflat ⊢
      rw [← List.length_append, List.drop_left] at hflat
      rw [List.append_assoc, List.take_left]
      refine ⟨by simp [hflat], starts_markup _ _, .comment hmem hbefore hdoc⟩
  | @element name tag rest hsections hname hto =>
    obtain ⟨hletters, c, t, hsplit, hc⟩ := rawTextName_some hname
    have hdrop : (tag ++ rest).drop (1 + name.length) = c :: t := by
      rw [hsplit, Nat.add_comm, List.drop_succ_cons, List.drop_left]
    rw [hdrop] at hto
    obtain ⟨htag, hsame⟩ := tag_of_opens name hopen hsections hsplit (fun c hc => plain_tagNameChar (plain_of_caseless (hletters c hc))) hto
    rw [hsame] at hname
    cases hs : search (closingAt name) rest with
    | none =>
      simp only [elementCuts, hs] at hflat ⊢
      obtain rfl := hdoc.eq_nil hflat
      rw [List.append_nil]
      exact ⟨by simp, starts_markup _ _, .openElement htag hname hs⟩
    | some found =>
      obtain ⟨k, n⟩ := found
      obtain ⟨raw, close, after, rfl, rfl, rfl, hclose, hraw⟩ := search_split (local_closingAt name) hs
      simp only [elementCuts, hs] at hflat ⊢
      rw [← List.length_append, List.drop_left] at hflat
      rw [List.append_assoc, List.take_left, List.drop_left, List.take_left]
      rw [List.append_assoc, ← hflat] at htag
      refine ⟨by simp [hflat], starts_markup _ _, ?_⟩
      have hassoc : ((Kind.markup, tag) :: (rawCut raw ++ [(Kind.markup, close)])) ++ cuts =
          (.markup, tag) :: (rawCut raw ++ (.markup, close) :: cuts) := by simp
      rw [hassoc]
      exact .element htag hname hraw hclose hdoc
  | @tag tag rest hsections hname hto =>
    obtain ⟨u, hsplit⟩ := opensTag_cons hopen
    rw [hsplit, List.drop_succ_cons, List.drop_zero] at hto
    obtain ⟨htag, hsame⟩ := tag_of_opens [] hopen hsections hsplit (fun c hc => by cases hc) hto
    rw [hsame] at hname
    exact ⟨by simp [hflat], starts_markup _ _, .tag (hflat ▸ htag) hname hdoc⟩

theorem Doc.of_cuts {pending s : Text} {cuts : List Cut} (h : Cuts pending s cuts) (hno : NoOpener pending s) :
    flat cuts = pending ++ s ∧ Doc cuts := by
  induction h with
  | @done pending =>
    have hstarts : Starts [] := by
      intro w rest h
      cases h
    have hdoc := doc_textCut hno hstarts .nil
    rw [List.append_nil] at hdoc
    exact ⟨by simp, hdoc⟩
  | @char pending c s cuts hstray hrest ih =>
    have hno' : NoOpener (pending ++ [c]) s := by
      intro front back hsplit hback
      obtain ⟨back', z, rfl⟩ := (List.eq_nil_or_concat back).resolve_left hback
      rw [List.concat_eq_append] at hsplit ⊢
      rw [← List.append_assoc] at hsplit
      obtain ⟨hfront, hz⟩ := List.append_inj' hsplit rfl
      obtain rfl : c = z := (List.cons.inj hz).1
      rw [List.append_assoc, List.singleton_append]
      by_cases hnil : back' = []
      · rw [hnil]
        exact hstray
      · exact hno front back' hfront hnil
    obtain ⟨hflat, hdoc⟩ := ih hno'
    exact ⟨by rw [hflat]; simp, hdoc⟩
  | @cut pending s opened cuts hopen hopens hcuts ih =>
    have hnone : NoOpener [] opened.2 := by
      intro front back hsplit hback
      exact absurd (List.append_eq_nil_iff.mp hsplit.symm).2 hback
    obtain ⟨hflat, hdoc⟩ := ih hnone
    obtain ⟨hflat', hstarts, hdoc'⟩ := Doc.of_opens hopen hopens hflat hdoc
    rw [List.append_assoc]
    refine ⟨by rw [flat_append, flat_textCut, hflat'], doc_textCut ?_ hstarts hdoc'⟩
    rwa [hflat']

end XgenSdk.HtmlBlocks
