import XgenSdk.ControlPolicy.Ooxml

/-! The text nodes of a fragment are found again when their contents change. -/
namespace XgenSdk.OoxmlNodes
open XgenSdk.Splice XgenSdk.Rules XgenSdk.Matches XgenSdk.Ooxml
variable {table : WordTable}

/-- A text node, its parts and its name as they are read. -/
def node (inside name text : Text) : Text := '<' :: (inside ++ '>' :: (text ++ closing name))

structure NodeForm (table : WordTable) (inside name text : Text) : Prop where
  bounded : '>' ∉ inside
  named : tagName inside = name
  valid : isName table textNames name = true
  plain : '<' ∉ text

theorem ne_of_mem {c : Char} {s : Text} (h : c ∉ s) : ∀ d ∈ s, decide (d ≠ c) = true := by
  intro d hd
  rw [decide_eq_true_eq]
  rintro rfl
  exact h hd

theorem takeWhile_ne {c : Char} {s : Text} (h : c ∉ s) (rest : Text) : (s ++ c :: rest).takeWhile (· ≠ c) = s := by
  rw [List.takeWhile_append_of_pos (ne_of_mem h), List.takeWhile_cons_of_neg (by simp),
    List.append_nil]

theorem dropWhile_ne {c : Char} {s : Text} (h : c ∉ s) (rest : Text) : (s ++ c :: rest).dropWhile (· ≠ c) = c :: rest := by
  rw [List.dropWhile_append_of_pos (ne_of_mem h), List.dropWhile_cons_of_neg (by simp)]

/-- A name in a tag is read before the tag ends. -/
theorem tagName_takeWhile (s : Text) : tagName (s.takeWhile (· ≠ '>')) = tagName s := by
  rw [tagName, tagName, List.takeWhile_takeWhile]
  congr 1
  funext c
  simp

/-! What a node is read as. -/

section Node
variable {inside name text : Text} (h : NodeForm table inside name text) (rest : Text)
include h

theorem NodeForm.tag_eq : (node inside name text ++ rest).takeWhile (· ≠ '>') = '<' :: inside := by
  have hinside : '>' ∉ '<' :: inside := List.not_mem_cons_of_ne_of_not_mem (by decide) h.bounded
  have hsplit : node inside name text ++ rest = ('<' :: inside) ++ '>' :: (text ++ closing name ++ rest) := by
    simp [node]
  rw [hsplit, takeWhile_ne hinside]

theorem NodeForm.opening_eq : opening (node inside name text ++ rest) = '<' :: (inside ++ ['>']) := by
  have hsplit : node inside name text ++ rest = '<' :: (inside ++ ['>']) ++ (text ++ closing name ++ rest) := by simp [node]
  rw [opening, h.tag_eq, hsplit, List.take_left' (by simp)]

theorem NodeForm.behind_eq : afterOpening (node inside name text ++ rest) = text ++ (closing name ++ rest) := by
  have hsplit : node inside name text ++ rest = '<' :: (inside ++ ['>']) ++ (text ++ closing name ++ rest) := by simp [node]
  rw [afterOpening, h.tag_eq, hsplit, List.drop_left' (by simp), List.append_assoc]

theorem NodeForm.content_eq : content (node inside name text ++ rest) = text := by
  rw [content, h.behind_eq]
  exact takeWhile_ne h.plain _

theorem NodeForm.end_eq : afterContent (node inside name text ++ rest) = closing name ++ rest := by
  rw [afterContent, h.behind_eq]
  exact dropWhile_ne h.plain _

theorem NodeForm.length_eq : textLength table (node inside name text ++ rest) = some (node inside name text).length := by
  have hname : tagName (inside ++ '>' :: (text ++ closing name) ++ rest) = name := by
    rw [← tagName_takeWhile, List.append_assoc, List.cons_append, takeWhile_ne h.bounded, h.named]
  have hclosed : (closing name).isPrefixOf (afterContent (node inside name text ++ rest)) = true := by
    rw [h.end_eq, List.isPrefixOf_iff_prefix]
    exact List.prefix_append _ _
  have hopening := h.opening_eq rest
  have hcontent := h.content_eq rest
  rw [node, List.cons_append] at hclosed hopening hcontent
  rw [node, List.cons_append, textLength, hname, hclosed, h.valid, hopening, hcontent]
  simp [closing]
  omega

end Node

/-- A text up to the first of some character, and what is behind it. -/
theorem split_at {c : Char} {s : Text} (h : c ∈ s) : ∃ rest, s = s.takeWhile (· ≠ c) ++ c :: rest := by
  induction s with
  | nil => cases h
  | cons d s ih =>
    by_cases hd : d = c
    · exact ⟨s, by rw [List.takeWhile_cons_of_neg (by simp [hd]), hd, List.nil_append]⟩
    · obtain ⟨rest, hrest⟩ := ih ((List.mem_cons.mp h).resolve_left (Ne.symm hd))
      refine ⟨rest, ?_⟩
      rw [List.takeWhile_cons_of_pos (by simpa using hd), List.cons_append, ← hrest]

theorem not_mem_takeWhile (c : Char) (s : Text) : c ∉ s.takeWhile (· ≠ c) := by
  intro h
  have := List.all_eq_true.mp List.all_takeWhile c h
  simp at this

theorem afterOpening_cons (s : Text) : afterOpening ('<' :: s) = s.drop ((s.takeWhile (· ≠ '>')).length + 1) := by
  rw [afterOpening, List.takeWhile_cons_of_pos (by decide), List.length_cons, List.drop_succ_cons]

theorem textLength_form {s : Text} {n : Nat} (h : textLength table s = some n) :
    ∃ inside name text rest, NodeForm table inside name text ∧ s = node inside name text ++ rest ∧
      n = (node inside name text).length := by
  have hlength := h
  unfold textLength at h
  split at h
  · rename_i s
    dsimp only at h
    split at h
    · rename_i hread
      rw [Bool.and_eq_true, List.isPrefixOf_iff_prefix] at hread
      obtain ⟨hvalid, rest, hrest⟩ := hread
      have hmem : '>' ∈ s := by
        by_contra hno
        have hwhole : s.takeWhile (· ≠ '>') = s := by rw [List.takeWhile_eq_self_iff]; exact ne_of_mem hno
        rw [afterContent, afterOpening_cons, hwhole, List.drop_of_length_le (Nat.le_succ _)] at hrest
        cases hrest
      obtain ⟨behind, hsplit⟩ := split_at hmem
      have hafter : afterOpening ('<' :: s) = behind := by
        rw [afterOpening_cons]
        conv_lhs => rw [hsplit]
        rw [List.drop_append, takeWhile_ne (not_mem_takeWhile '>' s)]
        simp
      rw [afterContent, hafter] at hrest
      have hbehind : behind = behind.takeWhile (· ≠ '<') ++ (closing (tagName s) ++ rest) := by
        rw [hrest, List.takeWhile_append_dropWhile]
      have hform : NodeForm table (s.takeWhile (· ≠ '>')) (tagName s) (behind.takeWhile (· ≠ '<')) :=
        ⟨not_mem_takeWhile '>' s, tagName_takeWhile s, hvalid, not_mem_takeWhile '<' behind⟩
      have hs : '<' :: s = node (s.takeWhile (· ≠ '>')) (tagName s) (behind.takeWhile (· ≠ '<')) ++ rest := by
        rw [node]
        conv_lhs => rw [hsplit, hbehind]
        simp
      refine ⟨_, _, _, rest, hform, hs, ?_⟩
      rw [hs, hform.length_eq] at hlength
      exact (Option.some.inj hlength).symm
    · cases h
  · cases h

theorem textLength_bounded (table : WordTable) : Bounded (textLength table) := by
  intro s n h
  obtain ⟨inside, name, text, rest, -, rfl, rfl⟩ := textLength_form h
  rw [List.length_append, node, List.length_cons]
  omega

/-! Names. -/

theorem isName_head {locals : List Text} {name : Text} (h : isName table locals name = true)
    (hlocals : ∀ l ∈ locals, l.head?.any Html.isAsciiLetter = true) : name.head?.any Html.isAsciiLetter = true := by
  rw [isName, Bool.or_eq_true] at h
  rcases h with h | h
  · exact hlocals name (List.elem_iff.mp h)
  · simp only [Bool.and_eq_true] at h
    obtain ⟨⟨⟨hhead, -⟩, -⟩, -⟩ := h
    cases name with
    | nil => exact hhead
    | cons c name =>
      rw [List.takeWhile_cons] at hhead
      split at hhead
      · exact hhead
      · cases hhead

def nameChar (table : WordTable) (c : Char) : Bool := isWord table c || c = '.' || c = '-' || c = ':'

theorem isName_chars {locals : List Text} {name : Text} (h : isName table locals name = true)
    (hlocals : ∀ l ∈ locals, ∀ c ∈ l, Html.isAsciiLetter c = true) : ∀ c ∈ name, nameChar table c = true := by
  have hletter : ∀ c, Html.isAsciiLetter c = true → nameChar table c = true := fun c hc => by simp [nameChar, isWord, hc]
  have hlocal : ∀ l, locals.contains l = true → ∀ c ∈ l, nameChar table c = true := fun l hl c hc =>
    hletter c (hlocals l (List.elem_iff.mp hl) c hc)
  rw [isName, Bool.or_eq_true] at h
  rcases h with h | h
  · exact hlocal name h
  · simp only [Bool.and_eq_true, decide_eq_true_eq] at h
    obtain ⟨⟨⟨hhead, htail⟩, hlength⟩, hlast⟩ := h
    have hmem : ':' ∈ name := by
      by_contra hno
      have hwhole : name.takeWhile (· ≠ ':') = name := by rw [List.takeWhile_eq_self_iff]; exact ne_of_mem hno
      rw [hwhole] at hlength
      exact absurd hlength (Nat.lt_irrefl _)
    obtain ⟨rest, hsplit⟩ := split_at hmem
    have hdrop : name.drop ((name.takeWhile (· ≠ ':')).length + 1) = rest := by
      conv_lhs => rw [hsplit]
      rw [List.drop_append, takeWhile_ne (not_mem_takeWhile ':' name)]
      simp
    rw [hdrop] at hlast
    intro c hc
    rw [hsplit, List.mem_append, List.mem_cons] at hc
    rcases hc with hc | rfl | hc
    · cases hbefore : name.takeWhile (· ≠ ':') with
      | nil => rw [hbefore] at hc; cases hc
      | cons d before =>
        rw [hbefore] at hc hhead htail
        rcases List.mem_cons.mp hc with rfl | hc
        · exact hletter c hhead
        · have := List.all_eq_true.mp htail c hc
          simp only [Bool.or_eq_true, decide_eq_true_eq] at this
          simp [nameChar, this]
    · rfl
    · exact hlocal rest hlast c hc

theorem textName_plain {name : Text} (h : isName table textNames name = true) :
    '<' ∉ name ∧ '>' ∉ name ∧ ∃ c rest, name = c :: rest ∧ c ≠ '/' := by
  have hletters : ∀ l ∈ textNames, l.all Html.isAsciiLetter = true := Search.forall_mem_of_all (by decide)
  have hchars := isName_chars h fun l hl => List.all_eq_true.mp (hletters l hl)
  have hno : nameChar table '<' = false ∧ nameChar table '>' = false := by
    constructor
    · simp only [nameChar, isWord]
      rfl
    · simp only [nameChar, isWord]
      rfl
  refine ⟨fun hmem => ?_, fun hmem => ?_, ?_⟩
  · exact Bool.false_ne_true (hno.1.symm.trans (hchars _ hmem))
  · exact Bool.false_ne_true (hno.2.symm.trans (hchars _ hmem))
  · have hhead := isName_head h (by decide)
    cases name with
    | nil => cases hhead
    | cons c rest =>
      refine ⟨c, rest, rfl, ?_⟩
      rintro rfl
      cases hhead

/-- A node begins a tag that does not close another. -/
theorem NodeForm.opens {inside name text : Text} (h : NodeForm table inside name text) (name' rest : Text) :
    (closing name').isPrefixOf ((node inside name text ++ rest).dropWhile (· ≠ '<')) = false := by
  obtain ⟨-, -, c, tail, hcons, hc⟩ := textName_plain h.valid
  have hwhole : (node inside name text ++ rest).dropWhile (· ≠ '<') = node inside name text ++ rest :=
    List.dropWhile_cons_of_neg (by decide)
  rw [hwhole, Bool.eq_false_iff, Ne, List.isPrefixOf_iff_prefix]
  rintro ⟨behind, heq⟩
  have hnamed := h.named
  cases inside with
  | nil =>
    rw [hcons] at hnamed
    cases hnamed
  | cons d inside =>
    rw [tagName, List.takeWhile_cons, hcons] at hnamed
    split at hnamed
    · have hslash : '/' = d := (List.cons.inj (List.cons.inj heq).2).1
      exact hc ((List.cons.inj hnamed).1.symm.trans hslash.symm)
    · cases hnamed

/-! Texts that differ in the contents of their text nodes. -/

/-- The text nodes of the second text have the contents given. -/
inductive Like (table : WordTable) : Text → Text → List Text → Prop where
  | nil : Like table [] [] []
  | single {x : Char} {s s' : Text} {texts : List Text} (hn : textLength table (x :: s) = none) (h : Like table s s' texts) :
      Like table (x :: s) (x :: s') texts
  | found {inside name text text' s s' : Text} {texts : List Text} (hform : NodeForm table inside name text)
      (hform' : NodeForm table inside name text') (h : Like table s s' texts) :
      Like table (node inside name text ++ s) (node inside name text' ++ s') (text' :: texts)

variable {s s' : Text} {texts : List Text}

theorem Like.tag_eq (h : Like table s s' texts) : s.takeWhile (· ≠ '>') = s'.takeWhile (· ≠ '>') := by
  induction h with
  | nil => rfl
  | single _ _ ih => rw [List.takeWhile_cons, List.takeWhile_cons, ih]
  | found hform hform' _ _ => rw [hform.tag_eq, hform'.tag_eq]

theorem Like.isPrefixOf (h : Like table s s' texts) {p : Text} (hp : '<' ∉ p) : p.isPrefixOf s = p.isPrefixOf s' := by
  induction h generalizing p with
  | nil => rfl
  | single _ _ ih =>
    cases p with
    | nil => rfl
    | cons c p => rw [List.isPrefixOf, List.isPrefixOf, ih (List.not_mem_of_not_mem_cons hp)]
  | found _ _ _ _ =>
    cases p with
    | nil => rfl
    | cons c p =>
      have hc : (c == '<') = false := by simpa using fun heq : c = '<' => hp (heq ▸ List.mem_cons_self)
      rw [node, node, List.cons_append, List.cons_append, List.isPrefixOf, List.isPrefixOf, hc]
      rfl

/-- The end of a node is read up to the next tag. -/
theorem Like.closes (h : Like table s s' texts) {name : Text} (hname : '<' ∉ name) :
    (closing name).isPrefixOf (s.dropWhile (· ≠ '<')) = (closing name).isPrefixOf (s'.dropWhile (· ≠ '<')) := by
  induction h with
  | nil => rfl
  | @single x s s' texts hn h ih =>
    by_cases hx : x = '<'
    · have hp : '<' ∉ '/' :: (name ++ ['>']) := by
        simp only [List.mem_cons, List.mem_append, List.not_mem_nil, or_false, not_or]
        exact ⟨by decide, hname, by decide⟩
      rw [hx, List.dropWhile_cons_of_neg (by decide), List.dropWhile_cons_of_neg (by decide), closing, List.isPrefixOf,
        List.isPrefixOf, h.isPrefixOf hp]
    · rw [List.dropWhile_cons_of_pos (by simpa using hx), List.dropWhile_cons_of_pos (by simpa using hx), ih]
  | found hform hform' _ _ => rw [hform.opens, hform'.opens]

/-- The end of a node against another. -/
theorem closing_isPrefixOf {name name' : Text} (h : '>' ∉ name) (h' : '>' ∉ name') (rest : Text) :
    (closing name).isPrefixOf (closing name' ++ rest) = decide (name = name') := by
  rw [Bool.eq_iff_iff, List.isPrefixOf_iff_prefix, decide_eq_true_eq]
  constructor
  · rintro ⟨rest', heq⟩
    have hsplit : name ++ '>' :: rest' = name' ++ '>' :: rest := by simpa [closing] using heq
    rw [← takeWhile_ne h rest', hsplit, takeWhile_ne h']
  · rintro rfl
    exact List.prefix_append _ _

/-- What follows the first `>` is closed alike. -/
theorem Like.closed (h : Like table s s' texts) {name : Text} (hname : '<' ∉ name) (hend : '>' ∉ name) :
    (closing name).isPrefixOf (afterContent ('<' :: s)) = (closing name).isPrefixOf (afterContent ('<' :: s')) := by
  rw [afterContent, afterContent, afterOpening_cons, afterOpening_cons]
  induction h with
  | nil => rfl
  | @single x s s' texts hn h ih =>
    by_cases hx : x = '>'
    · rw [hx, List.takeWhile_cons_of_neg (by decide), List.takeWhile_cons_of_neg (by decide)]
      exact h.closes hname
    · rw [List.takeWhile_cons_of_pos (by simpa using hx), List.takeWhile_cons_of_pos (by simpa using hx), List.length_cons,
        List.length_cons, List.drop_succ_cons, List.drop_succ_cons, ih]
  | found hform hform' _ _ =>
    obtain ⟨-, hend', -⟩ := textName_plain hform.valid
    change (closing name).isPrefixOf (afterContent _) = (closing name).isPrefixOf (afterContent _)
    rw [hform.end_eq, hform'.end_eq, closing_isPrefixOf hend hend', closing_isPrefixOf hend hend']

/-- No node begins in one of the texts where none begins in the other. -/
theorem Like.none (h : Like table s s' texts) {x : Char} (hn : textLength table (x :: s) = none) :
    textLength table (x :: s') = none := by
  by_cases hx : x = '<'
  · subst hx
    have hname : tagName s' = tagName s := by rw [← tagName_takeWhile, ← h.tag_eq, tagName_takeWhile]
    rw [textLength] at hn ⊢
    rw [hname]
    by_cases hvalid : isName table textNames (tagName s) = true
    · obtain ⟨hopen, hend, -⟩ := textName_plain hvalid
      rw [← h.closed hopen hend]
      split at hn
      · cases hn
      · rename_i hno
        exact if_neg hno
    · rw [Bool.not_eq_true] at hvalid
      rw [hvalid, Bool.false_and]
      rfl
  · unfold textLength
    split
    · rename_i heq
      exact absurd (List.cons.inj heq).1 hx
    · rfl

/-! The nodes of both texts. -/

/-- What lies before, between and behind the contents of the text nodes. -/
def frames : Text → List (Matches.Part Char) → List Text
  | before, [] => [before]
  | before, .single x :: rest => frames (before ++ [x]) rest
  | before, .found r :: rest => (before ++ opening r) :: frames (closing (tagName r.tail)) rest

def contents (ps : List (Matches.Part Char)) : List Text := (ps.filterMap Matches.Part.match?).map content

theorem NodeForm.name_eq {inside name text : Text} (h : NodeForm table inside name text) :
    tagName (node inside name text).tail = name := by
  rw [node, List.tail_cons, ← tagName_takeWhile, takeWhile_ne h.bounded, h.named]

theorem parts_node {inside name text : Text} (h : NodeForm table inside name text) (rest : Text) :
    parts (textLength table) (node inside name text ++ rest) = .found (node inside name text) :: parts (textLength table) rest := by
  have hparts : parts (textLength table) (node inside name text ++ rest) =
      .found ((node inside name text ++ rest).take (node inside name text).length) ::
        parts (textLength table) ((node inside name text ++ rest).drop (node inside name text).length) :=
    parts_of_some (textLength_bounded table) (h.length_eq rest)
  rw [hparts, List.take_left' rfl, List.drop_left' rfl]

theorem NodeForm.alone {inside name text : Text} (h : NodeForm table inside name text) :
    opening (node inside name text) = '<' :: (inside ++ ['>']) ∧ content (node inside name text) = text := by
  have hopening := h.opening_eq []
  have hcontent := h.content_eq []
  rw [List.append_nil] at hopening hcontent
  exact ⟨hopening, hcontent⟩

theorem Like.frames_eq (h : Like table s s' texts) (before : Text) :
    frames before (parts (textLength table) s') = frames before (parts (textLength table) s) := by
  induction h generalizing before with
  | nil => rfl
  | single hn h ih => rw [parts_of_none hn, parts_of_none (h.none hn), frames, frames, ih]
  | found hform hform' _ ih =>
    rw [parts_node hform, parts_node hform', frames, frames, ih, hform.alone.1, hform'.alone.1,
      hform.name_eq, hform'.name_eq]

theorem Like.contents_eq (h : Like table s s' texts) : contents (parts (textLength table) s') = texts := by
  induction h with
  | nil => rfl
  | single hn h ih =>
    rw [parts_of_none (h.none hn), contents, List.filterMap_cons]
    exact ih
  | found hform hform' _ ih =>
    rw [parts_node hform', contents, List.filterMap_cons]
    exact congrArg₂ List.cons hform'.alone.2 ih

/-- A fragment with other contents in its nodes. -/
def refill : List (Matches.Part Char) → List Text → Text
  | [], _ => []
  | .single x :: rest, texts => x :: refill rest texts
  | .found r :: rest, text :: texts => opening r ++ text ++ closing (tagName r.tail) ++ refill rest texts
  | .found r :: rest, [] => r ++ refill rest []

theorem like_refill {texts : List Text} (hcount : texts.length = (contents (parts (textLength table) s)).length)
    (hplain : ∀ text ∈ texts, '<' ∉ text) : Like table s (refill (parts (textLength table) s) texts) texts := by
  induction s using parts_induction (textLength_bounded table) generalizing texts with
  | nil =>
    obtain rfl := List.length_eq_zero_iff.mp hcount
    exact .nil
  | single x s hn ih =>
    rw [parts_of_none hn] at hcount ⊢
    exact .single hn (ih hcount hplain)
  | found x s n hn ih =>
    obtain ⟨inside, name, text, rest, hform, hs, rfl⟩ := textLength_form hn
    rw [hs, List.drop_left' rfl] at ih
    rw [hs, parts_node hform] at hcount ⊢
    cases texts with
    | nil => cases hcount
    | cons text' texts =>
      have hform' : NodeForm table inside name text' := ⟨hform.bounded, hform.named, hform.valid, hplain _ List.mem_cons_self⟩
      have hnode : refill (.found (node inside name text) :: parts (textLength table) rest) (text' :: texts) =
          node inside name text' ++ refill (parts (textLength table) rest) texts := by
        rw [refill, hform.alone.1, hform.name_eq]
        simp [node]
      rw [hnode]
      exact .found hform hform' (ih (Nat.succ.inj hcount) fun t ht => hplain t (List.mem_cons_of_mem _ ht))

end XgenSdk.OoxmlNodes
