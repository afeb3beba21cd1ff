import XgenSdk.ControlPolicy.HtmlUnescape
import XgenSdk.ControlPolicy.HtmlStable

/-! When a text is masked as it is read: the references of the masking and
those of the whole text. -/
namespace XgenSdk.HtmlDetected
open XgenSdk.Rules XgenSdk.Spans XgenSdk.Html XgenSdk.HtmlReferences XgenSdk.HtmlUnescape XgenSdk.Aligned XgenSdk.Matches

/-! The forms of a reference. -/

def Closer (tail : Text) : Prop := tail = [] ∨ tail = [';']

/-- What follows the `&` of a reference. -/
inductive Form : Text → Prop where
  | decimal {digits tail : Text} (h : ∀ c ∈ digits, isAsciiDigit c = true) (hne : digits ≠ []) (ht : Closer tail) :
      Form ('#' :: (digits ++ tail))
  | hexadecimal {x : Char} {digits tail : Text} (hx : x = 'x' ∨ x = 'X') (h : ∀ c ∈ digits, isHexDigit c = true)
      (hne : digits ≠ []) (ht : Closer tail) : Form ('#' :: x :: (digits ++ tail))
  | name {name tail : Text} (h : ∀ c ∈ name, isNameChar c = true) (hne : name ≠ []) (hmost : name.length ≤ 32)
      (ht : Closer tail) : Form (name ++ tail)

theorem take_run (p : Char → Bool) (s : Text) : s.take (run p s) = s.takeWhile p :=
  (List.prefix_iff_eq_take.mp (List.takeWhile_prefix p)).symm

theorem run_le (p : Char → Bool) (s : Text) : run p s ≤ s.length := (List.takeWhile_prefix p).length_le

theorem closing_split {s : Text} {n : Nat} (hn : n ≤ s.length) :
    ∃ tail rest, Closer tail ∧ s = s.take n ++ tail ++ rest ∧ closing s n = (s.take n ++ tail).length := by
  by_cases hclose : (s.drop n).head? = some ';'
  · obtain ⟨rest, hrest⟩ := List.head?_eq_some_iff.mp hclose
    refine ⟨[';'], rest, Or.inr rfl, ?_, ?_⟩
    · rw [List.append_assoc, List.singleton_append, ← hrest, List.take_append_drop]
    · rw [closing, if_pos hclose, List.length_append, List.length_take_of_le hn]
      rfl
  · refine ⟨[], s.drop n, Or.inl rfl, by rw [List.append_nil, List.take_append_drop], ?_⟩
    rw [closing, if_neg hclose, List.append_nil, List.length_take_of_le hn]

theorem closing_self {front tail : Text} (ht : Closer tail) : closing (front ++ tail) front.length = (front ++ tail).length := by
  rw [closing, List.drop_left' rfl, List.length_append]
  rcases ht with rfl | rfl <;> rfl

theorem run_self {p : Char → Bool} (hp : p ';' = false) {front tail : Text} (h : ∀ c ∈ front, p c = true) (ht : Closer tail) :
    run p (front ++ tail) = front.length := by
  rw [run, List.takeWhile_append_of_pos h]
  rcases ht with rfl | rfl
  · rw [List.takeWhile_nil, List.append_nil]
  · rw [List.takeWhile_cons_of_neg (by simp [hp]), List.append_nil]

theorem mem_takeWhile {p : Char → Bool} {s : Text} : ∀ c ∈ s.takeWhile p, p c = true := fun c hc =>
  List.all_eq_true.mp List.all_takeWhile c hc

theorem charrefLength_form {s : Text} {n : Nat} (h : charrefLength s = some n) :
    ∃ body rest, Form body ∧ s = '&' :: (body ++ rest) ∧ n = body.length + 1 := by
  unfold charrefLength at h
  split at h
  · rename_i x s
    split at h
    · rename_i hx
      obtain ⟨tail, rest, ht, hsplit, hlength⟩ := closing_split (run_le isAsciiDigit (x :: s))
      rw [take_run] at hsplit hlength
      refine ⟨'#' :: ((x :: s).takeWhile isAsciiDigit ++ tail), rest, .decimal mem_takeWhile ?_ ht, ?_, ?_⟩
      · rw [List.takeWhile_cons_of_pos hx]
        exact List.cons_ne_nil _ _
      · rw [List.cons_append, ← hsplit]
      · rw [← Option.some.inj h, List.length_cons, ← hlength]
    · split at h
      · rename_i hx
        obtain ⟨tail, rest, ht, hsplit, hlength⟩ := closing_split (run_le isHexDigit s)
        rw [take_run] at hsplit hlength
        have hne : s.takeWhile isHexDigit ≠ [] := mt List.length_eq_zero_iff.mpr hx.2
        refine ⟨'#' :: x :: (s.takeWhile isHexDigit ++ tail), rest, .hexadecimal hx.1 mem_takeWhile hne ht, ?_, ?_⟩
        · rw [List.cons_append, List.cons_append, ← hsplit]
        · rw [← Option.some.inj h, List.length_cons, List.length_cons, ← hlength]
      · cases h
  · rename_i s _
    split at h
    · cases h
    · rename_i hrun
      have hle : min 32 (run isNameChar s) ≤ s.length :=
        (Nat.min_le_right _ _).trans (run_le isNameChar s)
      obtain ⟨tail, rest, ht, hsplit, hlength⟩ := closing_split hle
      have hname : s.take (min 32 (run isNameChar s)) <+: s.takeWhile isNameChar := by
        rw [← take_run]
        exact List.take_prefix_take_left (Nat.min_le_right _ _)
      refine ⟨_, rest, .name (fun c hc => mem_takeWhile c (hname.subset hc)) ?_ ?_ ht, ?_, ?_⟩
      · rw [Ne, ← List.length_eq_zero_iff, List.length_take_of_le hle]
        omega
      · rw [List.length_take]
        omega
      · rw [← hsplit]
      · rw [← Option.some.inj h, ← hlength]
  · cases h

theorem amp_not_mem {p : Char → Bool} (hp : p '&' = false) {front tail : Text} (h : ∀ c ∈ front, p c = true) (ht : Closer tail) :
    '&' ∉ front ++ tail := by
  intro hmem
  rcases List.mem_append.mp hmem with hmem | hmem
  · exact Bool.false_ne_true (hp.symm.trans (h _ hmem))
  · rcases ht with rfl | rfl
    · cases hmem
    · exact absurd (List.mem_singleton.mp hmem) (by decide)

theorem Form.amp {body : Text} (h : Form body) : '&' ∉ body := by
  cases h with
  | decimal h _ ht => exact List.not_mem_cons_of_ne_of_not_mem (by decide) (amp_not_mem (by decide) h ht)
  | hexadecimal hx h _ ht =>
    refine List.not_mem_cons_of_ne_of_not_mem (by decide) (List.not_mem_cons_of_ne_of_not_mem ?_ (amp_not_mem (by decide) h ht))
    rcases hx with rfl | rfl <;> decide
  | name h _ _ ht => exact amp_not_mem (by decide) h ht

theorem Form.length {body : Text} (h : Form body) : charrefLength ('&' :: body) = some (body.length + 1) := by
  cases h with
  | @decimal digits tail h hne ht =>
    obtain ⟨x, digits, rfl⟩ := List.exists_cons_of_ne_nil hne
    have hrun := run_self (by decide) h ht
    have hclosing : closing (x :: digits ++ tail) (x :: digits).length = _ := closing_self ht
    rw [List.cons_append] at hrun hclosing ⊢
    rw [charrefLength, if_pos (h x List.mem_cons_self), hrun, hclosing]
    rfl
  | @hexadecimal x digits tail hx h hne ht =>
    have hdigit : isAsciiDigit x = false := by rcases hx with rfl | rfl <;> decide
    have hrun := run_self (by decide) h ht
    rw [charrefLength, if_neg (by rw [hdigit]; exact Bool.false_ne_true), hrun,
      if_pos ⟨hx, mt List.length_eq_zero_iff.mp hne⟩, closing_self ht]
    rfl
  | @name name tail h hne hmost ht =>
    have hrun := run_self (by decide) h ht
    have hhead : ∀ x s, name ++ tail ≠ '#' :: x :: s := by
      intro x s heq
      obtain ⟨c, name, rfl⟩ := List.exists_cons_of_ne_nil hne
      have := h c List.mem_cons_self
      rw [(List.cons.inj heq).1] at this
      exact absurd this (by decide)
    unfold charrefLength
    split
    · rename_i heq
      exact absurd (List.cons.inj heq).2 (hhead _ _)
    · rename_i heq
      rw [← (List.cons.inj heq).2, hrun, if_neg (mt List.length_eq_zero_iff.mp hne), min_eq_right hmost, closing_self ht]
    · rename_i hno
      exact absurd rfl (hno _)

/-! What a reference is replaced by. -/

/-- No name is shorter than its value. -/
def ShortNames (html5 : Html5) : Prop := ∀ name value, html5 name = some value → value.length ≤ name.length

theorem numericCharref_length (n : Nat) : (numericCharref n).length ≤ 1 := by
  unfold numericCharref
  split
  · exact Nat.le_refl 1
  · split
    · exact Nat.le_refl 1
    · split
      · exact Nat.zero_le 1
      · exact Nat.le_refl 1

theorem longestName_length {html5 : Html5} (hshort : ShortNames html5) {s value : Text} {n : Nat} (hn : n ≤ s.length)
    (h : longestName html5 s n = some value) : value.length ≤ s.length := by
  induction n with
  | zero => cases h
  | succ n ih =>
    cases n with
    | zero => cases h
    | succ n =>
      rw [longestName] at h
      split at h
      · rename_i found hfound
        have hle := hshort _ _ hfound
        rw [← Option.some.inj h, List.length_append, List.length_drop]
        rw [List.length_take_of_le hn] at hle
        omega
      · exact ih (Nat.le_of_succ_le hn) h

theorem replaceCharref_length {html5 : Html5} (hshort : ShortNames html5) {body : Text} (h : Form body) :
    replaceCharref html5 body = '&' :: body ∨ (replaceCharref html5 body).length ≤ body.length := by
  unfold replaceCharref
  split
  · right
    split
    · exact (numericCharref_length _).trans (by simp)
    · exact (numericCharref_length _).trans (by simp)
  · cases hvalue : html5 body with
    | some value => exact Or.inr (hshort body value hvalue)
    | none =>
      cases hlongest : longestName html5 body (body.length - 1) with
      | none => exact Or.inl rfl
      | some value => exact Or.inr (longestName_length hshort (Nat.sub_le _ _) hlongest)

/-! References that the masking reads too. -/

theorem isNameChar_of_alnum {c : Char} (h : isAsciiAlnum c = true) : isNameChar c = true := by
  by_contra hno
  have hmem : c ∈ "\t\n\x0c <&#;".toList := by
    rw [isNameChar, Bool.not_eq_true, Bool.not_eq_false'] at hno
    exact List.elem_iff.mp hno
  have hnone : ∀ d ∈ "\t\n\x0c <&#;".toList, isAsciiAlnum d = false :=
    Search.forall_mem_of_all (by decide)
  exact Bool.false_ne_true ((hnone c hmem).symm.trans h)

theorem closing_run {p : Char → Bool} (hp : p ';' = false) {front : Text} (h : ∀ c ∈ front, p c = true) (rest : Text) :
    run p (front ++ ';' :: rest) = front.length ∧ closing (front ++ ';' :: rest) front.length = front.length + 1 := by
  rw [run, takeWhile_run hp h, closing, List.drop_left' rfl]
  exact ⟨rfl, rfl⟩

theorem charrefLength_of_entityLength {s : Text} {n : Nat} (h : entityLength s = some n) : charrefLength s = some n := by
  unfold entityLength at h
  split at h
  · rename_i x s
    split at h
    · rename_i hx
      obtain ⟨m, hm, rfl⟩ := Option.map_eq_some_iff.mp h
      obtain ⟨digits, rest, rfl, hdigits, hleast, -, rfl⟩ := (closedRun_eq_some (by rfl)).mp hm
      have hdigit : isAsciiDigit x = false := by rcases hx with rfl | rfl <;> decide
      obtain ⟨hrun, hclosing⟩ := closing_run (by rfl) hdigits rest
      rw [charrefLength, if_neg (by rw [hdigit]; exact Bool.false_ne_true), hrun, if_pos ⟨hx, by omega⟩, hclosing]
    · obtain ⟨m, hm, rfl⟩ := Option.map_eq_some_iff.mp h
      obtain ⟨digits, rest, hs, hdigits, hleast, -, rfl⟩ := (closedRun_eq_some (by rfl)).mp hm
      obtain ⟨hrun, hclosing⟩ := closing_run (by rfl) hdigits rest
      have hdigit : isAsciiDigit x = true := by
        obtain ⟨d, digits, rfl⟩ := List.exists_cons_of_ne_nil (List.ne_nil_of_length_pos hleast)
        rw [(List.cons.inj hs).1]
        exact hdigits d List.mem_cons_self
      rw [charrefLength, if_pos hdigit, hs, hrun, hclosing]
  · rename_i c s hc
    split at h
    · rename_i hletter
      obtain ⟨m, hm, rfl⟩ := Option.map_eq_some_iff.mp h
      obtain ⟨name, rest, rfl, hname, -, hmost, rfl⟩ := (closedRun_eq_some (by rfl)).mp hm
      have hchars : ∀ d ∈ c :: name, isNameChar d = true := by
        intro d hd
        rcases List.mem_cons.mp hd with rfl | hd
        · exact isNameChar_of_alnum (by rw [isAsciiAlnum, hletter, Bool.true_or])
        · exact isNameChar_of_alnum (hname d hd)
      have hne : c ≠ '#' := by
        rintro rfl
        cases hletter
      obtain ⟨hrun, hclosing⟩ := closing_run (by decide) hchars rest
      rw [List.cons_append] at hrun hclosing
      unfold charrefLength
      split
      · rename_i heq
        exact absurd (List.cons.inj (List.cons.inj heq).2).1 hne
      · rename_i heq
        rw [← (List.cons.inj heq).2, hrun, min_eq_right (by rw [List.length_cons]; omega), hclosing]
        rfl
      · rename_i hno
        exact absurd rfl (hno _)
    · cases h
  · cases h

theorem entityLength_append {r : Text} {n : Nat} (h : entityLength r = some n) (rest : Text) : entityLength (r ++ rest) = some n :=
  entityLength_of_take h (List.take_append_of_le_length (entityLength_bounded _ _ h).2)

theorem charrefLength_bounded : Bounded charrefLength := by
  intro s n h
  obtain ⟨body, rest, -, rfl, rfl⟩ := charrefLength_form h
  rw [List.length_cons, List.length_append]
  omega

theorem charrefLength_amp {c : Char} (s : Text) (hc : c ≠ '&') : charrefLength (c :: s) = none := by
  cases h : charrefLength (c :: s) with
  | none => rfl
  | some n =>
    obtain ⟨body, rest, -, heq, -⟩ := charrefLength_form h
    exact absurd (List.cons.inj heq).1 hc

/-! The two readings of a text. -/

/-- What a text is read as reference by reference. -/
def wholeText (html5 : Html5) (s : Text) : Text := sub charrefLength (fun r => replaceCharref html5 (r.drop 1)) s

theorem unescape_eq (html5 : Html5) (s : Text) : unescape html5 s = wholeText html5 s := by
  unfold unescape
  split
  · rfl
  · rename_i hnone
    have hamp : '&' ∉ s := fun hmem => hnone (List.elem_eq_true_of_mem hmem)
    have hparts : parts charrefLength s = s.map Matches.Part.single :=
      parts_plain fun c hc rest => charrefLength_amp rest fun heq => hamp (heq ▸ hc)
    rw [wholeText, sub, hparts, List.flatMap_map]
    exact (List.flatMap_singleton' s).symm

/-- A reference by itself. -/
theorem unescape_form (html5 : Html5) {body : Text} (h : Form body) : unescape html5 ('&' :: body) = replaceCharref html5 body := by
  have hall : ('&' :: body).take (body.length + 1) = '&' :: body := List.take_of_length_le (Nat.le_refl _)
  have hnone : ('&' :: body).drop (body.length + 1) = [] := List.drop_of_length_le (Nat.le_refl _)
  rw [unescape_eq, wholeText, sub_of_some charrefLength_bounded h.length, hall, hnone]
  exact List.append_nil _

/-- The masking knows every reference that the text has another reading for. -/
def Sees (html5 : Html5) (s : Text) : Prop :=
  ∀ r ∈ charrefs s, unescape html5 r ≠ r → entityLength r = some r.length

theorem charrefs_form (html5 : Html5) {body : Text} (rest : Text)
    (hn : charrefLength ('&' :: (body ++ rest)) = some (body.length + 1)) :
    charrefs ('&' :: (body ++ rest)) = ('&' :: body) :: charrefs rest ∧
      wholeText html5 ('&' :: (body ++ rest)) = replaceCharref html5 body ++ wholeText html5 rest := by
  have htake : ('&' :: (body ++ rest)).take (body.length + 1) = '&' :: body := by
    rw [List.take_succ_cons, List.take_left' rfl]
  have hdrop : ('&' :: (body ++ rest)).drop (body.length + 1) = rest := by
    rw [List.drop_succ_cons, List.drop_left' rfl]
  constructor
  · rw [charrefs, found, parts_of_some charrefLength_bounded hn, htake, hdrop, List.filterMap_cons]
    rfl
  · rw [wholeText, sub_of_some charrefLength_bounded hn, htake, hdrop]
    rfl

/-- Both readings agree where the masking knows the references; else its reading is longer. -/
theorem readings {html5 : Html5} (hshort : ShortNames html5) (s : Text) :
    (Sees html5 s ∧ sub entityLength (unescape html5) s = wholeText html5 s) ∨
      (¬Sees html5 s ∧ (wholeText html5 s).length < (sub entityLength (unescape html5) s).length) := by
  induction s using parts_induction charrefLength_bounded with
  | nil => exact Or.inl ⟨fun r hr => (nomatch hr), rfl⟩
  | single x s hn ih =>
    have hentity : entityLength (x :: s) = none := by
      cases h : entityLength (x :: s) with
      | none => rfl
      | some m =>
        have := charrefLength_of_entityLength h
        rw [hn] at this
        cases this
    have hrefs : charrefs (x :: s) = charrefs s := by
      rw [charrefs, found, parts_of_none hn, List.filterMap_cons]
      rfl
    rw [Sees, hrefs, wholeText, sub_of_none hn, sub_of_none hentity]
    rcases ih with ⟨hsees, hsame⟩ | ⟨hmiss, hlonger⟩
    · exact Or.inl ⟨hsees, congrArg _ hsame⟩
    · exact Or.inr ⟨hmiss, Nat.succ_lt_succ hlonger⟩
  | found x s n hn ih =>
    obtain ⟨body, rest, hform, hs, rfl⟩ := charrefLength_form hn
    rw [hs, List.drop_succ_cons, List.drop_left' rfl] at ih
    rw [hs] at hn ⊢
    obtain ⟨hrefs, hwhole⟩ := charrefs_form html5 rest hn
    have hself := unescape_form html5 hform
    have hsees : Sees html5 ('&' :: (body ++ rest)) ↔
        (replaceCharref html5 body ≠ '&' :: body → entityLength ('&' :: body) = some (body.length + 1)) ∧ Sees html5 rest := by
      rw [Sees, hrefs, List.forall_mem_cons, hself]
      rfl
    rw [hsees, hwhole]
    cases hentity : entityLength ('&' :: (body ++ rest)) with
    | some m =>
      obtain rfl : body.length + 1 = m := Option.some.inj (hn.symm.trans (charrefLength_of_entityLength hentity))
      have htake : ('&' :: (body ++ rest)).take (body.length + 1) = '&' :: body := by
        rw [List.take_succ_cons, List.take_left' rfl]
      have hknown : entityLength ('&' :: body) = some (body.length + 1) :=
        entityLength_of_take hentity (by rw [htake]; exact List.take_of_length_le (Nat.le_refl _))
      rw [sub_of_some entityLength_bounded hentity, htake, List.drop_succ_cons, List.drop_left' rfl, hself]
      rcases ih with ⟨hsees, hsame⟩ | ⟨hmiss, hlonger⟩
      · exact Or.inl ⟨⟨fun _ => hknown, hsees⟩, by rw [hsame]⟩
      · refine Or.inr ⟨fun h => hmiss h.2, ?_⟩
        rw [List.length_append, List.length_append]
        omega
    | none =>
      have hunknown : entityLength ('&' :: body) ≠ some (body.length + 1) := fun h => by
        have := entityLength_append h rest
        rw [List.cons_append, hentity] at this
        cases this
      have hplain : sub entityLength (unescape html5) ('&' :: (body ++ rest)) =
          '&' :: body ++ sub entityLength (unescape html5) rest := by
        rw [sub_of_none hentity, sub_append rest fun c t hc => entityLength_amp t fun heq => hform.amp (heq ▸ hc)]
        rfl
      rw [hplain]
      rcases replaceCharref_length hshort hform with hstays | hshorter
      · rw [hstays]
        rcases ih with ⟨hsees, hsame⟩ | ⟨hmiss, hlonger⟩
        · exact Or.inl ⟨⟨fun h => absurd rfl h, hsees⟩, by rw [hsame]⟩
        · refine Or.inr ⟨fun h => hmiss h.2, ?_⟩
          rw [List.length_append, List.length_append]
          omega
      · have hchanged : replaceCharref html5 body ≠ '&' :: body := fun heq => by
          rw [heq, List.length_cons] at hshorter
          omega
        have hle : (wholeText html5 rest).length ≤ (sub entityLength (unescape html5) rest).length := by
          rcases ih with ⟨-, hsame⟩ | ⟨-, hlonger⟩
          · rw [hsame]
          · exact hlonger.le
        refine Or.inr ⟨fun h => hunknown (h.1 hchanged), ?_⟩
        rw [List.length_append, List.length_append, List.length_cons]
        omega

/-- A segment is masked as it is detected. -/
structure Detected (html5 : Html5) (segment : Text) : Prop where
  text : (decoded (unescape html5) segment).text = unescape html5 segment
  masked : ∀ (rules : List MaskingRule) (rule : MaskingRule), rule ∈ rules → rule.hits (unescape html5 segment) ≠ [] →
    (maskHtmlText (unescape html5) segment rules true).2 ≠ 0

/-- Masking sees what detection sees where every reference that is read otherwise is one that masking knows. -/
theorem detected_iff (html5 : Html5) (hshort : ShortNames html5) (segment : Text) :
    Detected html5 segment ↔ ∀ r ∈ charrefs segment, unescape html5 r ≠ r → entityLength r = some r.length := by
  have hdecoded : (decoded (unescape html5) segment).text = sub entityLength (unescape html5) segment := by
    rw [decoded_spec, values_cells]
  constructor
  · intro h
    rcases readings hshort segment with ⟨hsees, -⟩ | ⟨-, hlonger⟩
    · exact hsees
    · rw [← hdecoded, h.text, unescape_eq] at hlonger
      exact absurd hlonger (Nat.lt_irrefl _)
  · intro hsees
    rcases readings hshort segment with ⟨-, hsame⟩ | ⟨hmiss, -⟩
    · have htext : (decoded (unescape html5) segment).text = unescape html5 segment := by
        rw [hdecoded, hsame, unescape_eq]
      refine ⟨htext, fun rules rule hrule hhits hnone => hhits ?_⟩
      rw [maskHtmlText_text, htext] at hnone
      have hfound := findMaskedSpans_found (unescape html5 segment) rules
      rw [List.length_eq_zero_iff.mp hnone] at hfound
      exact hfound.hits_nil rule hrule
    · exact absurd hsees hmiss

/-- Two of the names. -/
def fewNames : Html5 := fun name => if name = "amp;".toList ∨ name = "amp".toList then some ['&'] else none

theorem fewNames_short : ShortNames fewNames := by
  intro name value h
  unfold fewNames at h
  split at h
  · rename_i hname
    obtain rfl := Option.some.inj h
    rcases hname with rfl | rfl <;> decide
  · cases h

theorem detected_iff_amp : Detected fewNames "R&amp;D".toList :=
  (detected_iff fewNames fewNames_short "R&amp;D".toList).mpr (by decide)

/-- A policy on the digit zero. -/
def zeroRule : MaskingRule where
  policyId := some 1
  policyName := "zero"
  policyType := "pii"
  finditer := HtmlStable.occurrences '0' ['*'] 0
  ordered := fun text => by simpa using HtmlStable.occurrences_inOrder '0' ['*'] 0 text

theorem open_reference_missed :
    maskHtmlText (unescape fewNames) "&#48-1".toList [zeroRule] true = ("&#48-1".toList, 0) ∧
      zeroRule.hits (unescape fewNames "&#48-1".toList) ≠ [] ∧ ¬Detected fewNames "&#48-1".toList := by
  have hclean : maskHtmlText (unescape fewNames) "&#48-1".toList [zeroRule] true = ("&#48-1".toList, 0) := by decide
  have hhits : zeroRule.hits (unescape fewNames "&#48-1".toList) ≠ [] := by decide
  refine ⟨hclean, hhits, fun h => ?_⟩
  exact h.masked [zeroRule] zeroRule List.mem_cons_self hhits (by rw [hclean])

end XgenSdk.HtmlDetected
