import XgenSdk.Db.ColumnDefs
import Mathlib.Data.List.TakeWhile

/-! What the migrations read from the text of a column definition. -/
namespace XgenSdk.Migrations
open XgenSdk.Py XgenSdk.Words

section Lists
variable {α : Type} {l l' : List α} {x : α} {p : α → Bool}

theorem find?_eq_some_of_pairwise {r : α → α → Prop} (hl : l.Pairwise r) (hx : x ∈ l) (hp : p x = true)
    (hfirst : ∀ y ∈ l, p y = true → r y x → y = x) : l.find? p = some x := by
  induction l with
  | nil => cases hx
  | cons y l ih =>
    obtain ⟨hy, hl⟩ := List.pairwise_cons.mp hl
    rw [List.forall_mem_cons] at hfirst
    by_cases hpy : p y = true
    · have hsame : y = x := by
        obtain rfl | hx := List.mem_cons.mp hx
        · rfl
        · exact hfirst.1 hpy (hy x hx)
      rw [List.find?_cons_of_pos hpy, hsame]
    · obtain rfl | hx := List.mem_cons.mp hx
      · exact absurd hp hpy
      · rw [List.find?_cons_of_neg hpy, ih hl hx hfirst.2]

theorem takeWhile_append_stop (h : ∀ y ∈ l, p y = true) (hstop : ∀ y ∈ l'.head?, p y = false) :
    (l ++ l').takeWhile p = l := by
  rw [List.takeWhile_append_of_pos h]
  cases l' with
  | nil => simp
  | cons y l' =>
    have hy : p y = false := hstop y rfl
    simp [hy]

end Lists

/-! Letter case. -/

theorem toUpper_of_not_isLower {c : Char} (h : ¬ c.isLower = true) : c.toUpper = c := by
  unfold Char.isLower at h
  simp only [Bool.and_eq_true, decide_eq_true_eq] at h
  unfold Char.toUpper
  exact dif_neg h

theorem toLower_of_not_isUpper {c : Char} (h : ¬ c.isUpper = true) : c.toLower = c := by
  unfold Char.isUpper at h
  rw [decide_eq_true_eq] at h
  unfold Char.toLower
  exact dif_neg h

theorem ascii_of_toUpper {c : Char} (h : c.toUpper.toNat < 128) : c.toNat < 128 := by
  by_cases hc : c.isLower = true
  · unfold Char.isLower at hc
    rw [Bool.and_eq_true, decide_eq_true_eq, decide_eq_true_eq] at hc
    have hle : c.val.toNat ≤ 122 := UInt32.le_iff_toNat_le.mp hc.2
    exact Nat.lt_of_le_of_lt hle (by omega)
  · rwa [toUpper_of_not_isLower hc] at h

theorem ascii_of_isUpper {c : Char} (h : c.isUpper = true) : c.toNat < 128 := by
  unfold Char.isUpper at h
  rw [decide_eq_true_eq] at h
  have hle : c.val.toNat ≤ 90 := UInt32.le_iff_toNat_le.mp h.2
  exact Nat.lt_of_le_of_lt hle (by omega)

theorem ascii_of_toLower {c : Char} (h : c.toLower.toNat < 128) : c.toNat < 128 := by
  by_cases hc : c.isUpper = true
  · exact ascii_of_isUpper hc
  · rwa [toLower_of_not_isUpper hc] at h

set_option maxRecDepth 8000 in
theorem ascii_cases : ∀ n < 128, (Char.ofNat n).toLower.toUpper = (Char.ofNat n).toUpper ∧
    ((Char.ofNat n).toUpper.isAlpha = true → isSpace (Char.ofNat n) = false) ∧
    isSpace (Char.ofNat n).toLower = isSpace (Char.ofNat n) := by decide

theorem toUpper_toLower {c : Char} (h : c.toNat < 128) : c.toLower.toUpper = c.toUpper := by
  simpa using (ascii_cases c.toNat h).1

theorem isSpace_of_toUpper {c : Char} (h : c.toNat < 128) (halpha : c.toUpper.isAlpha = true) : isSpace c = false := by
  have hcase := (ascii_cases c.toNat h).2.1
  simp only [Char.ofNat_toNat] at hcase
  exact hcase halpha

theorem isSpace_toLower (c : Char) : isSpace c.toLower = isSpace c := by
  by_cases hc : c.isUpper = true
  · simpa using (ascii_cases c.toNat (ascii_of_isUpper hc)).2.2
  · rw [toLower_of_not_isUpper hc]

section Upper
variable (u : Uppercase)

theorem upper_ascii {l : List Char} (h : ∀ c ∈ l, c.toNat < 128) : l.flatMap u.char = l.map Char.toUpper := by
  induction l with
  | nil => rfl
  | cons c l ih =>
    rw [List.forall_mem_cons] at h
    rw [List.flatMap_cons, u.ascii c h.1, ih h.2]
    rfl

theorem Spelled.ascii {keyword : String} (hkeyword : ∀ c ∈ keyword.toList, c.toNat < 128) (w : Spelled keyword) :
    ∀ c ∈ w.val, c.toNat < 128 := by
  intro c hc
  have hupper : c.toUpper ∈ keyword.toList := w.property ▸ List.mem_map_of_mem hc
  exact ascii_of_toUpper (hkeyword _ hupper)

theorem upper_spelled {keyword : String} (hkeyword : ∀ c ∈ keyword.toList, c.toNat < 128) (w : Spelled keyword) :
    w.val.flatMap u.char = keyword.toList := by
  rw [upper_ascii u (w.ascii hkeyword), w.property]

theorem Gap.blank (g : Gap) : ∀ c ∈ g.val, isSpace c = true := by
  intro c hc
  have hblank : ∀ x ∈ [' ', '\t', '\n'], isSpace x = true := by simp [isSpace]
  exact hblank c (g.property.2 c hc)

theorem Gap.ascii (g : Gap) : ∀ c ∈ g.val, c.toNat < 128 := by
  intro c hc
  have hblank : ∀ x ∈ [' ', '\t', '\n'], x.toNat < 128 := by simp
  exact hblank c (g.property.2 c hc)

theorem upper_gap (g : Gap) : g.val.flatMap u.char = g.val := by
  rw [upper_ascii u g.ascii]
  refine (List.map_congr_left fun c hc => ?_).trans (List.map_id g.val)
  have hblank : ∀ x ∈ [' ', '\t', '\n'], x.toUpper = x := by decide
  exact hblank c (g.property.2 c hc)

theorem text_toList (s : List Char) : (u.text (String.ofList s)).toList = s.flatMap u.char := by simp [Uppercase.text]

/-- A word with a character in it that a keyword lacks is not that keyword. -/
theorem not_keyword {keywords : List String} {w : List Char} {c : Char} (hc : c ∈ w) (hascii : c.toNat < 128)
    (h : ∀ k ∈ keywords, c.toUpper ∉ k.toList) : keywords.contains (u.text (String.ofList w)) = false := by
  rw [← Bool.not_eq_true, List.contains_iff_mem]
  intro hin
  refine h _ hin ?_
  rw [text_toList]
  exact List.mem_flatMap.mpr ⟨c, hc, by simp [u.ascii c hascii]⟩

end Upper

/-! The clauses behind the type. -/

def flagWords : List (List Char) := ["NOT".toList, "UNIQUE".toList]

def clauseWords : List (List Char) := ["NOT".toList, "UNIQUE".toList, "DEFAULT".toList]

/-- Nothing, or a gap and one of the keywords. -/
def Clausal (ks : List (List Char)) (l : List Char) : Prop :=
  l = [] ∨ ∃ (g : Gap) (w more : List Char), l = g.val ++ w ++ more ∧ w.map Char.toUpper ∈ ks ∧ ∀ c ∈ more.head?, isSpace c = true

theorem Clausal.mono {ks ks' : List (List Char)} (hks : ks ⊆ ks') {l : List Char} (h : Clausal ks l) : Clausal ks' l := by
  obtain rfl | ⟨g, w, more, hl, hw, hmore⟩ := h
  · exact .inl rfl
  · exact .inr ⟨g, w, more, hl, hks hw, hmore⟩

theorem flagWords_subset : flagWords ⊆ clauseWords := by simp [flagWords, clauseWords]

theorem clauseWords_letters : ∀ k ∈ clauseWords, k ≠ [] ∧ ∀ x ∈ k, x.isAlpha = true ∧ x.toNat < 128 := by simp [clauseWords]

theorem Gap.head (g : Gap) (l : List Char) : ∀ c ∈ (g.val ++ l).head?, isSpace c = true := by
  intro c hc
  rw [List.head?_append_of_ne_nil _ g.property.1] at hc
  exact g.blank c (List.mem_of_mem_head? hc)

variable {ks : List (List Char)}

theorem Clausal.head {l : List Char} (h : Clausal ks l) : ∀ c ∈ l.head?, isSpace c = true := by
  obtain rfl | ⟨g, w, more, rfl, -, -⟩ := h
  · simp
  · rw [List.append_assoc]
    exact g.head _

theorem flagsText_cons (f : Gap × Flag) (fs : List (Gap × Flag)) : flagsText (f :: fs) = f.1.val ++ f.2.text ++ flagsText fs := rfl

theorem clausal_flags (hks : flagWords ⊆ ks) {m : List Char} (h : Clausal ks m) (fs : List (Gap × Flag)) :
    Clausal ks (flagsText fs ++ m) := by
  induction fs with
  | nil => exact h
  | cons f fs ih =>
    obtain ⟨g, ⟨n, gap, null⟩ | w⟩ := f
    · refine .inr ⟨g, n.val, gap.val ++ null.val ++ (flagsText fs ++ m), ?_, ?_, ?_⟩
      · simp [flagsText_cons, Flag.text, List.append_assoc]
      · exact hks (by simp [flagWords, n.property])
      · rw [List.append_assoc]
        exact gap.head _
    · refine .inr ⟨g, w.val, flagsText fs ++ m, ?_, hks (by simp [flagWords, w.property]), ih.head⟩
      simp [flagsText_cons, Flag.text, List.append_assoc]

theorem clausal_after (d : ColumnDef) : Clausal flagWords (flagsText d.after) := by
  simpa using clausal_flags (List.Subset.refl _) (.inl rfl) d.after

theorem clausal_default (d : ColumnDef) : Clausal clauseWords (d.defaultText ++ flagsText d.after) := by
  have hafter : Clausal clauseWords (flagsText d.after) := (clausal_after d).mono flagWords_subset
  unfold ColumnDef.defaultText
  cases d.default with
  | none => simpa using hafter
  | some c =>
    refine .inr ⟨c.1, c.2.word.val, c.2.gap.val ++ (c.2.literal.text ++ flagsText d.after), ?_, by simp [clauseWords, c.2.word.property],
      c.2.gap.head _⟩
    simp [DefaultClause.text, List.append_assoc]

theorem chars_eq (d : ColumnDef) : d.chars = d.type.text ++ (flagsText d.before ++ (d.defaultText ++ flagsText d.after)) := by
  simp [ColumnDef.chars, ColumnDef.front, List.append_assoc]

/-- A keyword after blanks is a piece. -/
theorem Clausal.keyword (hks : ks ⊆ clauseWords) {l : List Char} (h : Clausal ks l) :
    ∀ p ∈ (pieces isSpace l).head?, p.map Char.toUpper ∈ ks := by
  obtain rfl | ⟨g, w, more, rfl, hw, hmore⟩ := h
  · simp
  · have hne : w ≠ [] := by
      rintro rfl
      exact (clauseWords_letters _ (hks hw)).1 rfl
    have hink : ∀ c ∈ w, isSpace c = false := by
      intro c hc
      have hletter := (clauseWords_letters _ (hks hw)).2 c.toUpper (List.mem_map_of_mem hc)
      exact isSpace_of_toUpper (ascii_of_toUpper hletter.2) hletter.1
    rw [List.append_assoc, pieces_gap_append g.blank, pieces_word_append hne hink]
    have hnone : (more.takeWhile fun c => !isSpace c) = [] := by
      cases more with
      | nil => rfl
      | cons c more => simp [hmore c rfl]
    rw [hnone, List.append_nil]
    simpa using hw

/-! The type. -/

set_option maxRecDepth 8000 in
theorem keys_joined : ∀ k ∈ modelToPgType.map Prod.fst, [' '].intercalate (pieces isSpace k.toList) = k.toList := by decide

set_option maxRecDepth 8000 in
theorem keys_chars : ∀ k ∈ modelToPgType.map Prod.fst, k.toList ≠ [] ∧ ∀ c ∈ k.toList, c.toNat < 128 ∧ c ≠ '(' := by decide

set_option maxRecDepth 8000 in
theorem keys_ends : ∀ k ∈ modelToPgType.map Prod.fst, (∀ c ∈ k.toList.head?, isSpace c = false) ∧
    ∀ c ∈ k.toList.getLast?, isSpace c = false := by decide

set_option maxRecDepth 8000 in
theorem keys_default : ∀ k ∈ modelToPgType.map Prod.fst, ¬ "DEFAULT".toList <:+: k.toList.map Char.toUpper := by decide

set_option maxRecDepth 8000 in
theorem keys_stop : ∀ k ∈ modelToPgType.map Prod.fst, ∀ p ∈ pieces isSpace k.toList,
    typeStopKeywords.contains (String.ofList (p.map Char.toUpper)) = false := by decide

variable (t : TypeText)

theorem TypeText.spelled_mem {w : List Char} (hw : w ∈ t.words) : lower w ∈ pieces isSpace t.key.toList :=
  t.spelled ▸ List.mem_map_of_mem hw

theorem TypeText.word_ink {w : List Char} (hw : w ∈ t.words) : w ≠ [] ∧ ∀ c ∈ w, isSpace c = false := by
  obtain ⟨hne, hink⟩ := mem_pieces (t.spelled_mem hw)
  refine ⟨fun hnil => hne (by simp [hnil, lower]), fun c hc => ?_⟩
  rw [← isSpace_toLower]
  exact (hink _ (List.mem_map_of_mem hc)).2

theorem lower_words : lower ([' '].intercalate t.words) = t.key.toList := by
  rw [lower, map_intercalate]
  have hspelled : t.words.map (List.map Char.toLower) = pieces isSpace t.key.toList := t.spelled
  rw [hspelled]
  exact keys_joined t.key t.known

theorem words_ascii : ∀ c ∈ [' '].intercalate t.words, c.toNat < 128 := by
  intro c hc
  have hlow : c.toLower ∈ t.key.toList := lower_words t ▸ List.mem_map_of_mem hc
  exact ascii_of_toLower ((keys_chars t.key t.known).2 _ hlow).1

theorem words_upper (u : Uppercase) : ([' '].intercalate t.words).flatMap u.char = t.key.toList.map Char.toUpper := by
  rw [upper_ascii u (words_ascii t), ← lower_words t, lower, List.map_map]
  exact List.map_congr_left fun c hc => (toUpper_toLower (words_ascii t c hc)).symm

theorem word_upper (u : Uppercase) {w : List Char} (hw : w ∈ t.words) :
    w.flatMap u.char = (lower w).map Char.toUpper := by
  have hascii : ∀ c ∈ w, c.toNat < 128 := by
    intro c hc
    have hlow : c.toLower ∈ lower w := List.mem_map_of_mem hc
    have hkey : c.toLower ∈ t.key.toList := ((mem_pieces (t.spelled_mem hw)).2 _ hlow).1
    exact ascii_of_toLower ((keys_chars t.key t.known).2 _ hkey).1
  rw [upper_ascii u hascii, lower, List.map_map]
  exact List.map_congr_left fun c hc => (toUpper_toLower (hascii c hc)).symm

theorem words_ne_nil : t.words ≠ [] := by
  intro hnil
  have hjoined := lower_words t
  rw [hnil] at hjoined
  exact (keys_chars t.key t.known).1 hjoined.symm

/-- In parentheses stands nothing that a keyword could be made of. -/
theorem modifier_chars {m : List Char} (hm : m ∈ t.modifier) : ∀ c ∈ '(' :: m ++ [')'], c ∈ "0123456789, ()".toList := by
  intro c hc
  have hsub : ∀ x ∈ "0123456789, ".toList, x ∈ "0123456789, ()".toList := by decide
  simp only [List.cons_append, List.mem_cons, List.mem_append, List.not_mem_nil, or_false] at hc
  obtain rfl | hc | rfl := hc
  · decide
  · exact hsub c (t.arguments m hm c hc)
  · decide

theorem argument_ascii : ∀ c ∈ "0123456789, ()".toList, c.toNat < 128 ∧ c.toUpper = c := by decide

theorem type_ascii : ∀ c ∈ t.text, c.toNat < 128 := by
  intro c hc
  obtain hc | hc := List.mem_append.mp hc
  · exact words_ascii t c hc
  · cases hm : t.modifier with
    | none => simp [hm] at hc
    | some m =>
      rw [hm] at hc
      exact (argument_ascii c (modifier_chars t hm c hc)).1

/-- `DEFAULT` is not in a type. -/
theorem type_default (u : Uppercase) : ¬ "DEFAULT".toList <:+: t.text.flatMap u.char := by
  rw [TypeText.text, List.flatMap_append, words_upper]
  intro h
  refine keys_default t.key t.known (infix_append_gap ?_ (by simp) h)
  intro c hc
  cases hm : t.modifier with
  | none => simp [hm] at hc
  | some m =>
    rw [hm] at hc
    have hchars := modifier_chars t hm
    rw [Option.elim_some, upper_ascii u fun c hc => (argument_ascii c (hchars c hc)).1] at hc
    obtain ⟨d, hd, rfl⟩ := List.mem_map.mp hc
    have hlack : ∀ x ∈ "0123456789, ()".toList, x ∉ "DEFAULT".toList := by decide
    rw [(argument_ascii d (hchars d hd)).2]
    exact hlack d (hchars d hd)

/-- The pieces of a type: its words, the last of them with what follows it. -/
theorem type_pieces : ∃ init last, t.words = init ++ [last] ∧ (
    (t.modifier = none ∧ pieces isSpace t.text = init ++ [last]) ∨
    ∃ m ∈ t.modifier, ∃ x vs, pieces isSpace t.text = init ++ (last ++ '(' :: x) :: vs ∧
      ∀ p ∈ vs, p ≠ [] ∧ ∀ c ∈ p, c ∈ '(' :: m ++ [')'] ∧ isSpace c = false) := by
  obtain ⟨init, last, hwords⟩ : ∃ init last, t.words = init ++ [last] :=
    ⟨_, _, (List.dropLast_concat_getLast (words_ne_nil t)).symm⟩
  have hink : ∀ w ∈ init, w ≠ [] ∧ ∀ c ∈ w, isSpace c = false := fun w hw => t.word_ink (by simp [hwords, hw])
  have hlast := t.word_ink (w := last) (by simp [hwords])
  refine ⟨init, last, hwords, ?_⟩
  have hpieces (y : List Char) : pieces isSpace ([' '].intercalate t.words ++ y) = init ++ pieces isSpace (last ++ y) := by
    rw [hwords]
    exact pieces_intercalate_append rfl (fun w hw => (hink w hw).1) fun w hw => (hink w hw).2
  cases hm : t.modifier with
  | none =>
    refine .inl ⟨rfl, ?_⟩
    rw [TypeText.text, hm, hpieces, Option.elim_none, List.append_nil, pieces_word hlast.1 hlast.2]
  | some m =>
    refine .inr ⟨m, rfl, (m ++ [')']).takeWhile (fun c => !isSpace c), pieces isSpace ((m ++ [')']).dropWhile fun c => !isSpace c), ?_, ?_⟩
    · rw [TypeText.text, hm, hpieces, Option.elim_some, pieces_word_append hlast.1 hlast.2, List.cons_append,
        List.takeWhile_cons_of_pos (by rfl), List.dropWhile_cons_of_pos (by rfl)]
    · intro p hp
      obtain ⟨hne, hin⟩ := mem_pieces hp
      refine ⟨hne, fun c hc => ⟨?_, (hin c hc).2⟩⟩
      exact List.mem_cons_of_mem _ ((List.dropWhile_suffix _).subset (hin c hc).1)

/-! The type as the code takes it from a definition. -/

theorem words_eq (l : List Char) : words l = (pieces isSpace l).map String.ofList := by
  rw [words, pieces]
  congr 1
  exact List.filter_congr fun p _ => by cases p <;> rfl

theorem words_chars (d : ColumnDef) : ∃ l, Clausal clauseWords l ∧ words d.text.toList =
    (pieces isSpace d.type.text).map String.ofList ++ (pieces isSpace l).map String.ofList := by
  have hrest := clausal_flags flagWords_subset (clausal_default d) d.before
  refine ⟨_, hrest, ?_⟩
  rw [ColumnDef.text, String.toList_ofList, words_eq, chars_eq, pieces_append_of_head hrest.head, List.map_append]

theorem Clausal.stop (u : Uppercase) (hks : ks ⊆ clauseWords) {l : List Char} (h : Clausal ks l) {keywords : List String}
    (hkeywords : ∀ k ∈ ks, String.ofList k ∈ keywords) :
    ∀ w ∈ ((pieces isSpace l).map String.ofList).head?, (!keywords.contains (u.text w)) = false := by
  intro w hw
  rw [List.head?_map, Option.mem_map] at hw
  obtain ⟨p, hp, rfl⟩ := hw
  have hkeyword := h.keyword hks p hp
  have hascii : ∀ c ∈ p, c.toNat < 128 := fun c hc =>
    ascii_of_toUpper ((clauseWords_letters _ (hks hkeyword)).2 _ (List.mem_map_of_mem hc)).2
  have hupper : u.text (String.ofList p) = String.ofList (p.map Char.toUpper) := by
    rw [Uppercase.text, String.toList_ofList, upper_ascii u hascii]
  rw [hupper, Bool.not_eq_false', List.contains_iff_mem]
  exact hkeywords _ hkeyword

/-- No piece of a type is a keyword. -/
theorem type_stop (u : Uppercase) (t : TypeText) :
    ∀ w ∈ (pieces isSpace t.text).map String.ofList, (!typeStopKeywords.contains (u.text w)) = true := by
  intro w hw
  obtain ⟨p, hp, rfl⟩ := List.mem_map.mp hw
  rw [Bool.not_eq_true']
  have hlack : ∀ k ∈ typeStopKeywords, ∀ c ∈ "0123456789,()".toList, c ∉ k.toList := by decide
  have hspelled (v : List Char) (hv : v ∈ t.words) : typeStopKeywords.contains (u.text (String.ofList v)) = false := by
    rw [Uppercase.text, String.toList_ofList, word_upper t u hv]
    exact keys_stop t.key t.known _ (t.spelled_mem hv)
  obtain ⟨init, last, hwords, ⟨-, hpieces⟩ | ⟨m, hm, x, vs, hpieces, hvs⟩⟩ := type_pieces t
  · exact hspelled p (by rwa [hwords, ← hpieces])
  · rw [hpieces] at hp
    obtain hp | hp := List.mem_append.mp hp
    · exact hspelled p (by rw [hwords]; exact List.mem_append_left _ hp)
    obtain rfl | hp := List.mem_cons.mp hp
    · exact not_keyword u (c := '(') (by simp) (by decide) fun k hk => hlack k hk '(' (by decide)
    · obtain ⟨hne, hin⟩ := hvs p hp
      obtain ⟨c, hc⟩ := List.exists_mem_of_ne_nil p hne
      have hargument : c ∈ "0123456789, ()".toList := modifier_chars t hm c (hin c hc).1
      have hinked : ∀ x ∈ "0123456789, ()".toList, isSpace x = false → x ∈ "0123456789,()".toList := by simp [isSpace]
      obtain ⟨hascii, hupper⟩ := argument_ascii c hargument
      refine not_keyword u hc hascii fun k hk => ?_
      rw [hupper]
      exact hlack k hk c (hinked c hargument (hin c hc).2)

theorem type_pieces_ne_nil (t : TypeText) : pieces isSpace t.text ≠ [] := by
  obtain ⟨init, last, -, ⟨-, hpieces⟩ | ⟨m, -, x, vs, hpieces, -⟩⟩ := type_pieces t <;> simp [hpieces]

theorem extractTypeSql_text (u : Uppercase) (d : ColumnDef) :
    extractTypeSql u.text d.text = String.ofList ([' '].intercalate (pieces isSpace d.type.text)) := by
  obtain ⟨l, hl, hwords⟩ := words_chars d
  have htaken : (words d.text.toList).takeWhile (fun t => !typeStopKeywords.contains (u.text t)) =
      (pieces isSpace d.type.text).map String.ofList := by
    rw [hwords]
    exact takeWhile_append_stop (type_stop u d.type) (hl.stop u (List.Subset.refl _) (by decide))
  simp only [extractTypeSql]
  rw [htaken, if_neg (by simpa using type_pieces_ne_nil d.type)]
  apply String.toList_injective
  rw [String.toList_intercalate, String.toList_ofList, List.map_map]
  simp [Function.comp_def]

theorem type_name (t : TypeText) :
    (lower ([' '].intercalate (pieces isSpace t.text))).takeWhile (fun c => c ≠ '(') = t.key.toList := by
  have hbare : ∀ c ∈ t.key.toList, decide (c ≠ '(') = true := fun c hc => decide_eq_true ((keys_chars t.key t.known).2 c hc).2
  obtain ⟨init, last, hwords, ⟨-, hpieces⟩ | ⟨m, -, x, vs, hpieces, -⟩⟩ := type_pieces t
  · rw [hpieces, ← hwords, lower_words]
    exact List.takeWhile_eq_self_iff.mpr hbare
  · obtain ⟨y, hy⟩ := intercalate_grow (s := ' ') init vs last ('(' :: x)
    rw [hpieces, hy, ← hwords, List.append_assoc, lower, List.map_append, ← lower, lower_words]
    exact takeWhile_append_stop hbare (by simp [show '('.toLower = '(' from rfl])

/-- Altering a column to the type of a definition takes it there, if it is no serial one. -/
theorem typeNamed_text (u : Uppercase) (d : ColumnDef) :
    typeNamed (extractTypeSql u.text d.text) = if d.serial then none else some d.sqlType := by
  have hname : String.ofList ((lower (extractTypeSql u.text d.text).toList).takeWhile (· ≠ '(')) = d.type.key := by
    rw [extractTypeSql_text, String.toList_ofList, type_name, String.ofList_toList]
  simp only [typeNamed]
  rw [hname]
  rfl

/-! The type as `information_schema` names it. -/

theorem stripChars_of_ends {l : List Char} (hhead : ∀ c ∈ l.head?, isSpace c = false) (hlast : ∀ c ∈ l.getLast?, isSpace c = false) :
    stripChars l = l := by
  have hdrop (l : List Char) (h : ∀ c ∈ l.head?, isSpace c = false) : l.dropWhile isSpace = l := by
    cases l with
    | nil => rfl
    | cons c l => exact List.dropWhile_cons_of_neg (by simp [h c rfl])
  rw [stripChars, hdrop l hhead, hdrop l.reverse (by simpa using hlast), List.reverse_reverse]

def Inked (l : List Char) : Prop := l ≠ [] ∧ ∀ c ∈ l.getLast?, isSpace c = false

theorem inked_append {l m : List Char} (h : Inked m) : Inked (l ++ m) := by
  refine ⟨by simp [h.1], ?_⟩
  rw [List.getLast?_append_of_ne_nil _ h.1]
  exact h.2

theorem inked_of_all {l : List Char} (hne : l ≠ []) (h : ∀ c ∈ l, isSpace c = false) : Inked l :=
  ⟨hne, fun c hc => h c (List.mem_of_getLast? hc)⟩

theorem inked_upper {l : List Char} (keywords : List (List Char)) (h : l.map Char.toUpper ∈ keywords)
    (hletters : ∀ k ∈ keywords, k ≠ [] ∧ ∀ x ∈ k, x.isAlpha = true ∧ x.toNat < 128) : Inked l := by
  refine inked_of_all (fun hnil => (hletters _ h).1 (by simp [hnil])) fun c hc => ?_
  have hletter := (hletters _ h).2 c.toUpper (List.mem_map_of_mem hc)
  exact isSpace_of_toUpper (ascii_of_toUpper hletter.2) hletter.1

theorem Flag.inked (f : Flag) : Inked f.text := by
  cases f with
  | notNull n g m => exact inked_append (inked_upper ["NULL".toList] (by simp [m.property]) (by simp))
  | unique w => exact inked_upper ["UNIQUE".toList] (by simp [Flag.text, w.property]) (by simp)

theorem inked_flags {l : List Char} (h : Inked l) (fs : List (Gap × Flag)) : Inked (l ++ flagsText fs) := by
  induction fs generalizing l with
  | nil => simpa [flagsText] using h
  | cons f fs ih =>
    rw [flagsText_cons, ← List.append_assoc, ← List.append_assoc]
    exact ih (inked_append f.2.inked)

theorem numeral_chars {t : List Char} (h : isNumeral t = true) : t ≠ [] ∧ ∀ c ∈ t, c ∈ "0123456789+-.eE".toList := by
  rw [isNumeral, Bool.and_eq_true, List.all_eq_true] at h
  exact ⟨fun hnil => by simp [hnil] at h, fun c hc => by simpa using h.2 c hc⟩

theorem Literal.inked (l : Literal) : Inked l.text := by
  cases l with
  | number t =>
    obtain ⟨hne, hchars⟩ := numeral_chars t.property
    have hink : ∀ c ∈ "0123456789+-.eE".toList, isSpace c = false := by simp [isSpace]
    exact inked_of_all hne fun c hc => hink c (hchars c hc)
  | boolean t => exact inked_upper _ t.property (by simp)
  | quoted body t =>
    by_cases hcast : t.val = []
    · rw [Literal.text, hcast]
      exact inked_append (inked_of_all (by simp) (by simp [isSpace]))
    · rw [Literal.text, List.append_cons]
      exact inked_append ⟨hcast, t.property⟩

theorem words_ends (t : TypeText) {c : Char}
    (h : some c = ([' '].intercalate t.words).head? ∨ some c = ([' '].intercalate t.words).getLast?) : isSpace c = false := by
  rw [← isSpace_toLower]
  have hlast : some c.toLower = t.key.toList.head? ∨ some c.toLower = t.key.toList.getLast? := by
    rw [← lower_words t, lower, List.head?_map, List.getLast?_map]
    exact h.imp (fun h => by rw [← h]; rfl) fun h => by rw [← h]; rfl
  obtain ⟨hfirst, hend⟩ := keys_ends t.key t.known
  exact hlast.elim (fun h => hfirst _ h.symm) fun h => hend _ h.symm

theorem words_joined_ne_nil (t : TypeText) : [' '].intercalate t.words ≠ [] := by
  intro hnil
  have hjoined := lower_words t
  rw [hnil] at hjoined
  exact (keys_chars t.key t.known).1 hjoined.symm

theorem words_inked (t : TypeText) : Inked ([' '].intercalate t.words) :=
  ⟨words_joined_ne_nil t, fun _ hc => words_ends t (.inr hc.symm)⟩

theorem type_inked (t : TypeText) : Inked t.text := by
  cases hm : t.modifier with
  | none =>
    rw [TypeText.text, hm, Option.elim_none, List.append_nil]
    exact words_inked t
  | some m =>
    rw [TypeText.text, hm, Option.elim_some]
    exact inked_append (inked_append (l := '(' :: m) (inked_of_all (by simp) (by simp [isSpace])))

theorem chars_inked (d : ColumnDef) : Inked d.chars := by
  have hfront : Inked d.front := inked_flags (type_inked d.type) d.before
  have hdefault : Inked (d.front ++ d.defaultText) := by
    unfold ColumnDef.defaultText
    cases d.default with
    | none => simpa using hfront
    | some c =>
      rw [Option.elim_some, DefaultClause.text, ← List.append_assoc, ← List.append_assoc]
      exact inked_append c.2.literal.inked
  exact inked_flags hdefault d.after

theorem stripChars_chars (d : ColumnDef) : stripChars d.chars = d.chars := by
  refine stripChars_of_ends (fun c hc => ?_) (chars_inked d).2
  rw [chars_eq, TypeText.text, List.append_assoc, List.head?_append_of_ne_nil _ (words_joined_ne_nil d.type)] at hc
  exact words_ends d.type (.inl hc.symm)

/-- What may follow the name of a type: nothing of a longer name. -/
def Follows (l : List Char) : Prop :=
  (∀ c ∈ l.head?, c ∈ [' ', '(', '\t', '\n']) ∧ l.take 2 ≠ [' ', 'w'] ∧ l.take 2 ≠ [' ', 'v']

set_option maxRecDepth 8000 in
/-- A type whose name goes on with a blank goes on with `with`, `without` or `varying`. -/
theorem keys_longer : ∀ e ∈ modelToPgType, ∀ e' ∈ modelToPgType, e.1.toList.isPrefixOf e'.1.toList = true → e' = e ∨
    (e'.1.toList.drop e.1.toList.length ≠ [] ∧
      ((∀ c ∈ (e'.1.toList.drop e.1.toList.length).head?, c ∉ [' ', '(', '\t', '\n']) ∨
        (e'.1.toList.drop e.1.toList.length).take 2 ∈ [[' ', 'w'], [' ', 'v']])) := by
  decide

set_option maxRecDepth 8000 in
theorem longestFirst_ordered : longestFirst.Pairwise fun a b => b.1.toList.length ≤ a.1.toList.length := by decide

theorem mem_longestFirst {e : String × String} : e ∈ longestFirst ↔ e ∈ modelToPgType :=
  (List.perm_insertionSort _ modelToPgType).mem_iff

theorem longest_match {e : String × String} (he : e ∈ modelToPgType) {l : List Char} (hl : Follows l) :
    longestFirst.find? (fun e' => startsWithType (e.1.toList ++ l) e'.1) = some e := by
  refine find?_eq_some_of_pairwise longestFirst_ordered (mem_longestFirst.mpr he) ?_ fun e' he' hstarts hlonger => ?_
  · rw [startsWithType, Bool.and_eq_true, List.drop_left]
    refine ⟨List.isPrefixOf_iff_prefix.mpr (List.prefix_append _ _), ?_⟩
    rw [Option.all_eq_true]
    intro c hc
    rw [List.contains_iff_mem]
    exact hl.1 c hc
  · rw [startsWithType, Bool.and_eq_true, List.isPrefixOf_iff_prefix] at hstarts
    obtain ⟨hinitial, -⟩ := hstarts
    have hshort : e.1.toList <+: e'.1.toList :=
      List.prefix_of_prefix_length_le (List.prefix_append _ l) hinitial hlonger
    obtain hsame | ⟨hne, hmore⟩ := keys_longer e he e' (mem_longestFirst.mp he') (List.isPrefixOf_iff_prefix.mpr hshort)
    · exact hsame
    · obtain ⟨x, hx⟩ := hshort
      rw [← hx, List.drop_left] at hne hmore
      rw [← hx] at hinitial
      obtain ⟨y, rfl⟩ := (List.prefix_append_right_inj _).mp hinitial
      obtain ⟨hhead, hwith, hvarying⟩ := hl
      obtain hletter | htwo := hmore
      · rw [List.head?_append_of_ne_nil _ hne] at hhead
        have hc := List.head?_eq_some_head hne
        exact absurd (hhead _ hc) (hletter _ hc)
      · have htake : (x ++ y).take 2 = x.take 2 := by
          refine List.take_append_of_le_length ?_
          have hlength : (x.take 2).length = 2 := by
            simp only [List.mem_cons, List.not_mem_nil, or_false] at htwo
            obtain h | h := htwo <;> simp [h]
          rw [List.length_take] at hlength
          omega
        rw [htake] at hwith hvarying
        simp only [List.mem_cons, List.not_mem_nil, or_false] at htwo
        exact htwo.elim (fun h => absurd h hwith) fun h => absurd h hvarying

set_option maxRecDepth 8000 in
theorem keyword_letter {c : Char} (h : c.toUpper ∈ ['N', 'U', 'D']) : c.toLower ≠ 'w' ∧ c.toLower ≠ 'v' := by
  have hletters : ∀ x ∈ ['N', 'U', 'D'], x.toNat < 128 := by simp
  have hall : ∀ n < 128, (Char.ofNat n).toUpper ∈ ['N', 'U', 'D'] → (Char.ofNat n).toLower ≠ 'w' ∧ (Char.ofNat n).toLower ≠ 'v' := by
    decide
  have hcase := hall c.toNat (ascii_of_toUpper (hletters _ h))
  simp only [Char.ofNat_toNat] at hcase
  exact hcase h

/-- The second character behind a blank is a blank or starts a keyword. -/
theorem follows_clausal {l : List Char} (h : Clausal clauseWords l) : Follows (lower l) := by
  obtain rfl | ⟨g, w, more, rfl, hw, -⟩ := h
  · simp [Follows, lower]
  · have hblank : ∀ x ∈ [' ', '\t', '\n'], x.toLower = x ∧ x ∈ [' ', '(', '\t', '\n'] ∧ x ≠ 'w' ∧ x ≠ 'v' := by decide
    obtain ⟨g, hne, hg⟩ := g
    cases g with
    | nil => exact absurd rfl hne
    | cons c g =>
      rw [List.forall_mem_cons] at hg
      have hsecond : ∃ d rest, g ++ w = d :: rest ∧ d.toLower ≠ 'w' ∧ d.toLower ≠ 'v' := by
        cases g with
        | cons d g =>
          have hd := hblank d (hg.2 d List.mem_cons_self)
          exact ⟨d, g ++ w, rfl, by rw [hd.1]; exact hd.2.2⟩
        | nil =>
          cases w with
          | nil => simp [clauseWords] at hw
          | cons d w =>
            refine ⟨d, w, rfl, ?_⟩
            have hletter : d.toUpper ∈ ['N', 'U', 'D'] := by
              simp [clauseWords] at hw ⊢
              exact hw.imp And.left (Or.imp And.left And.left)
            exact keyword_letter hletter
      obtain ⟨d, rest, hrest, hw, hv⟩ := hsecond
      have hc := hblank c hg.1
      rw [List.cons_append, List.cons_append, hrest, List.cons_append]
      refine ⟨?_, ?_, ?_⟩
      · simpa [lower, hc.1] using hc.2.1
      · simp [lower, hw]
      · simp [lower, hv]

theorem follows_type (d : ColumnDef) : ∃ l, lower d.chars = d.type.key.toList ++ l ∧ Follows l := by
  have htail := clausal_flags flagWords_subset (clausal_default d) d.before
  rw [chars_eq, TypeText.text, List.append_assoc, lower, List.map_append, ← lower, lower_words]
  refine ⟨_, rfl, ?_⟩
  cases d.type.modifier with
  | none => exact follows_clausal htail
  | some m => simp [Follows, show '('.toLower = '(' from rfl]

theorem types_named : ∀ e ∈ modelToPgType, e.2 = informationSchemaName e.1 := by decide

/-- The code finds the type that the definition names, unless there is a `[]` anywhere in its text. -/
theorem normalizePgType_text (d : ColumnDef) :
    normalizePgType d.text = some (if (find "[]".toList (lower d.chars)).isSome then "ARRAY" else d.sqlType) := by
  have hne : d.chars ≠ [] := (chars_inked d).1
  simp only [normalizePgType, ColumnDef.text, String.toList_ofList]
  rw [stripChars_chars, if_neg (by simpa using hne)]
  by_cases harray : (find "[]".toList (lower d.chars)).isSome = true
  · rw [if_pos harray, if_pos harray]
  · rw [if_neg harray, if_neg harray]
    obtain ⟨e, he, hkey⟩ := List.mem_map.mp d.type.known
    obtain ⟨l, hchars, hl⟩ := follows_type d
    rw [hchars, ← hkey, longest_match he hl, ColumnDef.sqlType, ← hkey, ← types_named e he]

/-! The default. -/

theorem default_parsed (upper : String → String) (columnDef : String) :
    (parseColumnConstraints upper columnDef).default = extractDefault upper columnDef := by
  rw [parseColumnConstraints, extractDefault]
  cases find "DEFAULT".toList (upper columnDef).toList <;> rfl

section Default
variable (u : Uppercase)

theorem upper_notNull (n : Spelled "NOT") (g : Gap) (m : Spelled "NULL") :
    (Flag.notNull n g m).text.flatMap u.char = "NOT".toList ++ g.val ++ "NULL".toList := by
  rw [Flag.text, List.flatMap_append, List.flatMap_append, upper_spelled u (by simp) n, upper_gap, upper_spelled u (by simp) m]

theorem upper_unique (w : Spelled "UNIQUE") : (Flag.unique w).text.flatMap u.char = "UNIQUE".toList :=
  upper_spelled u (by simp) w

theorem gap_default (g : Gap) : ∀ c ∈ g.val, c ∉ "DEFAULT".toList := by
  intro c hc
  have hlack : ∀ x ∈ [' ', '\t', '\n'], x ∉ "DEFAULT".toList := by decide
  exact hlack c (g.property.2 c hc)

/-- Constraints bring no `DEFAULT`. -/
theorem flags_default {l : List Char} (h : ¬ "DEFAULT".toList <:+: l) (fs : List (Gap × Flag)) :
    ¬ "DEFAULT".toList <:+: l ++ (flagsText fs).flatMap u.char := by
  induction fs generalizing l with
  | nil => simpa [flagsText] using h
  | cons f fs ih =>
    rw [flagsText_cons, List.flatMap_append, List.flatMap_append, upper_gap, ← List.append_assoc, ← List.append_assoc]
    refine ih fun hin => ?_
    obtain hin | hin := infix_append_gap_append (gap_default f.1) f.1.property.1 (by simp) hin
    · exact h hin
    · obtain ⟨g, ⟨n, gap, null⟩ | w⟩ := f
      · rw [upper_notNull] at hin
        obtain hin | hin := infix_append_gap_append (gap_default gap) gap.property.1 (by simp) hin
        · exact absurd hin (by decide)
        · exact absurd hin (by decide)
      · rw [upper_unique] at hin
        exact absurd hin (by decide)

theorem front_default (d : ColumnDef) : ¬ "DEFAULT".toList <:+: d.front.flatMap u.char := by
  rw [ColumnDef.front, List.flatMap_append]
  exact flags_default u (type_default d.type u) d.before

theorem front_ascii (d : ColumnDef) : ∀ c ∈ d.front, c.toNat < 128 := by
  intro c hc
  obtain hc | hc := List.mem_append.mp hc
  · exact type_ascii d.type c hc
  · obtain ⟨f, -, hc⟩ := List.mem_flatMap.mp hc
    obtain hc | hc := List.mem_append.mp hc
    · exact f.1.ascii c hc
    · obtain ⟨g, ⟨n, gap, null⟩ | w⟩ := f
      · obtain hc | hc := List.mem_append.mp hc
        · obtain hc | hc := List.mem_append.mp hc
          · exact Spelled.ascii (by simp) n c hc
          · exact gap.ascii c hc
        · exact Spelled.ascii (by simp) null c hc
      · exact Spelled.ascii (by simp) w c hc

theorem isPrefixOf_eq_false {l m : List Char} (h : ¬ l <+: m) : l.isPrefixOf m = false := by
  rw [← Bool.not_eq_true, List.isPrefixOf_iff_prefix]
  exact h

theorem extractDefault_none {d : ColumnDef} (h : d.default = none) : extractDefault u.text d.text = none := by
  have hnone : find "DEFAULT".toList (u.text d.text).toList = none := by
    rw [find, List.findIdx?_eq_none_iff]
    intro t ht
    refine isPrefixOf_eq_false fun hin => ?_
    rw [ColumnDef.text, text_toList] at ht
    have hinfix := hin.isInfix.trans ((List.mem_tails _ _).mp ht).isInfix
    have hchars : d.chars = d.front ++ flagsText d.after := by simp [ColumnDef.chars, ColumnDef.defaultText, h]
    rw [hchars, List.flatMap_append] at hinfix
    exact flags_default u (front_default u d) d.after hinfix
  rw [extractDefault, hnone]
  rfl

/-- What follows the keyword. -/
theorem find_default {d : ColumnDef} {c : Gap × DefaultClause} (h : d.default = some c) :
    ∃ i, find "DEFAULT".toList (u.text d.text).toList = some i ∧
      d.text.toList.drop (i + 7) = c.2.gap.val ++ (c.2.literal.text ++ flagsText d.after) := by
  have hchars : d.chars = d.front ++ c.1.val ++ (c.2.word.val ++ (c.2.gap.val ++ (c.2.literal.text ++ flagsText d.after))) := by
    simp [ColumnDef.chars, ColumnDef.defaultText, h, DefaultClause.text, List.append_assoc]
  have hupper : (u.text d.text).toList = (d.front.flatMap u.char ++ c.1.val) ++
      ("DEFAULT".toList ++ (c.2.gap.val ++ (c.2.literal.text ++ flagsText d.after)).flatMap u.char) := by
    have hword (l : List Char) : (c.2.word.val ++ l).flatMap u.char = "DEFAULT".toList ++ l.flatMap u.char := by
      rw [List.flatMap_append, upper_spelled u (by simp) c.2.word]
    rw [ColumnDef.text, text_toList, hchars, List.flatMap_append, List.flatMap_append, upper_gap, hword]
  refine ⟨(d.front.flatMap u.char ++ c.1.val).length, ?_, ?_⟩
  · rw [hupper, find]
    refine findIdx_tails _ (fun t ht hne => isPrefixOf_eq_false fun hin => ?_) ?_
    · -- what starts before the keyword would have to reach over the blank before it
      obtain ⟨t', s, rfl⟩ := (List.eq_nil_or_concat' t).resolve_left hne
      obtain ⟨gap, s', hgap⟩ := (List.eq_nil_or_concat' c.1.val).resolve_left c.1.property.1
      obtain ⟨x, hx⟩ := ht
      rw [hgap, ← List.append_assoc, ← List.append_assoc] at hx
      obtain ⟨hx, hlast⟩ := List.append_inj' hx rfl
      have hblank : ∀ x ∈ c.1.val, x ∉ "DEFAULT".toList := gap_default c.1
      have hs : s ∉ "DEFAULT".toList := by
        rw [List.head_eq_of_cons_eq hlast]
        exact hblank s' (by simp [hgap])
      rw [List.append_assoc, List.singleton_append] at hin
      have hinfix : "DEFAULT".toList <:+: d.front.flatMap u.char ++ gap :=
        (prefix_append_sep hs hin).isInfix.trans (hx ▸ (List.suffix_append x t').isInfix)
      exact front_default u d (infix_append_gap (fun y hy => hblank y (by simp [hgap, hy])) (by simp) hinfix)
    · exact List.isPrefixOf_iff_prefix.mpr (List.prefix_append _ _)
  · have hword : c.2.word.val.length = 7 := by
      have hlength := congrArg List.length c.2.word.property
      simpa using hlength
    rw [upper_ascii u (front_ascii d), ColumnDef.text, String.toList_ofList, hchars, ← List.append_assoc (d.front ++ c.1.val)]
    exact List.drop_left' (by simp [hword, Nat.add_assoc])

end Default

section Literals
variable (u : Uppercase)

theorem extractDefault_some {d : ColumnDef} {c : Gap × DefaultClause} (h : d.default = some c) :
    ∃ l, Clausal flagWords l ∧ extractDefault u.text d.text =
      let valParts := ((pieces isSpace (c.2.literal.text ++ l)).map String.ofList).takeWhile fun t => !stopKeywords.contains (u.text t)
      if valParts.isEmpty then none else some (String.intercalate " " valParts) := by
  obtain ⟨i, hi, hdrop⟩ := find_default u h
  refine ⟨flagsText d.after, clausal_after d, ?_⟩
  rw [extractDefault, hi, Option.bind_some, hdrop, words_eq, pieces_gap_append c.2.gap.blank]

/-- A literal of one word is the default, as it is written. -/
theorem extractDefault_word {d : ColumnDef} {c : Gap × DefaultClause} (h : d.default = some c) (hne : c.2.literal.text ≠ [])
    (hink : ∀ x ∈ c.2.literal.text, isSpace x = false)
    (hword : stopKeywords.contains (u.text (String.ofList c.2.literal.text)) = false) :
    extractDefault u.text d.text = some (String.ofList c.2.literal.text) := by
  obtain ⟨l, hl, hextract⟩ := extractDefault_some u h
  have htaken : ((pieces isSpace (c.2.literal.text ++ l)).map String.ofList).takeWhile (fun t => !stopKeywords.contains (u.text t)) =
      [String.ofList c.2.literal.text] := by
    rw [pieces_append_of_head hl.head, pieces_word hne hink, List.map_append]
    refine takeWhile_append_stop (fun w hw => ?_) (hl.stop u flagWords_subset (by decide))
    rw [List.map_singleton, List.mem_singleton] at hw
    rw [hw, hword]
    rfl
  rw [hextract]
  simp only
  rw [htaken]
  simp

theorem extractDefault_number {d : ColumnDef} {t : { t : List Char // isNumeral t = true }} (h : d.literal = some (.number t)) :
    extractDefault u.text d.text = some (String.ofList t.val) := by
  obtain ⟨c, hc, hliteral⟩ := Option.map_eq_some_iff.mp h
  obtain ⟨hne, hchars⟩ := numeral_chars t.property
  have hink : ∀ x ∈ "0123456789+-.eE".toList, isSpace x = false := by simp [isSpace]
  have hword : stopKeywords.contains (u.text (String.ofList t.val)) = false := by
    have hfirst := t.property
    rw [isNumeral, Bool.and_eq_true, Option.any_eq_true] at hfirst
    obtain ⟨⟨x, hx, hin⟩, -⟩ := hfirst
    have hlack : ∀ k ∈ stopKeywords, ∀ x ∈ "0123456789+-.".toList, x ∉ k.toList := by decide
    have hcase : ∀ x ∈ "0123456789+-.".toList, x.toNat < 128 ∧ x.toUpper = x := by decide
    rw [List.contains_iff_mem] at hin
    refine not_keyword u (List.mem_of_mem_head? hx) (hcase x hin).1 fun k hk => ?_
    rw [(hcase x hin).2]
    exact hlack k hk x hin
  have htext : c.2.literal.text = t.val := by rw [hliteral]; rfl
  have hextract := extractDefault_word u hc (by rwa [htext]) (by rw [htext]; exact fun x hx => hink x (hchars x hx)) (by rwa [htext])
  rwa [htext] at hextract

theorem extractDefault_boolean {d : ColumnDef} {t : { t : List Char // t.map Char.toUpper ∈ ["TRUE".toList, "FALSE".toList] }}
    (h : d.literal = some (.boolean t)) : extractDefault u.text d.text = some (String.ofList t.val) := by
  obtain ⟨c, hc, hliteral⟩ := Option.map_eq_some_iff.mp h
  have hwords : ∀ k ∈ ["TRUE".toList, "FALSE".toList], stopKeywords.contains (String.ofList k) = false ∧ k ≠ [] ∧
      ∀ x ∈ k, x.isAlpha = true ∧ x.toNat < 128 := by simp [stopKeywords]
  obtain ⟨hstop, hne, hletters⟩ := hwords _ t.property
  have hascii : ∀ x ∈ t.val, x.toNat < 128 := fun x hx => ascii_of_toUpper (hletters _ (List.mem_map_of_mem hx)).2
  have htext : c.2.literal.text = t.val := by rw [hliteral]; rfl
  have hextract := extractDefault_word u hc (by rw [htext]; rintro hnil; simp [hnil] at hne)
    (by rw [htext]; exact fun x hx => isSpace_of_toUpper (hascii x hx) (hletters _ (List.mem_map_of_mem hx)).1)
    (by rwa [htext, Uppercase.text, String.toList_ofList, upper_ascii u hascii])
  rwa [htext] at hextract

/-- A quoted default starts with the quote. -/
theorem extractDefault_quoted {d : ColumnDef} {body : List Char} {t : { t : List Char // ∀ c ∈ t.getLast?, isSpace c = false }}
    (h : d.literal = some (.quoted body t)) :
    ∃ value, extractDefault u.text d.text = some value ∧ value.toList.head? = some '\'' := by
  obtain ⟨c, hc, hliteral⟩ := Option.map_eq_some_iff.mp h
  obtain ⟨l, -, hextract⟩ := extractDefault_some u hc
  have htext : c.2.literal.text = ['\''] ++ (body ++ '\'' :: t.val) := by rw [hliteral]; rfl
  rw [hextract, htext, List.append_assoc, pieces_word_append (by simp) (by simp [isSpace]), List.map_cons,
    List.takeWhile_cons_of_pos]
  · exact ⟨_, rfl, by simp⟩
  · rw [not_keyword u (c := '\'') (by simp) (by decide) (by decide)]
    rfl

end Literals

/-! `UNIQUE`. -/

theorem Clausal.upper_head (u : Uppercase) {l : List Char} (h : Clausal ks l) :
    ∀ c ∈ (l.flatMap u.char).head?, isSpace c = true := by
  obtain rfl | ⟨g, w, more, rfl, -, -⟩ := h
  · simp
  · rw [List.append_assoc, List.flatMap_append, upper_gap]
    exact g.head _

theorem unique_piece (u : Uppercase) {fs : List (Gap × Flag)} {g : Gap} {w : Spelled "UNIQUE"} (h : (g, Flag.unique w) ∈ fs)
    (front : List Char) {l : List Char} (hl : Clausal clauseWords l) :
    "UNIQUE".toList ∈ pieces isSpace ((front ++ (flagsText fs ++ l)).flatMap u.char) := by
  obtain ⟨before, after, rfl⟩ := List.append_of_mem h
  have hrest : Clausal clauseWords (flagsText after ++ l) := clausal_flags flagWords_subset hl after
  have htext : front ++ (flagsText (before ++ (g, .unique w) :: after) ++ l) =
      (front ++ flagsText before) ++ g.val ++ (w.val ++ (flagsText after ++ l)) := by
    simp [flagsText, Flag.text, List.append_assoc]
  have hword : (w.val ++ (flagsText after ++ l)).flatMap u.char = "UNIQUE".toList ++ (flagsText after ++ l).flatMap u.char := by
    rw [List.flatMap_append, upper_spelled u (by simp) w]
  have hunique : pieces isSpace "UNIQUE".toList = ["UNIQUE".toList] := pieces_word (by simp) (by simp [isSpace])
  rw [htext, List.flatMap_append, List.flatMap_append, upper_gap, pieces_append_gap g.property.1 g.blank, hword,
    pieces_append_of_head (hrest.upper_head u), hunique]
  exact List.mem_append_right _ (List.mem_append_left _ List.mem_cons_self)

/-- A column that is declared unique is one for the code. -/
theorem unique_parsed (u : Uppercase) {d : ColumnDef} (h : d.unique = true) :
    (parseColumnConstraints u.text d.text).unique = true := by
  have hpiece : "UNIQUE".toList ∈ pieces isSpace (d.chars.flatMap u.char) := by
    rw [ColumnDef.unique, ColumnDef.flags, List.any_map, List.any_eq_true] at h
    obtain ⟨⟨g, ⟨n, g', m⟩ | w⟩, hin, hunique⟩ := h
    · cases hunique
    · rw [chars_eq]
      obtain hin | hin := List.mem_append.mp hin
      · exact unique_piece u hin _ (clausal_default d)
      · have hpiece := unique_piece u hin (d.type.text ++ flagsText d.before ++ d.defaultText) (l := []) (.inl rfl)
        simpa [List.append_assoc] using hpiece
  rw [parseColumnConstraints]
  dsimp only
  rw [List.contains_iff_mem, ColumnDef.text, text_toList, words_eq]
  exact List.mem_map.mpr ⟨_, hpiece, String.ofList_toList⟩

end XgenSdk.Migrations
