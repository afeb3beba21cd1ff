import XgenSdk.Config.Serializer

/-! Settings that are repaired twice: which ones the first repair leaves for the second. -/
namespace XgenSdk.Serializer
open XgenSdk.Py

/-- `normalize_config_value`, with its type or without one. -/
def normalizeOf (lib : Libraries) (value : Json) : Option String → Json
  | some dataType => normalizeConfigValue lib value dataType
  | none =>
    match value with
    | .arr xs => .arr (unwrapList lib xs)
    | value => value

/-- The text that is split at its commas in the end, where none is read as a list that stays: the value of the call, as the
loop has come to the current text, with the rounds that are left. -/
def splitText (lib : Libraries) : Nat → String → String → Option String
  | 0, value, _ => some value
  | rounds + 1, value, current =>
    match lib.loads current with
    | some (.arr xs) => (wrapped xs).bind fun inner => splitText lib rounds inner inner
    | some (.str s) => if s = current then some value else splitText lib rounds value s
    | _ => some value

/-- The text is of a list with items, or of none and has something beside brackets, commas and blanks. -/
def Reads (lib : Libraries) (text : String) : Prop :=
  (∃ x xs, lib.loads (strip text) = some (.arr (x :: xs))) ∨ (∀ xs, lib.loads (strip text) ≠ some (.arr xs)) ∧ commaSplit text ≠ []

/-- Split at its commas, the text does not look like a list that was escaped once more. -/
def Settles (lib : Libraries) (text : String) : Prop :=
  (∀ inner, wrapped (commaSplit text) = some inner → ¬ Reads lib inner) ∧ (commaSplit text = [] → ¬ Reads lib text)

/-- Of the text nothing is left for a second repair. -/
def TextSettles (lib : Libraries) (value : String) : Prop :=
  ∀ text, splitText lib listRounds value (strip value) = some text → Settles lib text

/-- Nothing is left for a second repair of this type. -/
def ValueSettles (lib : Libraries) (dataType : Option String) : Json → Prop
  | .str s => dataType = some "list" → strip s ≠ "" → TextSettles lib s
  | .arr xs => dataType = some "list" ∨ dataType = none → ∀ inner, wrapped xs = some inner → TextSettles lib inner
  | _ => True

/-- No JSON string begins with a bracket. -/
structure Libraries.Lawful (lib : Libraries) : Prop extends lib.Shrinks where
  bracketed : ∀ text s, isBracketed '[' ']' text = true → lib.loads text ≠ some (.str s)

variable {lib : Libraries} {text value inner : String} {xs : List Json} {rounds : Nat}

theorem strip_bracketed (h : isBracketed '[' ']' inner = true) : strip inner = inner := strip_of_bracketed (by decide) (by decide) h

theorem bracketed_ne_empty (h : isBracketed '[' ']' inner = true) : inner ≠ "" := by
  rintro rfl
  exact absurd h (by decide)

theorem listOr_bracketed (h : isBracketed '[' ']' inner = true) (found : Option (List Json)) :
    listOr found inner = found.getD (commaSplit inner) := by
  rw [listOr, strip_bracketed h, if_neg (bracketed_ne_empty h)]

/-- One round. -/
theorem parseList_wrapped (hloads : lib.loads text = some (.arr xs)) (hwrapped : wrapped xs = some inner) :
    parseList lib (rounds + 1) text =
      some (if ((parseList lib rounds inner).getD (commaSplit inner)).isEmpty then xs else (parseList lib rounds inner).getD (commaSplit inner)) := by
  obtain ⟨s, -, -, hbracketed⟩ := wrapped_eq hwrapped
  rw [parseList, hloads]
  dsimp only
  rw [hwrapped]
  dsimp only
  rw [strip_bracketed hbracketed, listOr_bracketed hbracketed]

theorem parseList_plain (hloads : lib.loads text = some (.arr xs)) (hwrapped : wrapped xs = none) :
    parseList lib (rounds + 1) text = some xs := by
  rw [parseList, hloads]
  dsimp only
  rw [hwrapped]

theorem parseList_str {s : String} (hlib : lib.Shrinks) (hloads : lib.loads text = some (.str s)) :
    parseList lib (rounds + 1) text = parseList lib rounds s := by
  have hne : s ≠ text := fun h => absurd (hlib.str text s hloads) (by rw [h]; exact lt_irrefl _)
  rw [parseList, hloads]
  exact if_neg hne

theorem parseList_other (harr : ∀ xs, lib.loads text ≠ some (.arr xs)) (hstr : ∀ s, lib.loads text ≠ some (.str s)) :
    parseList lib (rounds + 1) text = none := by
  rw [parseList]
  split
  · rename_i xs h
    exact absurd h (harr xs)
  · rename_i s h
    exact absurd h (hstr s)
  · rfl

theorem wrapped_ne_nil (h : wrapped xs = some inner) : xs ≠ [] := by
  obtain ⟨s, rfl, -⟩ := wrapped_eq h
  exact List.cons_ne_nil _ _

/-- What a text in brackets is read as, is a list with items, or not. -/
theorem safeParse_ne_nil_iff (hlib : lib.Lawful) (h : isBracketed '[' ']' inner = true) : safeParseJsonList lib inner ≠ [] ↔ Reads lib inner := by
  rw [safeParseJsonList, listOr_bracketed h, strip_bracketed h, show listRounds = 999 + 1 from rfl, Reads, strip_bracketed h]
  by_cases harr : ∃ xs, lib.loads inner = some (.arr xs)
  · obtain ⟨xs, hxs⟩ := harr
    have hreads : (∃ x rest, lib.loads inner = some (.arr (x :: rest))) ∨ (∀ xs, lib.loads inner ≠ some (.arr xs)) ∧ commaSplit inner ≠ [] ↔
        xs ≠ [] := by
      constructor
      · rintro (⟨x, rest, hrest⟩ | ⟨hnone, -⟩)
        · rw [Json.arr.inj (Option.some.inj (hxs.symm.trans hrest))]
          exact List.cons_ne_nil _ _
        · exact absurd hxs (hnone xs)
      · intro hne
        obtain ⟨x, rest, rfl⟩ := List.exists_cons_of_ne_nil hne
        exact .inl ⟨x, rest, hxs⟩
    rw [hreads]
    cases hwrapped : wrapped xs with
    | none => rw [parseList_plain hxs hwrapped, Option.getD_some]
    | some deeper =>
      rw [parseList_wrapped hxs hwrapped, Option.getD_some]
      refine iff_of_true ?_ (wrapped_ne_nil hwrapped)
      split
      · exact wrapped_ne_nil hwrapped
      · rename_i hnonempty
        exact fun hnil => hnonempty (List.isEmpty_iff.mpr hnil)
  · have hnone : ∀ xs, lib.loads inner ≠ some (.arr xs) := fun xs hxs => harr ⟨xs, hxs⟩
    rw [parseList_other hnone fun s => hlib.bracketed inner s h, Option.getD_none]
    constructor
    · exact fun hne => .inr ⟨hnone, hne⟩
    · rintro (⟨x, rest, hrest⟩ | ⟨-, hne⟩)
      · exact absurd hrest (hnone _)
      · exact hne

/-- A list stays as it is, unless its only item reads as a list with items. -/
theorem unwrapList_eq_iff (hlib : lib.Lawful) (xs : List Json) :
    unwrapList lib xs = xs ↔ ∀ inner, wrapped xs = some inner → ¬ Reads lib inner := by
  cases hwrapped : wrapped xs with
  | none =>
    rw [unwrapList, hwrapped]
    exact iff_of_true rfl fun inner h => by cases h
  | some inner =>
    obtain ⟨s, rfl, rfl, hbracketed⟩ := wrapped_eq hwrapped
    have hreads : (∀ inner, some (strip s) = some inner → ¬ Reads lib inner) ↔ ¬ Reads lib (strip s) := by
      constructor
      · exact fun h => h _ rfl
      · intro h inner heq
        rwa [← Option.some.inj heq]
    rw [hreads, ← safeParse_ne_nil_iff hlib hbracketed, not_not, unwrapList, hwrapped]
    dsimp only
    by_cases hnil : safeParseJsonList lib (strip s) = []
    · rw [hnil]
      exact iff_of_true rfl rfl
    · rw [if_neg (by rwa [List.isEmpty_iff])]
      refine iff_of_false (fun hsame => ?_) hnil
      have hshorter : s.length < (strip s).length := listOr_length hbracketed (parseList_length hlib.toShrinks) hsame
      exact absurd (length_strip s) (by omega)

/-! What a call gives, by the text that is split in the end. -/

/-- What the loop of a call gives, or what is left where it gives nothing. -/
def outcome (lib : Libraries) (rounds : Nat) (value current : String) : List Json := (parseList lib rounds current).getD (commaSplit value)

variable {current : String}

theorem splitText_str {s : String} (hlib : lib.Shrinks) (hloads : lib.loads current = some (.str s)) :
    splitText lib (rounds + 1) value current = splitText lib rounds value s := by
  have hne : s ≠ current := fun h => absurd (hlib.str current s hloads) (by rw [h]; exact lt_irrefl _)
  rw [splitText, hloads]
  exact if_neg hne

theorem splitText_arr (hloads : lib.loads current = some (.arr xs)) :
    splitText lib (rounds + 1) value current = (wrapped xs).bind fun inner => splitText lib rounds inner inner := by
  rw [splitText, hloads]

theorem splitText_other (harr : ∀ xs, lib.loads current ≠ some (.arr xs)) (hstr : ∀ s, lib.loads current ≠ some (.str s)) :
    splitText lib (rounds + 1) value current = some value := by
  rw [splitText]
  split
  · rename_i xs h
    exact absurd h (harr xs)
  · rename_i s h
    exact absurd h (hstr s)
  · rfl

/-- A list in brackets that gives nothing, and is not split, is the empty one. -/
theorem not_reads_of_empty (hlib : lib.Lawful) (hbracketed : isBracketed '[' ']' inner = true) (hsplit : splitText lib rounds inner inner = none)
    (hempty : outcome lib rounds inner inner = []) : ¬ Reads lib inner := by
  cases rounds with
  | zero => cases hsplit
  | succ rounds =>
    by_cases harr : ∃ xs, lib.loads inner = some (.arr xs)
    · obtain ⟨xs, hxs⟩ := harr
      have hnil : xs = [] := by
        cases hwrapped : wrapped xs with
        | none => rwa [outcome, parseList_plain hxs hwrapped] at hempty
        | some deeper =>
          rw [outcome, parseList_wrapped hxs hwrapped, Option.getD_some] at hempty
          split at hempty
          · exact absurd hempty (wrapped_ne_nil hwrapped)
          · rename_i hnonempty
            exact absurd (List.isEmpty_iff.mpr hempty) hnonempty
      rw [hnil] at hxs
      rintro (⟨x, rest, hrest⟩ | ⟨hnone, -⟩)
      · rw [strip_bracketed hbracketed, hxs] at hrest
        cases hrest
      · rw [strip_bracketed hbracketed] at hnone
        exact hnone [] hxs
    · rw [splitText_other (fun xs hxs => harr ⟨xs, hxs⟩) fun s => hlib.bracketed inner s hbracketed] at hsplit
      cases hsplit

/-- What is not split in the end, stays. -/
theorem unwrapList_outcome (hlib : lib.Lawful) (hsplit : splitText lib rounds value current = none) :
    unwrapList lib (outcome lib rounds value current) = outcome lib rounds value current := by
  induction rounds generalizing value current with
  | zero => cases hsplit
  | succ rounds ih =>
    by_cases harr : ∃ xs, lib.loads current = some (.arr xs)
    · obtain ⟨xs, hxs⟩ := harr
      rw [splitText_arr hxs] at hsplit
      cases hwrapped : wrapped xs with
      | none =>
        rw [outcome, parseList_plain hxs hwrapped, Option.getD_some, unwrapList_eq_iff hlib, hwrapped]
        exact fun inner h => by cases h
      | some inner =>
        rw [hwrapped, Option.bind_some] at hsplit
        obtain ⟨w, rfl, rfl, hbracketed⟩ := wrapped_eq hwrapped
        rw [outcome, parseList_wrapped hxs hwrapped, Option.getD_some]
        split
        · rename_i hempty
          rw [unwrapList_eq_iff hlib, hwrapped]
          intro inner hinner
          rw [← Option.some.inj hinner]
          exact not_reads_of_empty hlib hbracketed hsplit (List.isEmpty_iff.mp hempty)
        · exact ih hsplit
    · by_cases hstr : ∃ s, lib.loads current = some (.str s)
      · obtain ⟨s, hs⟩ := hstr
        rw [splitText_str hlib.toShrinks hs] at hsplit
        rw [outcome, parseList_str hlib.toShrinks hs]
        exact ih hsplit
      · rw [splitText_other (fun xs hxs => harr ⟨xs, hxs⟩) fun s hs => hstr ⟨s, hs⟩] at hsplit
        cases hsplit

/-- What is split in the end, gives its items; without items, the list around it stays. -/
theorem outcome_split (hlib : lib.Lawful) (hsplit : splitText lib rounds value current = some text) :
    (commaSplit text ≠ [] → outcome lib rounds value current = commaSplit text) ∧
      (commaSplit text = [] →
        (text = value ∧ outcome lib rounds value current = [] ∧ (rounds = 0 ∨ ∀ xs, lib.loads current ≠ some (.arr xs))) ∨
        ∃ w, outcome lib rounds value current = [.str w] ∧ strip w = text ∧ isBracketed '[' ']' text = true) := by
  induction rounds generalizing value current with
  | zero =>
    obtain rfl : value = text := Option.some.inj hsplit
    have hresult : outcome lib 0 value current = commaSplit value := by rw [outcome, parseList, Option.getD_none]
    rw [hresult]
    exact ⟨fun _ => Eq.refl _, fun hnil => .inl ⟨rfl, hnil, .inl rfl⟩⟩
  | succ rounds ih =>
    by_cases harr : ∃ xs, lib.loads current = some (.arr xs)
    · obtain ⟨xs, hxs⟩ := harr
      rw [splitText_arr hxs] at hsplit
      obtain ⟨inner, hwrapped, hinner⟩ := Option.bind_eq_some_iff.mp hsplit
      obtain ⟨w, rfl, rfl, hbracketed⟩ := wrapped_eq hwrapped
      obtain ⟨hitems, hnone⟩ := ih hinner
      have hresult : outcome lib (rounds + 1) value current =
          if (outcome lib rounds (strip w) (strip w)).isEmpty then [.str w] else outcome lib rounds (strip w) (strip w) := by
        rw [outcome, parseList_wrapped hxs hwrapped]
        rfl
      rw [hresult]
      constructor
      · intro hne
        rw [hitems hne, if_neg (by rwa [List.isEmpty_iff])]
      · intro hnil
        obtain ⟨htext, hempty, -⟩ | ⟨w', hw', htext, htextBracketed⟩ := hnone hnil
        · rw [hempty]
          exact .inr ⟨w, rfl, htext.symm, htext ▸ hbracketed⟩
        · rw [hw']
          exact .inr ⟨w', rfl, htext, htextBracketed⟩
    · have hnoArr : ∀ xs, lib.loads current ≠ some (.arr xs) := fun xs hxs => harr ⟨xs, hxs⟩
      by_cases hstr : ∃ s, lib.loads current = some (.str s)
      · obtain ⟨s, hs⟩ := hstr
        rw [splitText_str hlib.toShrinks hs] at hsplit
        have hresult : outcome lib (rounds + 1) value current = outcome lib rounds value s := by
          rw [outcome, parseList_str hlib.toShrinks hs, outcome]
        obtain ⟨hitems, hnone⟩ := ih hsplit
        rw [hresult]
        refine ⟨hitems, fun hnil => (hnone hnil).imp_left ?_⟩
        rintro ⟨htext, hempty, -⟩
        exact ⟨htext, hempty, .inr hnoArr⟩
      · have hnoStr : ∀ s, lib.loads current ≠ some (.str s) := fun s hs => hstr ⟨s, hs⟩
        rw [splitText_other hnoArr hnoStr] at hsplit
        obtain rfl := Option.some.inj hsplit
        have hresult : outcome lib (rounds + 1) value current = commaSplit value := by
          rw [outcome, parseList_other hnoArr hnoStr, Option.getD_none]
        rw [hresult]
        exact ⟨fun _ => Eq.refl _, fun hnil => .inl ⟨rfl, hnil, .inr hnoArr⟩⟩

/-! The second repair. -/

/-- What is read from a text stays, exactly where the text that is split in the end settles. -/
theorem text_iff (hlib : lib.Lawful) (hne : strip value ≠ "") :
    unwrapList lib (safeParseJsonList lib value) = safeParseJsonList lib value ↔ TextSettles lib value := by
  have hparse : safeParseJsonList lib value = outcome lib listRounds value (strip value) := by
    rw [safeParseJsonList, listOr, if_neg hne, outcome]
  rw [hparse, TextSettles]
  cases hsplit : splitText lib listRounds value (strip value) with
  | none => exact iff_of_true (unwrapList_outcome hlib hsplit) fun text h => by cases h
  | some text =>
    obtain ⟨hitems, hnone⟩ := outcome_split hlib hsplit
    have honly : (∀ t, some text = some t → Settles lib t) ↔ Settles lib text := by
      constructor
      · exact fun h => h text rfl
      · intro h t ht
        rwa [← Option.some.inj ht]
    rw [honly, unwrapList_eq_iff hlib, Settles]
    by_cases hnil : commaSplit text = []
    · have hfirst : ∀ inner, wrapped (commaSplit text) = some inner → ¬ Reads lib inner := by
        intro inner hinner
        rw [hnil] at hinner
        cases hinner
      obtain ⟨rfl, hempty, hrounds⟩ | ⟨w, hw, rfl, hbracketed⟩ := hnone hnil
      · rw [hempty]
        refine iff_of_true (fun inner hinner => by cases hinner) ⟨hfirst, fun _ => ?_⟩
        obtain hzero | hnoArr := hrounds
        · exact absurd hzero (by decide)
        · rintro (⟨x, xs, hxs⟩ | ⟨-, hsome⟩)
          · exact hnoArr _ hxs
          · exact hsome hnil
      · have hwrapped : wrapped [.str w] = some (strip w) := if_pos hbracketed
        rw [hw, hwrapped]
        constructor
        · exact fun h => ⟨hfirst, fun _ => h _ rfl⟩
        · intro h inner hinner
          rw [← Option.some.inj hinner]
          exact h.2 hnil
    · rw [hitems hnil]
      exact ⟨fun h => ⟨h, fun h' => absurd h' hnil⟩, fun h => h.1⟩

theorem list_iff (hlib : lib.Lawful) (xs : List Json) :
    unwrapList lib (unwrapList lib xs) = unwrapList lib xs ↔ ∀ inner, wrapped xs = some inner → TextSettles lib inner := by
  cases hwrapped : wrapped xs with
  | none =>
    have hsame : unwrapList lib xs = xs := by rw [unwrapList, hwrapped]
    rw [hsame, hsame]
    exact iff_of_true rfl fun inner h => by cases h
  | some inner =>
    obtain ⟨s, rfl, rfl, hbracketed⟩ := wrapped_eq hwrapped
    have honly : (∀ inner, some (strip s) = some inner → TextSettles lib inner) ↔ TextSettles lib (strip s) := by
      constructor
      · exact fun h => h _ rfl
      · intro h inner hinner
        rwa [← Option.some.inj hinner]
    have hne : strip (strip s) ≠ "" := by
      rw [strip_bracketed hbracketed]
      exact bracketed_ne_empty hbracketed
    have hresult : unwrapList lib [.str s] =
        if (safeParseJsonList lib (strip s)).isEmpty then [.str s] else safeParseJsonList lib (strip s) := by
      rw [unwrapList, hwrapped]
    rw [honly, ← text_iff hlib hne, hresult]
    by_cases hempty : safeParseJsonList lib (strip s) = []
    · rw [hempty, if_pos List.isEmpty_nil, hresult, hempty]
      exact iff_of_true rfl rfl
    · rw [if_neg (by rwa [List.isEmpty_iff])]

/-- A second repair changes nothing, for every value and type, where the first one leaves nothing for it. -/
theorem normalizeOf_idempotent_iff (hlib : lib.Lawful) (value : Json) (dataType : Option String) :
    normalizeOf lib (normalizeOf lib value dataType) dataType = normalizeOf lib value dataType ↔ ValueSettles lib dataType value := by
  cases dataType with
  | none =>
    cases value with
    | arr xs =>
      rw [normalizeOf, normalizeOf, Json.arr.injEq, list_iff hlib]
      exact ⟨fun h _ => h, fun h => h (.inr rfl)⟩
    | str s => exact iff_of_true rfl fun h => by cases h
    | _ => exact iff_of_true rfl trivial
  | some dataType =>
    rw [normalizeOf, normalizeOf]
    by_cases hlist : dataType = "list"
    · subst hlist
      cases value with
      | arr xs =>
        rw [normalizeConfigValue, if_pos rfl, normalizeConfigValue, if_pos rfl, Json.arr.injEq, list_iff hlib]
        exact ⟨fun h _ => h, fun h => h (.inl rfl)⟩
      | str s =>
        rw [normalizeConfigValue, if_pos rfl, normalizeConfigValue, if_pos rfl, Json.arr.injEq, ValueSettles]
        by_cases hempty : strip s = ""
        · have hnil : safeParseJsonList lib s = [] := by rw [safeParseJsonList, listOr, if_pos hempty]
          rw [hnil]
          exact iff_of_true rfl fun _ hne => absurd hempty hne
        · rw [text_iff hlib hempty]
          exact ⟨fun h _ _ => h, fun h => h rfl hempty⟩
      | _ => exact iff_of_true rfl trivial
    · have hne : ¬ some dataType = some "list" := fun h => hlist (Option.some.inj h)
      cases value with
      | arr xs =>
        rw [normalizeConfigValue, if_neg hlist, normalizeConfigValue, if_neg hlist]
        refine iff_of_true rfl fun h => ?_
        obtain h | h := h
        · exact absurd h hne
        · cases h
      | str s =>
        refine iff_of_true ?_ fun h => absurd h hne
        rw [normalizeConfigValue, if_neg hlist]
        split_ifs with hdict hbool hint hfloat
        · rfl
        · rfl
        · rfl
        · rfl
        · rw [normalizeConfigValue, if_neg hlist, if_neg hdict, if_neg hbool, if_neg hint, if_neg hfloat]
      | _ => exact iff_of_true rfl trivial

/-- Of JSON texts only this one matters below. -/
def oneNumber : Libraries where
  loads text := if text = "[1]" then some (.arr [.int 1]) else none
  dumps _ := "[1]"
  float _ := none

theorem oneNumber_lawful : oneNumber.Lawful where
  str text s h := by
    simp only [oneNumber] at h
    split_ifs at h
    simp at h
  single text s h := by
    simp only [oneNumber] at h
    split_ifs at h
    simp at h
  bracketed text s _ h := by
    simp only [oneNumber] at h
    split_ifs at h
    simp at h

theorem list_text_settled : normalizeOf oneNumber (normalizeOf oneNumber (.str "[1]") (some "list")) (some "list") =
    normalizeOf oneNumber (.str "[1]") (some "list") := by
  refine (normalizeOf_idempotent_iff oneNumber_lawful (.str "[1]") (some "list")).mpr fun _ _ text h => ?_
  have hnone : splitText oneNumber listRounds "[1]" (strip "[1]") = none := rfl
  rw [hnone] at h
  cases h

/-- A list that was written by `str` gives a list with the text of a list, and then that list. -/
theorem quoted_list_unsettled : normalizeOf oneNumber (.str "['[1]']") (some "list") = .arr [.str "[1]"] ∧
    normalizeOf oneNumber (normalizeOf oneNumber (.str "['[1]']") (some "list")) (some "list") = .arr [.int 1] :=
  ⟨rfl, rfl⟩

end XgenSdk.Serializer
