import XgenSdk.Py.Json
import XgenSdk.Py.Codecs
import XgenSdk.Py.Numbers

/-! The texts under which settings are stored in the database, and the values read back from them. -/
namespace XgenSdk.Serializer
open XgenSdk.Py

/-- `json.loads` (`none` where it raises), `json.dumps(value, ensure_ascii=False)` and `float(text)`. -/
structure Libraries where
  loads : String → Option Json
  dumps : Json → String
  float : String → Option PyFloat

variable (lib : Libraries)

/-- `text.strip(chars)`. -/
def stripOf (chars : List Char) (text : String) : String :=
  String.ofList ((text.toList.dropWhile chars.contains).reverse.dropWhile chars.contains).reverse

def isBracketed (first last : Char) (text : String) : Bool := text.toList.head? = some first && text.toList.getLast? = some last

/-- `str(value).lower() in ('true', '1', 'yes', 'on', 'enabled')`. -/
def isTrue (text : String) : Bool :=
  ["true", "1", "yes", "on", "enabled"].contains (String.ofList (lower text.toList))

/-- `safe_serialize`. -/
def safeSerialize : Json → String
  | .null => ""
  | .str s => s
  | .bool b => if b then "true" else "false"
  | .int n => toString n
  | .float x => x.text
  | .arr xs => lib.dumps (.arr xs)
  | .obj fields => lib.dumps (.obj fields)

/-- The only item, where it is a text in square brackets. -/
def wrapped : List Json → Option String
  | [.str s] => if isBracketed '[' ']' (strip s) then some (strip s) else none
  | _ => none

/-- What is left where no JSON list can be read. -/
def commaSplit (value : String) : List Json :=
  let clean := stripOf ['[', ']'] (strip value)
  if clean = "" then []
  else ((clean.toList.splitOn ',').filter fun item => stripChars item ≠ []).map fun item =>
    .str (stripOf ['"', '\''] (String.ofList (stripChars item)))

def listOr (found : Option (List Json)) (value : String) : List Json :=
  if strip value = "" then [] else found.getD (commaSplit value)

/-- The loop of `_safe_parse_json_list`, with the rounds that are left. -/
def parseList : Nat → String → Option (List Json)
  | 0, _ => none
  | rounds + 1, current =>
    match lib.loads current with
    | some (.arr xs) =>
      match wrapped xs with
      | some inner =>
        let recovered := listOr (parseList rounds (strip inner)) inner
        some (if recovered.isEmpty then xs else recovered)
      | none => some xs
    | some (.str s) => if s = current then none else parseList rounds s
    | _ => none

def listRounds : Nat := 1000

/-- `_safe_parse_json_list` of a string. -/
def safeParseJsonList (value : String) : List Json := listOr (parseList lib listRounds (strip value)) value

/-- `_safe_parse_json_list` of a list. -/
def unwrapList (xs : List Json) : List Json :=
  match wrapped xs with
  | some inner =>
    let recovered := safeParseJsonList lib inner
    if recovered.isEmpty then xs else recovered
  | none => xs

/-- The loop of `_safe_parse_json_dict`. -/
def parseDict : Nat → String → Option (List (String × Json))
  | 0, _ => none
  | rounds + 1, current =>
    match lib.loads current with
    | some (.obj fields) => some fields
    | some (.str s) => if s = current then none else parseDict rounds s
    | _ => none

/-- `_safe_parse_json_dict`. -/
def safeParseJsonDict (value : String) : List (String × Json) :=
  if strip value = "" then [] else (parseDict lib 10 (strip value)).getD []

/-- `float(text)`, or zero. -/
def floatOrZero (text : String) : PyFloat := (lib.float text).getD ⟨"0.0", true, true, some 0⟩

/-- `safe_deserialize`. -/
def safeDeserialize (value : Option String) (dataType : String) : Json :=
  match value with
  | none => .null
  | some text =>
    if text = "" then .null
    else if dataType = "bool" then .bool (isTrue text)
    else if dataType = "int" then .int ((intOfString (stripOf ['\''] (stripOf ['"'] (strip text)))).getD 0)
    else if dataType = "float" then .float (floatOrZero lib (stripOf ['\''] (stripOf ['"'] (strip text))))
    else if dataType = "list" then .arr (safeParseJsonList lib text)
    else if dataType = "dict" then .obj (safeParseJsonDict lib text)
    else if isBracketed '"' '"' text then
      match lib.loads text with
      | some (.str s) => .str s
      | _ => .str text
    else .str text

/-- `normalize_config_value`. -/
def normalizeConfigValue (value : Json) (dataType : String) : Json :=
  match value with
  | .arr xs => if dataType = "list" then .arr (unwrapList lib xs) else .arr xs
  | .str s =>
    if dataType = "list" then .arr (safeParseJsonList lib s)
    else if dataType = "dict" then .obj (safeParseJsonDict lib s)
    else if dataType = "bool" then .bool (isTrue s)
    else if dataType = "int" then .int ((intOfString (stripOf ['"', '\''] (strip s))).getD 0)
    else if dataType = "float" then .float (floatOrZero lib (stripOf ['"', '\''] (strip s)))
    else .str s
  | value => value

/-- `_infer_data_type`. -/
def inferDataType : Json → String
  | .bool _ => "bool"
  | .int _ => "int"
  | .float _ => "float"
  | .arr _ => "list"
  | .obj _ => "dict"
  | _ => "string"

/-- Only the empty text, or none, is read as no value. -/
theorem safeDeserialize_eq_null (value : Option String) (dataType : String) :
    safeDeserialize lib value dataType = .null ↔ value = none ∨ value = some "" := by
  cases value with
  | none => simp [safeDeserialize]
  | some text =>
    unfold safeDeserialize
    by_cases hempty : text = ""
    · simp [hempty]
    · dsimp only
      rw [if_neg hempty]
      split_ifs
      all_goals try split
      all_goals simp [hempty]

/-! Which settings come back from the database as they were saved. -/

variable {lib : Libraries}

/-! Lengths: what is read from a text is not longer. -/

theorem length_dropEnds (p : Char → Bool) (cs : List Char) : ((cs.dropWhile p).reverse.dropWhile p).reverse.length ≤ cs.length := by
  rw [List.length_reverse]
  calc
    _ ≤ (cs.dropWhile p).reverse.length := (List.dropWhile_sublist _).length_le
    _ = (cs.dropWhile p).length := List.length_reverse
    _ ≤ cs.length := (List.dropWhile_sublist _).length_le

theorem length_ofList (cs : List Char) : (String.ofList cs).length = cs.length := String.length_ofList

theorem length_strip (s : String) : (strip s).length ≤ s.length := by
  rw [strip, length_ofList]
  exact length_dropEnds isSpace s.toList

theorem length_stripOf (chars : List Char) (s : String) : (stripOf chars s).length ≤ s.length := by
  rw [stripOf, length_ofList]
  exact length_dropEnds _ s.toList

/-- A character that is dropped at the front is missing. -/
theorem length_stripOf_lt {chars : List Char} {s : String} {c : Char} (hhead : s.toList.head? = some c) (hc : chars.contains c = true) :
    (stripOf chars s).length < s.length := by
  obtain ⟨rest, hs⟩ := List.head?_eq_some_iff.mp hhead
  have hlength : s.length = rest.length + 1 := by rw [← String.length_toList, hs, List.length_cons]
  rw [stripOf, length_ofList, hs, List.dropWhile_cons, if_pos hc, hlength]
  calc
    _ ≤ (rest.dropWhile chars.contains).reverse.length := by
      rw [List.length_reverse]
      exact (List.dropWhile_sublist _).length_le
    _ = (rest.dropWhile chars.contains).length := List.length_reverse
    _ ≤ rest.length := (List.dropWhile_sublist _).length_le
    _ < rest.length + 1 := Nat.lt_succ_self _

/-- A text with brackets at its ends has no space there. -/
theorem strip_of_bracketed {s : String} {a b : Char} (ha : isSpace a = false) (hb : isSpace b = false) (h : isBracketed a b s = true) :
    strip s = s := by
  simp only [isBracketed, Bool.and_eq_true, decide_eq_true_eq] at h
  have hfront : s.toList.dropWhile isSpace = s.toList := by
    obtain ⟨rest, hs⟩ := List.head?_eq_some_iff.mp h.1
    rw [hs, List.dropWhile_cons, if_neg (by simp [ha])]
  have hback : s.toList.reverse.dropWhile isSpace = s.toList.reverse := by
    obtain ⟨rest, hs⟩ := List.head?_eq_some_iff.mp (List.head?_reverse.trans h.2)
    rw [hs, List.dropWhile_cons, if_neg (by simp [hb])]
  rw [strip, stripChars, hfront, hback, List.reverse_reverse, String.ofList_toList]

theorem wrapped_eq {xs : List Json} {inner : String} (h : wrapped xs = some inner) :
    ∃ s, xs = [.str s] ∧ inner = strip s ∧ isBracketed '[' ']' inner = true := by
  unfold wrapped at h
  split at h
  · rename_i s
    split_ifs at h with hbracketed
    obtain rfl := Option.some.inj h
    exact ⟨s, rfl, rfl, hbracketed⟩
  · cases h

theorem length_of_mem_splitOn {cs item : List Char} {c : Char} (h : item ∈ cs.splitOn c) : item.length ≤ cs.length := by
  induction cs generalizing item with
  | nil => simp_all
  | cons d cs ih =>
    rw [List.splitOn_cons_eq_if_modifyHead] at h
    split at h
    · obtain rfl | h := List.mem_cons.mp h
      · exact Nat.zero_le _
      · exact (ih h).trans (Nat.le_succ _)
    · cases hparts : cs.splitOn c with
      | nil => exact absurd hparts (List.splitOn_ne_nil c cs)
      | cons part parts =>
        rw [hparts] at h ih
        obtain rfl | h := List.mem_cons.mp h
        · exact Nat.succ_le_succ (ih List.mem_cons_self)
        · exact (ih (List.mem_cons_of_mem _ h)).trans (Nat.le_succ _)

theorem commaSplit_length {value r : String} (hbracketed : isBracketed '[' ']' value = true) (h : .str r ∈ commaSplit value) :
    r.length < value.length := by
  unfold commaSplit at h
  rw [strip_of_bracketed (by decide) (by decide) hbracketed] at h
  dsimp only at h
  split at h
  · exact absurd h List.not_mem_nil
  · obtain ⟨item, hitem, heq⟩ := List.mem_map.mp h
    obtain rfl := Json.str.inj heq
    have hhead : value.toList.head? = some '[' := by
      simp only [isBracketed, Bool.and_eq_true, decide_eq_true_eq] at hbracketed
      exact hbracketed.1
    calc
      _ ≤ (String.ofList (stripChars item)).length := length_stripOf _ _
      _ ≤ item.length := by
        rw [length_ofList]
        exact length_dropEnds isSpace item
      _ ≤ (stripOf ['[', ']'] value).toList.length := length_of_mem_splitOn (List.mem_filter.mp hitem).1
      _ = (stripOf ['[', ']'] value).length := String.length_toList
      _ < value.length := length_stripOf_lt hhead (by decide)

/-! What the repair of a list reads. -/

/-- A text that `json.loads` reads is longer than the string that it denotes, or the only string of its list. -/
structure Libraries.Shrinks (lib : Libraries) : Prop where
  str : ∀ text s, lib.loads text = some (.str s) → s.length < text.length
  single : ∀ text s, lib.loads text = some (.arr [.str s]) → s.length < text.length

theorem listOr_length {n : Nat} {value r : String} (hbracketed : isBracketed '[' ']' value = true)
    (hparse : ∀ {text r : String}, parseList lib n text = some [.str r] → r.length < text.length)
    (h : listOr (parseList lib n (strip value)) value = [.str r]) : r.length < value.length := by
  rw [strip_of_bracketed (by decide) (by decide) hbracketed] at h
  unfold listOr at h
  split at h
  · cases h
  · cases hfound : parseList lib n value with
    | some found =>
      rw [hfound, Option.getD_some] at h
      exact hparse (h ▸ hfound)
    | none =>
      rw [hfound, Option.getD_none] at h
      exact commaSplit_length hbracketed (h ▸ List.mem_cons_self)

theorem parseList_length (hlib : lib.Shrinks) {n : Nat} {text r : String} (h : parseList lib n text = some [.str r]) :
    r.length < text.length := by
  induction n generalizing text r with
  | zero => cases h
  | succ n ih =>
    rw [parseList] at h
    split at h
    · rename_i xs hloads
      split at h
      · rename_i inner hwrapped
        obtain ⟨s, rfl, rfl, hbracketed⟩ := wrapped_eq hwrapped
        dsimp only at h
        split at h
        · obtain rfl : s = r := by simpa using h
          exact hlib.single _ _ hloads
        · calc
            r.length < (strip s).length := listOr_length hbracketed ih (Option.some.inj h)
            _ ≤ s.length := length_strip s
            _ < text.length := hlib.single _ _ hloads
      · obtain rfl := Option.some.inj h
        exact hlib.single _ _ hloads
    · rename_i s hloads
      split at h
      · cases h
      · exact (ih h).trans (hlib.str _ _ hloads)
    · cases h

/-! The round trip. -/

/-- What the repair reads from the only item of a list, with the rounds that the list left. -/
def reread (lib : Libraries) (inner : String) : List Json := listOr (parseList lib 999 (strip inner)) inner

/-- A setting of these types is saved with the type of its value. -/
def IsNative : Json → Prop
  | .bool _ => True
  | .int _ => True
  | .str s => s ≠ ""
  | .arr _ => True
  | .obj _ => True
  | _ => False

/-- `json.loads` inverts `json.dumps` on the value; the text neither is empty nor has spaces at its ends. -/
structure Libraries.Inverts (lib : Libraries) (value : Json) : Prop where
  loads : lib.loads (lib.dumps value) = some value
  trimmed : strip (lib.dumps value) = lib.dumps value
  nonempty : lib.dumps value ≠ ""

/-- The value does not look like one that was escaped once more. -/
def Intact (lib : Libraries) : Json → Prop
  | .str s => isBracketed '"' '"' s = true → ∀ r, lib.loads s ≠ some (.str r)
  | .arr xs => ∀ inner, wrapped xs = some inner → reread lib inner = []
  | _ => True

theorem str_round_trip (hlib : lib.Shrinks) {s : String} (hs : s ≠ "") :
    safeDeserialize lib (some s) "string" = .str s ↔ Intact lib (.str s) := by
  rw [Intact]
  simp only [safeDeserialize, if_neg hs, reduceIte, String.reduceEq]
  split
  · rename_i hbracketed
    split
    · rename_i r hloads
      refine iff_of_false (fun heq => ?_) fun h => h hbracketed r hloads
      have hshorter := hlib.str s r hloads
      rw [Json.str.inj heq] at hshorter
      exact Nat.lt_irrefl _ hshorter
    · rename_i hother
      exact iff_of_true rfl fun _ r hloads => hother r hloads
  · rename_i hplain
    exact iff_of_true rfl fun hbracketed => absurd hbracketed hplain

theorem list_round_trip (hlib : lib.Shrinks) {xs : List Json} (hinv : lib.Inverts (.arr xs)) :
    safeDeserialize lib (some (lib.dumps (.arr xs))) "list" = .arr xs ↔ Intact lib (.arr xs) := by
  have hread : safeDeserialize lib (some (lib.dumps (.arr xs))) "list" = .arr (safeParseJsonList lib (lib.dumps (.arr xs))) := by
    simp [safeDeserialize, hinv.nonempty]
  have hparse : safeParseJsonList lib (lib.dumps (.arr xs)) =
      (wrapped xs).elim xs fun inner => if (reread lib inner).isEmpty then xs else reread lib inner := by
    rw [safeParseJsonList, listOr, hinv.trimmed, if_neg hinv.nonempty, show listRounds = 999 + 1 from rfl, parseList, hinv.loads]
    dsimp only
    cases hwrapped : wrapped xs with
    | none => rfl
    | some inner => rfl
  rw [hread, Json.arr.injEq, hparse, Intact]
  cases hwrapped : wrapped xs with
  | none => exact iff_of_true rfl fun inner hinner => by cases hinner
  | some inner =>
    obtain ⟨s, rfl, rfl, hbracketed⟩ := wrapped_eq hwrapped
    rw [Option.elim_some]
    split
    · rename_i hempty
      refine iff_of_true rfl fun inner hinner => ?_
      rw [← Option.some.inj hinner]
      exact List.isEmpty_iff.mp hempty
    · rename_i hnonempty
      refine iff_of_false (fun heq => ?_) fun h => hnonempty (List.isEmpty_iff.mpr (h _ rfl))
      have hshorter := listOr_length hbracketed (parseList_length hlib) heq
      exact Nat.lt_irrefl _ (hshorter.trans_le (length_strip s))

theorem dict_round_trip {fields : List (String × Json)} (hinv : lib.Inverts (.obj fields)) :
    safeDeserialize lib (some (lib.dumps (.obj fields))) "dict" = .obj fields := by
  have hread : safeDeserialize lib (some (lib.dumps (.obj fields))) "dict" = .obj (safeParseJsonDict lib (lib.dumps (.obj fields))) := by
    simp [safeDeserialize, hinv.nonempty]
  have hparse : safeParseJsonDict lib (lib.dumps (.obj fields)) = fields := by
    rw [safeParseJsonDict, hinv.trimmed, if_neg hinv.nonempty, parseDict, hinv.loads]
    rfl
  rw [hread, hparse]

theorem bool_round_trip (b : Bool) : safeDeserialize lib (some (safeSerialize lib (.bool b))) "bool" = .bool b := by
  have htrue : isTrue "true" = true := by decide
  have hfalse : isTrue "false" = false := by decide
  cases b with
  | false => simp [safeDeserialize, safeSerialize, hfalse]
  | true => simp [safeDeserialize, safeSerialize, htrue]

theorem stripOf_of_not {chars : List Char} {s : String} (h : ∀ c ∈ s.toList, chars.contains c = false) : stripOf chars s = s := by
  have hreverse : ∀ c ∈ s.toList.reverse, chars.contains c = false := fun c hc => h c (List.mem_reverse.mp hc)
  rw [stripOf, dropWhile_of_not h, dropWhile_of_not hreverse, List.reverse_reverse, String.ofList_toList]

theorem int_round_trip (n : Int) : safeDeserialize lib (some (safeSerialize lib (.int n))) "int" = .int n := by
  have hquote : ∀ c ∈ (toString n).toList, (['"'] : List Char).contains c = false ∧ (['\''] : List Char).contains c = false := by
    intro c hc
    obtain rfl | hdigit := mem_toString_int hc
    · decide
    · have hdouble : c ≠ '"' := fun heq => absurd (heq ▸ hdigit) (by decide)
      have hsingle : c ≠ '\'' := fun heq => absurd (heq ▸ hdigit) (by decide)
      simp [hdouble, hsingle]
  have hstrip : strip (toString n) = toString n := by
    rw [strip, stripChars_int, String.ofList_toList]
  have hnonempty : toString n ≠ "" := by
    intro hempty
    have hread := intOfString_toString n
    rw [hempty] at hread
    cases hread
  rw [safeSerialize, safeDeserialize, if_neg hnonempty, if_neg (by decide), if_pos rfl, hstrip, stripOf_of_not fun c hc => (hquote c hc).1,
    stripOf_of_not fun c hc => (hquote c hc).2, intOfString_toString]
  rfl

/-- Of JSON texts only these matter below. -/
def sampleLibraries : Libraries where
  loads text :=
    if text = "[1, 2]" then some (.arr [.int 1, .int 2])
    else if text = "\"hi\"" then some (.str "hi")
    else if text = "\"\\\"hi\\\"\"" then some (.str "\"hi\"")
    else none
  dumps value := match value with
    | .arr _ => "[1, 2]"
    | _ => "\"\\\"hi\\\"\""
  float _ := none

theorem sampleLibraries_shrinks : sampleLibraries.Shrinks where
  str text s h := by
    simp only [sampleLibraries] at h
    split_ifs at h with hlist hplain hquoted
    · simp at h
    · obtain rfl : "hi" = s := Json.str.inj (Option.some.inj h)
      rw [hplain]
      decide
    · obtain rfl : "\"hi\"" = s := Json.str.inj (Option.some.inj h)
      rw [hquoted]
      decide
  single text s h := by
    simp only [sampleLibraries] at h
    split_ifs at h with hlist hplain hquoted
    all_goals simp at h

end XgenSdk.Serializer
