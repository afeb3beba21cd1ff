import XgenSdk.Py.Codecs

/-! UTF-16LE with `errors="surrogatepass"`: a text is a list of code points,
lone surrogates among them, and its encoding a list of 16-bit words. -/
namespace XgenSdk.Py.Utf16

abbrev Bytes := List UInt8
abbrev CodePoint := Fin 0x110000
abbrev Str := List CodePoint
abbrev Word := Fin 0x10000

instance codePoints : NeZero 0x110000 := ⟨by decide⟩

instance codeWords : NeZero 0x10000 := ⟨by decide⟩

def word (lo hi : UInt8) : Word := ⟨lo.toNat + 256 * hi.toNat, by
  have hlo := lo.toNat_lt
  have hhi := hi.toNat_lt
  omega⟩

def wordBytes (w : Word) : Bytes := [UInt8.ofNat (w.val % 256), UInt8.ofNat (w.val / 256)]

theorem word_wordBytes (w : Word) : word (UInt8.ofNat (w.val % 256)) (UInt8.ofNat (w.val / 256)) = w := by
  have hw := w.isLt
  have hlo : (UInt8.ofNat (w.val % 256)).toNat = w.val % 256 := UInt8.toNat_ofNat_of_lt' (by change _ < 256; omega)
  have hhi : (UInt8.ofNat (w.val / 256)).toNat = w.val / 256 := UInt8.toNat_ofNat_of_lt' (by change _ < 256; omega)
  refine Fin.ext ?_
  change (UInt8.ofNat (w.val % 256)).toNat + 256 * (UInt8.ofNat (w.val / 256)).toNat = w.val
  rw [hlo, hhi]
  omega

def bytesOf (ws : List Word) : Bytes := ws.flatMap wordBytes

/-- The words of bytes in pairs; a last odd byte is left out. -/
def wordsOf : Bytes → List Word
  | lo :: hi :: rest => word lo hi :: wordsOf rest
  | _ => []

@[simp] theorem bytesOf_cons (w : Word) (ws : List Word) : bytesOf (w :: ws) = wordBytes w ++ bytesOf ws := rfl

theorem length_bytesOf (ws : List Word) : (bytesOf ws).length = 2 * ws.length := by
  induction ws with
  | nil => rfl
  | cons w ws ih =>
    rw [bytesOf_cons, List.length_append, ih, List.length_cons]
    simp only [wordBytes, List.length_cons, List.length_nil]
    omega

theorem wordsOf_bytesOf (ws : List Word) : wordsOf (bytesOf ws) = ws := by
  induction ws with
  | nil => rfl
  | cons w ws ih => rw [bytesOf_cons, wordBytes, List.cons_append, List.cons_append, List.nil_append, wordsOf,
      word_wordBytes, ih]

theorem length_wordsOf (bytes : Bytes) : (wordsOf bytes).length = bytes.length / 2 := by
  induction bytes using wordsOf.induct with
  | case1 lo hi rest ih =>
    rw [wordsOf, List.length_cons, ih]
    simp only [List.length_cons]
    omega
  | case2 bytes hne =>
    cases bytes with
    | nil => rfl
    | cons lo rest =>
      cases rest with
      | nil => simp [wordsOf]
      | cons hi rest => exact absurd rfl (hne lo hi rest)

/-! Code points. -/

def isHigh (w : Word) : Bool := 0xD800 ≤ w.val && w.val ≤ 0xDBFF
def isLow (w : Word) : Bool := 0xDC00 ≤ w.val && w.val ≤ 0xDFFF

/-- Words of one code point; a lone surrogate is its own word. -/
def encodeOne (c : CodePoint) : List Word :=
  if h : c.val < 0x10000 then [⟨c.val, h⟩]
  else
    have hc := c.isLt
    [⟨0xD800 + (c.val - 0x10000) / 1024, by omega⟩, ⟨0xDC00 + (c.val - 0x10000) % 1024, by omega⟩]

def encode (text : Str) : List Word := text.flatMap encodeOne

/-- `text.encode("utf-16-le", errors="surrogatepass")`. -/
def encoded (text : Str) : Bytes := bytesOf (encode text)

def single (w : Word) : CodePoint := ⟨w.val, by have hw := w.isLt; omega⟩

def paired (high low : Word) : CodePoint :=
  ⟨0x10000 + (high.val - 0xD800) % 1024 * 1024 + (low.val - 0xDC00) % 1024, by omega⟩

/-- `bytes.decode("utf-16-le", errors="surrogatepass")`, on words. -/
def decode : List Word → Str
  | high :: low :: rest =>
    if isHigh high && isLow low then paired high low :: decode rest else single high :: decode (low :: rest)
  | [w] => [single w]
  | [] => []

def replacement : CodePoint := ⟨0xFFFD, by omega⟩

/-- `bytes.decode("utf-16-le", errors="replace")`: one mark for each lone surrogate, one for bytes that end too early. -/
def decodeReplaced : Bytes → Str
  | lo :: hi :: lo' :: hi' :: rest =>
    if isHigh (word lo hi) then
      if isLow (word lo' hi') then paired (word lo hi) (word lo' hi') :: decodeReplaced rest
      else replacement :: decodeReplaced (lo' :: hi' :: rest)
    else (if isLow (word lo hi) then replacement else single (word lo hi)) :: decodeReplaced (lo' :: hi' :: rest)
  | [lo, hi, _] =>
    if isHigh (word lo hi) then [replacement]
    else [if isLow (word lo hi) then replacement else single (word lo hi), replacement]
  | [lo, hi] => [if isHigh (word lo hi) || isLow (word lo hi) then replacement else single (word lo hi)]
  | [_] => [replacement]
  | [] => []

theorem encode_cons (c : CodePoint) (text : Str) : encode (c :: text) = encodeOne c ++ encode text := rfl

theorem encode_append (a b : Str) : encode (a ++ b) = encode a ++ encode b := List.flatMap_append

theorem encodeOne_single (w : Word) : encodeOne (single w) = [w] := by
  have hw : (single w).val < 0x10000 := w.isLt
  rw [encodeOne, dif_pos hw]
  rfl

theorem encodeOne_paired {high low : Word} (h : (isHigh high && isLow low) = true) :
    encodeOne (paired high low) = [high, low] := by
  simp only [isHigh, isLow, Bool.and_eq_true, decide_eq_true_eq] at h
  have hval : (paired high low).val = 0x10000 + (high.val - 0xD800) * 1024 + (low.val - 0xDC00) := by
    change 0x10000 + (high.val - 0xD800) % 1024 * 1024 + (low.val - 0xDC00) % 1024 = _
    omega
  have hbig : ¬ (paired high low).val < 0x10000 := by omega
  have hhigh : 0xD800 + ((paired high low).val - 0x10000) / 1024 = high.val := by omega
  have hlow : 0xDC00 + ((paired high low).val - 0x10000) % 1024 = low.val := by omega
  rw [encodeOne, dif_neg hbig]
  simp only [hhigh, hlow]

/-- Nothing is lost in the code points of words. -/
theorem encode_decode (ws : List Word) : encode (decode ws) = ws := by
  induction ws using decode.induct with
  | case1 high low rest h ih => rw [decode, if_pos h, encode_cons, ih, encodeOne_paired h]; rfl
  | case2 high low rest h ih => rw [decode, if_neg h, encode_cons, ih, encodeOne_single]; rfl
  | case3 w => rw [decode, encode_cons, encodeOne_single]; rfl
  | case4 => rfl

theorem decode_cons {w : Word} (h : isHigh w = false) (ws : List Word) : decode (w :: ws) = single w :: decode ws := by
  cases ws with
  | nil => rfl
  | cons v rest => rw [decode, if_neg (by simp [h])]

/-- No surrogate. -/
def IsScalar (c : CodePoint) : Prop := c.val < 0xD800 ∨ 0xDFFF < c.val

/-- The words of a code point that is no surrogate: one that is none either, or a pair. -/
theorem encodeOne_cases {c : CodePoint} (h : IsScalar c) :
    (∃ w, encodeOne c = [w] ∧ isHigh w = false ∧ isLow w = false ∧ single w = c) ∨
      ∃ high low, encodeOne c = [high, low] ∧ isHigh high = true ∧ isLow low = true ∧ paired high low = c := by
  have hc := c.isLt
  unfold IsScalar at h
  unfold encodeOne
  split
  · rename_i hsmall
    refine .inl ⟨⟨c.val, hsmall⟩, rfl, ?_, ?_, rfl⟩
    · simp only [isHigh, Bool.and_eq_false_iff, decide_eq_false_iff_not]
      omega
    · simp only [isLow, Bool.and_eq_false_iff, decide_eq_false_iff_not]
      omega
  · rename_i hbig
    refine .inr ⟨⟨0xD800 + (c.val - 0x10000) / 1024, by omega⟩, ⟨0xDC00 + (c.val - 0x10000) % 1024, by omega⟩, rfl, ?_, ?_, ?_⟩
    · simp only [isHigh, Bool.and_eq_true, decide_eq_true_eq]
      omega
    · simp only [isLow, Bool.and_eq_true, decide_eq_true_eq]
      omega
    · refine Fin.ext ?_
      change 0x10000 + (0xD800 + (c.val - 0x10000) / 1024 - 0xD800) % 1024 * 1024 +
        (0xDC00 + (c.val - 0x10000) % 1024 - 0xDC00) % 1024 = c.val
      omega

/-- Nothing is lost in the words of a text without lone surrogates. -/
theorem decode_encode {text : Str} (h : ∀ c ∈ text, IsScalar c) : decode (encode text) = text := by
  induction text with
  | nil => rfl
  | cons c text ih =>
    rw [List.forall_mem_cons] at h
    obtain ⟨w, hwords, hhigh, -, hc⟩ | ⟨high, low, hwords, hhigh, hlow, hc⟩ := encodeOne_cases h.1
    · rw [encode_cons, hwords, List.cons_append, List.nil_append, decode_cons hhigh, ih h.2, hc]
    · rw [encode_cons, hwords, List.cons_append, List.cons_append, List.nil_append, decode, if_pos (by rw [hhigh, hlow]; rfl), ih h.2, hc]

theorem decodeReplaced_single {w : Word} (hhigh : isHigh w = false) (hlow : isLow w = false) (ws : List Word) :
    decodeReplaced (bytesOf (w :: ws)) = single w :: decodeReplaced (bytesOf ws) := by
  cases ws with
  | nil =>
    change [if isHigh (word _ _) || isLow (word _ _) then replacement else single (word _ _)] = _
    rw [word_wordBytes, hhigh, hlow]
    rfl
  | cons v ws =>
    rw [bytesOf_cons, bytesOf_cons, wordBytes, wordBytes, List.cons_append, List.cons_append, List.nil_append, List.cons_append,
      List.cons_append, decodeReplaced, word_wordBytes, hhigh, hlow]
    rfl

theorem decodeReplaced_paired {high low : Word} (hhigh : isHigh high = true) (hlow : isLow low = true) (ws : List Word) :
    decodeReplaced (bytesOf (high :: low :: ws)) = paired high low :: decodeReplaced (bytesOf ws) := by
  rw [bytesOf_cons, bytesOf_cons, wordBytes, wordBytes, List.cons_append, List.cons_append, List.nil_append, List.cons_append,
    List.cons_append, decodeReplaced, word_wordBytes, word_wordBytes, if_pos hhigh, if_pos hlow]
  rfl

/-- Nor in their bytes. -/
theorem decodeReplaced_encoded {text : Str} (h : ∀ c ∈ text, IsScalar c) : decodeReplaced (encoded text) = text := by
  induction text with
  | nil => rfl
  | cons c text ih =>
    rw [List.forall_mem_cons] at h
    have hrest : decodeReplaced (bytesOf (encode text)) = text := ih h.2
    rw [encoded, encode_cons]
    obtain ⟨w, hwords, hhigh, hlow, hc⟩ | ⟨high, low, hwords, hhigh, hlow, hc⟩ := encodeOne_cases h.1
    · rw [hwords, List.cons_append, List.nil_append, decodeReplaced_single hhigh hlow, hrest, hc]
    · rw [hwords, List.cons_append, List.cons_append, List.nil_append, decodeReplaced_paired hhigh hlow, hrest, hc]

theorem length_encodeOne (c : CodePoint) : (encodeOne c).length = if c.val ≤ 0xFFFF then 1 else 2 := by
  unfold encodeOne
  by_cases h : c.val < 0x10000
  · rw [dif_pos h, if_pos (by omega)]
    rfl
  · rw [dif_neg h, if_neg (by omega)]
    rfl

/-- No word of a code point that is no control is one. -/
theorem encodeOne_ordinary {c : CodePoint} (h : 32 ≤ c.val) {w : Word} (hw : w ∈ encodeOne c) : 32 ≤ w.val := by
  unfold encodeOne at hw
  split at hw
  · rw [List.mem_singleton.mp hw]
    exact h
  · obtain rfl | hw := List.mem_cons.mp hw
    · change 32 ≤ 0xD800 + (c.val - 0x10000) / 1024
      omega
    · rw [List.mem_singleton.mp hw]
      change 32 ≤ 0xDC00 + (c.val - 0x10000) % 1024
      omega

end XgenSdk.Py.Utf16
