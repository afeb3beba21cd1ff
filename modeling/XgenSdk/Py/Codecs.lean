import Mathlib.Data.List.Basic
import Mathlib.Algebra.Order.Ring.Int

/-! Texts and bytes: UTF-8, percent escapes and the URL-safe base64, as Python's
library reads and writes them. -/
namespace XgenSdk.Py

/-! What is said of all characters of a text is decided along the text. -/

instance (priority := 2000) decidableAlong (s : List Char) (p : Char → Prop) [DecidablePred p] : Decidable (∀ c ∈ s, p c) :=
  List.decidableBAll p s

instance (priority := 2000) decidableWithin (o : Option Char) (p : Char → Prop) [DecidablePred p] : Decidable (∀ c ∈ o, p c) :=
  Option.decidableForallMem o

/-- A character being read: its bits so far, how many bytes are left after the next one, and which the
next one may be. -/
structure Partial where
  bits : Nat
  left : Nat
  low : UInt8
  high : UInt8
  deriving DecidableEq, Repr

/-- What a first byte begins. -/
inductive Utf8Start where
  | char (c : Char)
  | lead (p : Partial)
  | wrong
  deriving DecidableEq, Repr

def utf8Start (a : UInt8) : Utf8Start :=
  let n := a.toNat
  if n < 0x80 then .char (Char.ofNat n)
  else if n < 0xC2 then .wrong
  else if n < 0xE0 then .lead ⟨n % 32, 0, 0x80, 0xBF⟩
  else if n < 0xF0 then .lead ⟨n % 16, 1, if n = 0xE0 then 0xA0 else 0x80, if n = 0xED then 0x9F else 0xBF⟩
  else if n < 0xF5 then .lead ⟨n % 8, 2, if n = 0xF0 then 0x90 else 0x80, if n = 0xF4 then 0x8F else 0xBF⟩
  else .wrong

def Partial.accepts (p : Partial) (b : UInt8) : Bool := p.low ≤ b && b ≤ p.high

/-- The characters of a UTF-8 text; `none` for every longest part that no character can go on from. -/
def decodeUtf8From (pending : Option Partial) : List UInt8 → List (Option Char)
  | [] => if pending.isSome then [none] else []
  | b :: s =>
    match pending.filter fun p => p.accepts b with
    | some p =>
      let bits := p.bits * 64 + b.toNat % 64
      match p.left with
      | 0 => some (Char.ofNat bits) :: decodeUtf8From none s
      | left + 1 => decodeUtf8From (some ⟨bits, left, 0x80, 0xBF⟩) s
    | none =>
      (if pending.isSome then [none] else []) ++
        match utf8Start b with
        | .char c => some c :: decodeUtf8From none s
        | .lead p => decodeUtf8From (some p) s
        | .wrong => none :: decodeUtf8From none s

def decodeUtf8 (raw : List UInt8) : List (Option Char) := decodeUtf8From none raw

/-- `raw.decode("utf-8")`; `none` where it raises. -/
def utf8Text (raw : List UInt8) : Option (List Char) := (decodeUtf8 raw).mapM id

/-- `raw.decode("utf-8", "replace")`. -/
def utf8Replaced (raw : List UInt8) : List Char := (decodeUtf8 raw).map fun c => c.getD (Char.ofNat 0xFFFD)

/-- `text.encode("utf-8")`. -/
def utf8Bytes (text : List Char) : List UInt8 := text.flatMap String.utf8EncodeChar

/-- `raw.decode("latin-1")`. -/
def latin1Text (raw : List UInt8) : List Char := raw.map fun b => Char.ofNat b.toNat

/-- `raw.decode("ascii")`; `none` where it raises. -/
def asciiText (raw : List UInt8) : Option (List Char) :=
  if raw.all fun b => b < 0x80 then some (latin1Text raw) else none

/-- `text.lower()` on ASCII letters. -/
def lower (text : List Char) : List Char := text.map Char.toLower

def hexDigitValue (c : Char) : Option Nat :=
  let i := "0123456789abcdef".toList.idxOf c.toLower
  if i < 16 then some i else none

/-- The rest of `unquote`; `run` holds the bytes of the ASCII characters read since the last other one. -/
def unquoteFrom (run : List UInt8) : List Char → List Char
  | [] => utf8Replaced run
  | '%' :: a :: b :: s =>
    match hexDigitValue a, hexDigitValue b with
    | some high, some low => unquoteFrom (run ++ [UInt8.ofNat (16 * high + low)]) s
    | _, _ => unquoteFrom (run ++ [0x25]) (a :: b :: s)
  | c :: s =>
    if c.toNat < 0x80 then unquoteFrom (run ++ [UInt8.ofNat c.toNat]) s
    else utf8Replaced run ++ c :: unquoteFrom [] s

/-- `urllib.parse.unquote`. -/
def unquote (text : List Char) : List Char := if text.contains '%' then unquoteFrom [] text else text

/-- The digits are A to Z, a to z, 0 to 9, `-` and `_`. -/
def base64UrlDigit (n : Nat) : Char :=
  let n := n % 64
  if n < 26 then Char.ofNat (65 + n) else if n < 52 then Char.ofNat (71 + n)
  else if n < 62 then Char.ofNat (n - 4) else if n = 62 then '-' else '_'

def base64UrlValue (c : Char) : Option Nat :=
  let n := c.toNat
  if 65 ≤ n ∧ n ≤ 90 then some (n - 65) else if 97 ≤ n ∧ n ≤ 122 then some (n - 71)
  else if 48 ≤ n ∧ n ≤ 57 then some (n + 4) else if n = 45 then some 62 else if n = 95 then some 63 else none

/-- `base64.urlsafe_b64decode` of digits only, padded as needed; `none` where it raises. -/
def b64urlDecode : List Char → Option (List UInt8)
  | [] => some []
  | [_] => none
  | [a, b] => do
    let n := (← base64UrlValue a) * 64 + (← base64UrlValue b)
    return [UInt8.ofNat (n / 16)]
  | [a, b, c] => do
    let n := ((← base64UrlValue a) * 64 + (← base64UrlValue b)) * 64 + (← base64UrlValue c)
    return [UInt8.ofNat (n / 1024), UInt8.ofNat (n / 4)]
  | a :: b :: c :: d :: rest => do
    let n := (((← base64UrlValue a) * 64 + (← base64UrlValue b)) * 64 + (← base64UrlValue c)) * 64 +
      (← base64UrlValue d)
    let tail ← b64urlDecode rest
    return UInt8.ofNat (n / 65536) :: UInt8.ofNat (n / 256) :: UInt8.ofNat n :: tail

/-- `base64.urlsafe_b64encode(value).rstrip(b"=")`. -/
def b64urlEncode : List UInt8 → List Char
  | [] => []
  | [a] =>
    let n := a.toNat * 16
    [base64UrlDigit (n / 64), base64UrlDigit n]
  | [a, b] =>
    let n := (a.toNat * 256 + b.toNat) * 4
    [base64UrlDigit (n / 4096), base64UrlDigit (n / 64), base64UrlDigit n]
  | a :: b :: c :: rest =>
    let n := (a.toNat * 256 + b.toNat) * 256 + c.toNat
    base64UrlDigit (n / 262144) :: base64UrlDigit (n / 4096) :: base64UrlDigit (n / 64) :: base64UrlDigit n ::
      b64urlEncode rest

/-! ASCII texts. -/

/-- The bytes of a text of ASCII characters. -/
def asciiBytes (text : List Char) : List UInt8 := text.map fun c => UInt8.ofNat c.toNat

theorem ofNat_asciiByte {c : Char} (h : c.toNat < 0x80) : Char.ofNat (UInt8.ofNat c.toNat).toNat = c := by
  rw [UInt8.toNat_ofNat', Nat.mod_eq_of_lt (by omega), Char.ofNat_toNat]

theorem asciiByte_lt {c : Char} (h : c.toNat < 0x80) : UInt8.ofNat c.toNat < 0x80 := by
  rw [UInt8.lt_iff_toNat_lt, UInt8.toNat_ofNat', Nat.mod_eq_of_lt (by omega)]
  exact h

theorem latin1Text_asciiBytes {text : List Char} (h : ∀ c ∈ text, c.toNat < 0x80) :
    latin1Text (asciiBytes text) = text := by
  rw [latin1Text, asciiBytes, List.map_map]
  calc text.map ((fun b => Char.ofNat b.toNat) ∘ fun c => UInt8.ofNat c.toNat)
      = text.map id := List.map_congr_left fun c hc => ofNat_asciiByte (h c hc)
    _ = text := List.map_id text

theorem asciiText_asciiBytes {text : List Char} (h : ∀ c ∈ text, c.toNat < 0x80) :
    asciiText (asciiBytes text) = some text := by
  have hall : (asciiBytes text).all (fun b => b < 0x80) = true := by
    rw [asciiBytes, List.all_map, List.all_eq_true]
    exact fun c hc => decide_eq_true (asciiByte_lt (h c hc))
  rw [asciiText, if_pos hall, latin1Text_asciiBytes h]

theorem decodeUtf8_asciiBytes {text : List Char} (h : ∀ c ∈ text, c.toNat < 0x80) :
    decodeUtf8 (asciiBytes text) = text.map some := by
  induction text with
  | nil => rfl
  | cons c text ih =>
    have hc := h c List.mem_cons_self
    have hstart : utf8Start (UInt8.ofNat c.toNat) = .char c := by
      have hlt : (UInt8.ofNat c.toNat).toNat < 0x80 := UInt8.lt_iff_toNat_lt.mp (asciiByte_lt hc)
      rw [utf8Start]
      rw [if_pos hlt, ofNat_asciiByte hc]
    rw [decodeUtf8, asciiBytes, List.map_cons, decodeUtf8From]
    simp only [Option.filter_none, Option.isSome_none, Bool.false_eq_true, if_false, List.nil_append, hstart]
    rw [List.map_cons, ← ih fun d hd => h d (List.mem_cons_of_mem c hd)]
    rfl

theorem mapM_some {α : Type} (xs : List α) : (xs.map some).mapM id = some xs := by
  induction xs with
  | nil => rfl
  | cons x xs ih =>
    rw [List.map_cons, List.mapM_cons, ih]
    rfl

theorem utf8Text_asciiBytes {text : List Char} (h : ∀ c ∈ text, c.toNat < 0x80) :
    utf8Text (asciiBytes text) = some text := by
  rw [utf8Text, decodeUtf8_asciiBytes h, mapM_some]

/-! The URL-safe base64 reads back what it writes. -/

theorem base64UrlValue_digit (n : Nat) : base64UrlValue (base64UrlDigit n) = some (n % 64) := by
  have hall : ∀ i < 64, base64UrlValue (base64UrlDigit i) = some i := by decide
  have hdigit : base64UrlDigit n = base64UrlDigit (n % 64) := by
    rw [base64UrlDigit, base64UrlDigit, Nat.mod_mod]
  rw [hdigit, hall _ (Nat.mod_lt n (by decide))]

theorem ofNat_eq {a : UInt8} {n : Nat} (h : n % 256 = a.toNat) : UInt8.ofNat n = a := by
  rw [← UInt8.toNat_inj, UInt8.toNat_ofNat', h]

theorem b64urlDecode_encode (raw : List UInt8) : b64urlDecode (b64urlEncode raw) = some raw := by
  induction raw using b64urlEncode.induct with
  | case1 => rfl
  | case2 a =>
    have ha := a.toNat_lt
    rw [b64urlEncode, b64urlDecode]
    simp only [base64UrlValue_digit, Option.bind_eq_bind, Option.bind_some]
    rw [ofNat_eq (by omega : _ = a.toNat)]
    rfl
  | case3 a b =>
    have ha := a.toNat_lt
    have hb := b.toNat_lt
    rw [b64urlEncode, b64urlDecode]
    simp only [base64UrlValue_digit, Option.bind_eq_bind, Option.bind_some]
    rw [ofNat_eq (by omega : _ = a.toNat), ofNat_eq (by omega : _ = b.toNat)]
    rfl
  | case4 a b c rest ih =>
    have ha := a.toNat_lt
    have hb := b.toNat_lt
    have hc := c.toNat_lt
    rw [b64urlEncode, b64urlDecode]
    simp only [base64UrlValue_digit, Option.bind_eq_bind, Option.bind_some, ih]
    rw [ofNat_eq (by omega : _ = a.toNat), ofNat_eq (by omega : _ = b.toNat), ofNat_eq (by omega : _ = c.toNat)]
    rfl

/-- All it writes is digits. -/
theorem mem_b64urlEncode {raw : List UInt8} {c : Char} (h : c ∈ b64urlEncode raw) : ∃ n < 64, c = base64UrlDigit n := by
  have hdigit : ∀ n, ∃ m < 64, base64UrlDigit n = base64UrlDigit m := fun n =>
    ⟨n % 64, Nat.mod_lt n (by decide), by rw [base64UrlDigit, base64UrlDigit, Nat.mod_mod]⟩
  induction raw using b64urlEncode.induct with
  | case1 => cases h
  | case2 a =>
    simp only [b64urlEncode, List.mem_cons, List.not_mem_nil, or_false] at h
    obtain rfl | rfl := h <;> exact hdigit _
  | case3 a b =>
    simp only [b64urlEncode, List.mem_cons, List.not_mem_nil, or_false] at h
    obtain rfl | rfl | rfl := h <;> exact hdigit _
  | case4 a b c rest ih =>
    simp only [b64urlEncode, List.mem_cons] at h
    obtain rfl | rfl | rfl | rfl | h := h
    · exact hdigit _
    · exact hdigit _
    · exact hdigit _
    · exact hdigit _
    · exact ih h

theorem length_b64urlEncode (raw : List UInt8) : (b64urlEncode raw).length = (4 * raw.length + 2) / 3 := by
  induction raw using b64urlEncode.induct with
  | case1 => rfl
  | case2 a => simp [b64urlEncode]
  | case3 a b => simp [b64urlEncode]
  | case4 a b c rest ih =>
    simp only [b64urlEncode, List.length_cons]
    omega

/-- `text.encode("latin-1")` of characters it has. -/
def latin1Bytes (text : List Char) : List UInt8 := text.map fun c => UInt8.ofNat c.toNat

theorem latin1Text_latin1Bytes {text : List Char} (h : ∀ c ∈ text, c.toNat < 0x100) :
    latin1Text (latin1Bytes text) = text := by
  rw [latin1Text, latin1Bytes, List.map_map]
  refine (List.map_congr_left fun c hc => ?_).trans (List.map_id text)
  have hbyte : (UInt8.ofNat c.toNat).toNat = c.toNat := UInt8.toNat_ofNat_of_lt' (h c hc)
  rw [Function.comp_apply, hbyte, Char.ofNat_toNat, id]

end XgenSdk.Py

/-! UTF-8 read back: every text is what its bytes decode to. -/
namespace XgenSdk.Py
variable {b low high : UInt8} {s : List UInt8} {bits left : Nat}

theorem accepts_next (hlow : low ≤ b) (hhigh : b ≤ high) (left : Nat) :
    (some (Partial.mk bits left low high)).filter (fun p => p.accepts b) = some ⟨bits, left, low, high⟩ := by
  rw [Option.filter_some, if_pos]
  rw [Partial.accepts, Bool.and_eq_true, decide_eq_true_eq, decide_eq_true_eq]
  exact ⟨hlow, hhigh⟩

theorem decodeUtf8From_lead {p : Partial} (h : utf8Start b = .lead p) : decodeUtf8From none (b :: s) = decodeUtf8From (some p) s := by
  simp [decodeUtf8From, h]

theorem decodeUtf8From_more (hlow : low ≤ b) (hhigh : b ≤ high) :
    decodeUtf8From (some ⟨bits, left + 1, low, high⟩) (b :: s) =
      decodeUtf8From (some ⟨bits * 64 + b.toNat % 64, left, 0x80, 0xBF⟩) s := by
  rw [decodeUtf8From, accepts_next hlow hhigh]

theorem decodeUtf8From_last (hlow : low ≤ b) (hhigh : b ≤ high) :
    decodeUtf8From (some ⟨bits, 0, low, high⟩) (b :: s) =
      some (Char.ofNat (bits * 64 + b.toNat % 64)) :: decodeUtf8From none s := by
  rw [decodeUtf8From, accepts_next hlow hhigh]

/-- A byte that goes on. -/
theorem toNat_next (n : Nat) : (UInt8.ofNat (n % 64 + 0x80)).toNat = n % 64 + 0x80 := by
  rw [UInt8.toNat_ofNat']
  omega

theorem next_low (n : Nat) : 0x80 ≤ UInt8.ofNat (n % 64 + 0x80) := by
  rw [UInt8.le_iff_toNat_le, toNat_next]
  exact Nat.le_add_left _ _

theorem next_high (n : Nat) : UInt8.ofNat (n % 64 + 0x80) ≤ 0xBF := by
  rw [UInt8.le_iff_toNat_le, toNat_next]
  change n % 64 + 0x80 ≤ 0xBF
  omega

theorem next_bits (n : Nat) : (UInt8.ofNat (n % 64 + 0x80)).toNat % 64 = n % 64 := by
  rw [toNat_next]
  omega

theorem toNat_byte {n : Nat} (h : n < 256) : (UInt8.ofNat n).toNat = n := by
  rw [UInt8.toNat_ofNat']
  omega

/-! One character, by the number of its bytes. -/

theorem decodeUtf8From_one {v : Nat} (h : v ≤ 0x7F) : decodeUtf8From none (UInt8.ofNat v :: s) = some (Char.ofNat v) :: decodeUtf8From none s := by
  have hstart : utf8Start (UInt8.ofNat v) = .char (Char.ofNat v) := by
    rw [utf8Start, toNat_byte (by omega), if_pos (by omega)]
  simp [decodeUtf8From, hstart]

theorem decodeUtf8From_two {v : Nat} (hlow : 0x7F < v) (hhigh : v ≤ 0x7FF) :
    decodeUtf8From none (UInt8.ofNat (v / 64 % 32 + 0xC0) :: UInt8.ofNat (v % 64 + 0x80) :: s) =
      some (Char.ofNat v) :: decodeUtf8From none s := by
  have hstart : utf8Start (UInt8.ofNat (v / 64 % 32 + 0xC0)) = .lead ⟨v / 64, 0, 0x80, 0xBF⟩ := by
    rw [utf8Start, toNat_byte (by omega), if_neg (by omega), if_neg (by omega), if_pos (by omega)]
    congr 2
    omega
  have hbits : v / 64 * 64 + v % 64 = v := by omega
  rw [decodeUtf8From_lead hstart, decodeUtf8From_last (next_low v) (next_high v), next_bits, hbits]

theorem decodeUtf8From_three {v : Nat} (hlow : 0x7FF < v) (hhigh : v ≤ 0xFFFF) (hvalid : v < 0xD800 ∨ 0xDFFF < v) :
    decodeUtf8From none (UInt8.ofNat (v / 4096 % 16 + 0xE0) :: UInt8.ofNat (v / 64 % 64 + 0x80) :: UInt8.ofNat (v % 64 + 0x80) :: s) =
      some (Char.ofNat v) :: decodeUtf8From none s := by
  have hstart : ∃ low high, utf8Start (UInt8.ofNat (v / 4096 % 16 + 0xE0)) = .lead ⟨v / 4096, 1, low, high⟩ ∧
      low ≤ UInt8.ofNat (v / 64 % 64 + 0x80) ∧ UInt8.ofNat (v / 64 % 64 + 0x80) ≤ high := by
    refine ⟨if v / 4096 % 16 + 0xE0 = 0xE0 then 0xA0 else 0x80, if v / 4096 % 16 + 0xE0 = 0xED then 0x9F else 0xBF, ?_, ?_, ?_⟩
    · rw [utf8Start, toNat_byte (by omega), if_neg (by omega), if_neg (by omega), if_neg (by omega), if_pos (by omega)]
      congr 2
      omega
    · split
      · rw [UInt8.le_iff_toNat_le, toNat_next]
        change 0xA0 ≤ _
        omega
      · exact next_low _
    · split
      · rw [UInt8.le_iff_toNat_le, toNat_next]
        change _ ≤ 0x9F
        omega
      · exact next_high _
  obtain ⟨low, high, hstart, hfirst, hlast⟩ := hstart
  have hbits : (v / 4096 * 64 + v / 64 % 64) * 64 + v % 64 = v := by omega
  rw [decodeUtf8From_lead hstart, decodeUtf8From_more hfirst hlast, decodeUtf8From_last (next_low v) (next_high v),
    next_bits, next_bits, hbits]

theorem decodeUtf8From_four {v : Nat} (hlow : 0xFFFF < v) (hhigh : v < 0x110000) :
    decodeUtf8From none (UInt8.ofNat (v / 262144 % 8 + 0xF0) :: UInt8.ofNat (v / 4096 % 64 + 0x80) ::
      UInt8.ofNat (v / 64 % 64 + 0x80) :: UInt8.ofNat (v % 64 + 0x80) :: s) = some (Char.ofNat v) :: decodeUtf8From none s := by
  have hstart : ∃ low high, utf8Start (UInt8.ofNat (v / 262144 % 8 + 0xF0)) = .lead ⟨v / 262144, 2, low, high⟩ ∧
      low ≤ UInt8.ofNat (v / 4096 % 64 + 0x80) ∧ UInt8.ofNat (v / 4096 % 64 + 0x80) ≤ high := by
    refine ⟨if v / 262144 % 8 + 0xF0 = 0xF0 then 0x90 else 0x80, if v / 262144 % 8 + 0xF0 = 0xF4 then 0x8F else 0xBF, ?_, ?_, ?_⟩
    · rw [utf8Start, toNat_byte (by omega), if_neg (by omega), if_neg (by omega), if_neg (by omega), if_neg (by omega),
        if_pos (by omega)]
      congr 2
      omega
    · split
      · rw [UInt8.le_iff_toNat_le, toNat_next]
        change 0x90 ≤ _
        omega
      · exact next_low _
    · split
      · rw [UInt8.le_iff_toNat_le, toNat_next]
        change _ ≤ 0x8F
        omega
      · exact next_high _
  obtain ⟨low, high, hstart, hfirst, hlast⟩ := hstart
  have hbits : ((v / 262144 * 64 + v / 4096 % 64) * 64 + v / 64 % 64) * 64 + v % 64 = v := by omega
  rw [decodeUtf8From_lead hstart, decodeUtf8From_more hfirst hlast, decodeUtf8From_more (next_low _) (next_high _),
    decodeUtf8From_last (next_low v) (next_high v), next_bits, next_bits, next_bits, hbits]

theorem decodeUtf8_char (c : Char) (s : List UInt8) : decodeUtf8 (String.utf8EncodeChar c ++ s) = some c :: decodeUtf8 s := by
  have hchar : Char.ofNat c.val.toNat = c := Char.ofNat_toNat c
  have hvalid : c.val.toNat < 0xD800 ∨ 0xDFFF < c.val.toNat ∧ c.val.toNat < 0x110000 := c.valid
  unfold decodeUtf8 String.utf8EncodeChar
  dsimp only
  split
  · rename_i hone
    exact (decodeUtf8From_one hone).trans (by rw [hchar]; rfl)
  split
  · rename_i hone htwo
    exact (decodeUtf8From_two (not_le.mp hone) htwo).trans (by rw [hchar]; rfl)
  split
  · rename_i htwo hthree
    exact (decodeUtf8From_three (not_le.mp htwo) hthree (hvalid.imp_right And.left)).trans (by rw [hchar]; rfl)
  · rename_i hthree
    exact (decodeUtf8From_four (not_le.mp hthree) (by omega)).trans (by rw [hchar]; rfl)

theorem decodeUtf8_utf8Bytes (text : List Char) : decodeUtf8 (utf8Bytes text) = text.map some := by
  induction text with
  | nil => rfl
  | cons c text ih =>
    change decodeUtf8 (String.utf8EncodeChar c ++ utf8Bytes text) = some c :: text.map some
    rw [decodeUtf8_char, ih]

/-- What is encoded is decoded again. -/
theorem utf8Text_utf8Bytes (text : List Char) : utf8Text (utf8Bytes text) = some text := by
  rw [utf8Text, decodeUtf8_utf8Bytes, mapM_some]

theorem utf8Bytes_injective {text text' : List Char} (h : utf8Bytes text = utf8Bytes text') : text = text' := by
  have hread := utf8Text_utf8Bytes text
  rw [h, utf8Text_utf8Bytes] at hread
  exact (Option.some.inj hread).symm

end XgenSdk.Py
