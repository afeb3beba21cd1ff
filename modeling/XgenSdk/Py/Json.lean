import Mathlib.Data.List.Basic
import Mathlib.Algebra.Order.Ring.Int

/-! JSON values with the operations Python gives them: truth, `str()`, `int()`,
`dict.get`, `str.strip`. Strings are sequences of code points on both sides. -/
namespace XgenSdk.Py

/-- A float as the code can see it: its text, whether it is zero, whether it
is at least zero, and what `int()` makes of it (`none` for NaN). -/
structure PyFloat where
  text : String
  isZero : Bool
  nonneg : Bool
  trunc : Option Int
  deriving DecidableEq, Repr

inductive Json where
  | null
  | bool (b : Bool)
  | int (n : Int)
  | float (x : PyFloat)
  | str (s : String)
  | arr (xs : List Json)
  | obj (fields : List (String × Json))

/-- The code points `str.strip()` and `int()` drop at both ends. -/
def isSpace (c : Char) : Bool :=
  let n := c.toNat
  (0x09 ≤ n && n ≤ 0x0D) || (0x1C ≤ n && n ≤ 0x20) || n = 0x85 || n = 0xA0 ||
  n = 0x1680 || (0x2000 ≤ n && n ≤ 0x200A) || n = 0x2028 || n = 0x2029 ||
  n = 0x202F || n = 0x205F || n = 0x3000

def stripChars (cs : List Char) : List Char :=
  ((cs.dropWhile isSpace).reverse.dropWhile isSpace).reverse

def strip (s : String) : String := String.ofList (stripChars s.toList)

/-- `s[:n]`. -/
def clip (n : Nat) (s : String) : String := String.ofList (s.toList.take n)

/-- `s or None`. -/
def orNone (s : String) : Option String := if s = "" then none else some s

/-- Code points of the digit zero of each run of ten decimal digits. -/
def digitZeros : List Nat :=
  [0x30, 0x660, 0x6F0, 0x7C0, 0x966, 0x9E6, 0xA66, 0xAE6, 0xB66, 0xBE6, 0xC66,
   0xCE6, 0xD66, 0xDE6, 0xE50, 0xED0, 0xF20, 0x1040, 0x1090, 0x17E0, 0x1810,
   0x1946, 0x19D0, 0x1A80, 0x1A90, 0x1B50, 0x1BB0, 0x1C40, 0x1C50, 0xA620,
   0xA8D0, 0xA900, 0xA9D0, 0xA9F0, 0xAA50, 0xABF0, 0xFF10, 0x104A0, 0x10D30,
   0x11066, 0x110F0, 0x11136, 0x111D0, 0x112F0, 0x11450, 0x114D0, 0x11650,
   0x116C0, 0x11730, 0x118E0, 0x11950, 0x11C50, 0x11D50, 0x11DA0, 0x11F50,
   0x16A60, 0x16AC0, 0x16B50, 0x1D7CE, 0x1D7D8, 0x1D7E2, 0x1D7EC, 0x1D7F6,
   0x1E140, 0x1E2F0, 0x1E4F0, 0x1E950, 0x1FBF0]

def digitValue (c : Char) : Option Nat :=
  (digitZeros.find? fun z => z ≤ c.toNat && c.toNat < z + 10).map (c.toNat - ·)

/-- Digits with single underscores between them, as `int(str)` takes them. -/
def digitsValue (acc : Nat) : List Char → Option Nat
  | [] => some acc
  | '_' :: c :: cs => (digitValue c).bind fun d => digitsValue (10 * acc + d) cs
  | c :: cs => (digitValue c).bind fun d => digitsValue (10 * acc + d) cs

def natOfChars : List Char → Option Nat
  | [] => none
  | c :: cs => (digitValue c).bind fun d => digitsValue d cs

/-- Digits that are not decimal: superscripts, circled digits and the like. -/
def otherDigits : List (Nat × Nat) :=
  [(0xB2, 0xB3), (0xB9, 0xB9), (0x1369, 0x1371), (0x19DA, 0x19DA), (0x2070, 0x2070),
   (0x2074, 0x2079), (0x2080, 0x2089), (0x2460, 0x2468), (0x2474, 0x247C), (0x2488, 0x2490),
   (0x24EA, 0x24EA), (0x24F5, 0x24FD), (0x24FF, 0x24FF), (0x2776, 0x277E), (0x2780, 0x2788),
   (0x278A, 0x2792), (0x10A40, 0x10A43), (0x10E60, 0x10E68), (0x11052, 0x1105A),
   (0x1F100, 0x1F10A)]

/-- `s.isdigit()`. -/
def isDigits (s : String) : Bool :=
  s ≠ "" && s.toList.all fun c => (digitValue c).isSome ||
    otherDigits.any fun r => r.1 ≤ c.toNat && c.toNat ≤ r.2

/-- `int(s)`; `none` where it raises `ValueError`. -/
def intOfString (s : String) : Option Int :=
  match stripChars s.toList with
  | '-' :: cs => (natOfChars cs).map fun n => -(n : Int)
  | '+' :: cs => (natOfChars cs).map Int.ofNat
  | cs => (natOfChars cs).map Int.ofNat

namespace Json

/-- `bool(v)`. -/
def truthy : Json → Bool
  | .null => false
  | .bool b => b
  | .int n => n ≠ 0
  | .float x => !x.isZero
  | .str s => s ≠ ""
  | .arr xs => !xs.isEmpty
  | .obj fields => !fields.isEmpty

/-- `int(v)`; `none` where it raises `TypeError` or `ValueError`. -/
def toInt : Json → Option Int
  | .bool b => some (if b then 1 else 0)
  | .int n => some n
  | .float x => x.trunc
  | .str s => intOfString s
  | _ => none

/-- `d.get(key)` on the fields of a dict; a key occurs once. -/
def lookup (key : String) (fields : List (String × Json)) : Option Json :=
  (fields.find? fun f => f.1 = key).map Prod.snd

/-- `v.get(key)` where `v` is known to be a dict; a missing key is `None`. -/
def get (key : String) : Json → Json
  | .obj fields => (lookup key fields).getD .null
  | _ => .null

def has (key : String) : Json → Bool
  | .obj fields => (lookup key fields).isSome
  | _ => false

def isObj : Json → Bool
  | .obj _ => true
  | _ => false

/-- `{**v, key: value}`. -/
def set (v : Json) (key : String) (value : Json) : Json :=
  match v with
  | .obj fields =>
    if (lookup key fields).isSome then
      .obj (fields.map fun f => if f.1 = key then (key, value) else f)
    else .obj (fields ++ [(key, value)])
  | v => v

/-- The list a value holds, `[]` where it is not a list. -/
def items : Json → List Json
  | .arr xs => xs
  | _ => []

def hexDigit (n : Nat) : Char := "0123456789abcdef".toList.getD n '0'

/-- One character inside `repr(str)`; printable text stands for itself. -/
def reprChar (quote : Char) (c : Char) : List Char :=
  if c = quote ∨ c = '\\' then ['\\', c]
  else if c = '\n' then ['\\', 'n']
  else if c = '\r' then ['\\', 'r']
  else if c = '\t' then ['\\', 't']
  else if c.toNat < 0x20 ∨ (0x7F ≤ c.toNat ∧ c.toNat ≤ 0xA0) ∨ c.toNat = 0xAD then
    ['\\', 'x', hexDigit (c.toNat / 16), hexDigit (c.toNat % 16)]
  else [c]

/-- `repr(str)`: double quotes only where the text has a single quote and no double one. -/
def reprString (s : String) : String :=
  let cs := s.toList
  let quote := if cs.contains '\'' && !cs.contains '"' then '"' else '\''
  String.ofList ([quote] ++ cs.flatMap (reprChar quote) ++ [quote])

mutual

/-- `repr(v)`. -/
def repr : Json → String
  | .null => "None"
  | .bool b => if b then "True" else "False"
  | .int n => toString n
  | .float x => x.text
  | .str s => reprString s
  | .arr xs => "[" ++ String.intercalate ", " (reprItems xs) ++ "]"
  | .obj fields => "\x7b" ++ String.intercalate ", " (reprFields fields) ++ "\x7d"

def reprItems : List Json → List String
  | [] => []
  | x :: xs => repr x :: reprItems xs

def reprFields : List (String × Json) → List String
  | [] => []
  | (k, v) :: fs => (reprString k ++ ": " ++ repr v) :: reprFields fs

end

/-- `str(v)`. -/
def toStr : Json → String
  | .str s => s
  | v => repr v

/-- `str(v or "")`. -/
def textOr (v : Json) : String := if v.truthy then v.toStr else ""

/-- `bool(str(v or "").strip())`. -/
def hasText (v : Json) : Bool := strip v.textOr ≠ ""

end Json

end XgenSdk.Py

/-! Reading a dict after a key of it is set. -/
namespace XgenSdk.Py.Json

theorem find_replaced (key other : String) (value : Json) (fields : List (String × Json)) :
    ((fields.map fun f => if f.1 = key then (key, value) else f).find? fun f => f.1 = other).map Prod.snd =
      if other = key then ((fields.find? fun f => f.1 = key).map fun _ => value)
      else (fields.find? fun f => f.1 = other).map Prod.snd := by
  induction fields with
  | nil => simp
  | cons f fields ih =>
    by_cases hf : f.1 = key
    · by_cases hother : other = key
      · simp [hf, hother]
      · have hne : ¬ key = other := fun h => hother h.symm
        rw [if_neg hother] at ih
        rw [List.map_cons, if_pos hf, List.find?_cons_of_neg (by simpa using hne), ih, if_neg hother,
          List.find?_cons_of_neg (by simpa [hf] using hne)]
    · by_cases hfo : f.1 = other
      · have hne : ¬ other = key := fun h => hf (hfo.trans h)
        have hkey : ¬ f.1 = key := hf
        simp [hfo, hne]
      · simp only [List.map_cons, hf, if_false, List.find?_cons, hfo, decide_false]
        exact ih

theorem lookup_replaced (key other : String) (value : Json) (fields : List (String × Json))
    (hkey : (lookup key fields).isSome) :
    lookup other (fields.map fun f => if f.1 = key then (key, value) else f) =
      if other = key then some value else lookup other fields := by
  unfold lookup at hkey ⊢
  rw [find_replaced]
  by_cases hother : other = key
  · obtain ⟨f, hf⟩ := Option.isSome_iff_exists.mp hkey
    obtain ⟨g, hg, -⟩ := Option.map_eq_some_iff.mp hf
    simp [hother, hg]
  · simp [hother]

theorem lookup_added (key other : String) (value : Json) (fields : List (String × Json))
    (hkey : lookup key fields = none) :
    lookup other (fields ++ [(key, value)]) = if other = key then some value else lookup other fields := by
  unfold lookup at hkey ⊢
  rw [List.find?_append]
  by_cases hother : other = key
  · have hnone : (fields.find? fun f => f.1 = key) = none := Option.map_eq_none_iff.mp hkey
    subst hother
    simp [hnone]
  · have hne : ¬ key = other := fun h => hother h.symm
    simp [hother, hne]

theorem isObj_set (key : String) (value v : Json) : (v.set key value).isObj = v.isObj := by
  cases v with
  | obj fields =>
    simp only [set]
    split <;> rfl
  | _ => rfl

/-- `{**v, key: value}` read at any key, with any default. -/
theorem lookup_set (key other : String) (value : Json) (fields : List (String × Json)) :
    ∃ after, (Json.obj fields).set key value = .obj after ∧
      lookup other after = if other = key then some value else lookup other fields := by
  simp only [set]
  cases hkey : lookup key fields with
  | none => exact ⟨_, rfl, lookup_added key other value fields hkey⟩
  | some old => exact ⟨_, rfl, lookup_replaced key other value fields (by rw [hkey]; rfl)⟩

theorem get_set (key other : String) (value v : Json) (hv : v.isObj = true) :
    (v.set key value).get other = if other = key then value else v.get other := by
  cases v with
  | obj fields =>
    obtain ⟨after, hafter, hlookup⟩ := lookup_set key other value fields
    rw [hafter]
    simp only [get, hlookup]
    split <;> rfl
  | _ => cases hv

theorem has_set (key other : String) (value v : Json) (hv : v.isObj = true) :
    (v.set key value).has other = if other = key then true else v.has other := by
  cases v with
  | obj fields =>
    obtain ⟨after, hafter, hlookup⟩ := lookup_set key other value fields
    rw [hafter]
    simp only [has, hlookup]
    split <;> rfl
  | _ => cases hv

end XgenSdk.Py.Json
