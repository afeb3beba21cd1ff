import Mathlib.Data.Rat.Defs
import XgenSdk.Py.Json
import Mathlib.Tactic.IntervalCases
import Mathlib.Data.List.DropRight

/-! Numbers with their exact values, as Python and JSON Schema compare them. -/
namespace XgenSdk.Py

/-- What is known of floats besides their text: the exact value of a finite one, and `float(text)`
(`none` where it raises). -/
structure Floats where
  exact : PyFloat → Option Rat
  parse : String → Option PyFloat

namespace Floats
variable (fl : Floats)

/-- The value of a finite number; a Boolean is none. -/
def number : Json → Option Rat
  | .int n => some n
  | .float x => fl.exact x
  | _ => none

def isNumber (v : Json) : Bool := (fl.number v).isSome

/-- A whole number, which may be written as a float. -/
def isInteger (v : Json) : Bool := (fl.number v).any fun q => q.den = 1

/-- `a < b` of two finite numbers. -/
def less (a b : Json) : Bool :=
  match fl.number a, fl.number b with
  | some p, some q => p < q
  | _, _ => false

/-- `int(v)` of a whole number. -/
def toInt (v : Json) : Int := ((fl.number v).map Rat.num).getD 0

/-- The value as which Python compares: `True` is one. -/
def pyNumber : Json → Option Rat
  | .bool b => some (if b then 1 else 0)
  | v => fl.number v

/-- `a == b`, where `a` is a string, a Boolean or a finite number. -/
def pyEq (a b : Json) : Bool :=
  match a, b with
  | .str s, .str t => s = t
  | a, b =>
    match fl.pyNumber a, fl.pyNumber b with
    | some p, some q => p = q
    | _, _ => false

/-- `value in items`. -/
def isIn (value : Json) (items : List Json) : Bool := items.any (fl.pyEq value)

/-- Equality in JSON Schema of a string, a Boolean or a number: no Boolean is a number. -/
def schemaEq (a b : Json) : Bool :=
  match a, b with
  | .str s, .str t => s = t
  | .bool x, .bool y => x = y
  | a, b =>
    match fl.number a, fl.number b with
    | some p, some q => p = q
    | _, _ => false

theorem number_toInt {v : Json} (h : fl.isInteger v = true) : fl.number v = some (fl.toInt v : Rat) := by
  unfold isInteger at h
  unfold toInt
  cases hv : fl.number v with
  | none =>
    rw [hv] at h
    cases h
  | some q =>
    rw [hv] at h
    rw [Option.map_some, Option.getD_some, Option.some.injEq]
    exact (Rat.den_eq_one_iff q).mp (of_decide_eq_true h) |>.symm

theorem isNumber_of_isInteger {v : Json} (h : fl.isInteger v = true) : fl.isNumber v = true := by
  rw [isNumber, fl.number_toInt h]
  rfl

/-- Comparisons see the value of a number only. -/
theorem less_congr {a a' b b' : Json} (ha : fl.number a = fl.number a') (hb : fl.number b = fl.number b') :
    fl.less a b = fl.less a' b' := by
  rw [less, less, ha, hb]

theorem pyNumber_number {v : Json} (h : fl.isNumber v = true) : fl.pyNumber v = fl.number v := by
  cases v with
  | bool b => cases h
  | _ => rfl

theorem pyEq_number {v : Json} (h : fl.isNumber v = true) (w : Json) :
    fl.pyEq v w = (match fl.number v, fl.pyNumber w with | some p, some q => decide (p = q) | _, _ => false) := by
  cases v with
  | int n => rfl
  | float x => rfl
  | _ => cases h

/-- Python takes two numbers of one value for the same. -/
theorem isIn_congr {a b : Json} (ha : fl.isNumber a = true) (hb : fl.isNumber b = true) (h : fl.number a = fl.number b)
    (items : List Json) : fl.isIn a items = fl.isIn b items := by
  have hsame : fl.pyEq a = fl.pyEq b := by
    funext w
    rw [fl.pyEq_number ha, fl.pyEq_number hb, h]
  rw [isIn, isIn, hsame]

/-- What is equal in JSON Schema is equal in Python. -/
theorem pyEq_of_schemaEq {a b : Json} (h : fl.schemaEq a b = true) : fl.pyEq a b = true := by
  unfold schemaEq at h
  split at h
  · exact h
  · rename_i x y
    rw [of_decide_eq_true h]
    cases y <;> rfl
  · split at h
    · rename_i p q hp hq
      have hnumber : fl.isNumber a = true := by rw [isNumber, hp]; rfl
      have hother : fl.isNumber b = true := by rw [isNumber, hq]; rfl
      rw [fl.pyEq_number hnumber, fl.pyNumber_number hother, hp, hq]
      exact h
    · cases h

end Floats

end XgenSdk.Py

/-! The decimal text of an integer, read back by `int()`, and texts stripped twice. -/
namespace XgenSdk.Py

theorem digitValue_digitChar (d : Nat) (h : d < 10) : digitValue (Nat.digitChar d) = some d := by
  interval_cases d <;> decide

theorem digitChar_ne_underscore (d : Nat) (h : d < 10) : Nat.digitChar d ≠ '_' := by
  interval_cases d <;> decide

/-- Without underscores the digits are read one by one. -/
theorem digitsValue_cons {c : Char} (h : c ≠ '_') (acc : Nat) (cs : List Char) :
    digitsValue acc (c :: cs) = (digitValue c).bind fun d => digitsValue (10 * acc + d) cs := by
  rw [digitsValue]
  exact fun _ _ heq _ => h heq

theorem digitsValue_append {cs : List Char} (hcs : '_' ∉ cs) (acc : Nat) (rest : List Char) :
    digitsValue acc (cs ++ rest) = (digitsValue acc cs).bind fun n => digitsValue n rest := by
  induction cs generalizing acc with
  | nil => rfl
  | cons c cs ih =>
    obtain ⟨hc, hcs⟩ := not_or.mp (mt List.mem_cons.mpr hcs)
    rw [List.cons_append, digitsValue_cons (Ne.symm hc), digitsValue_cons (Ne.symm hc), Option.bind_assoc]
    exact congrArg _ (funext fun d => ih hcs _)

theorem underscore_not_mem_toDigits (n : Nat) : '_' ∉ Nat.toDigits 10 n := by
  intro h
  have hdigit := Nat.isDigit_of_mem_toDigits (by decide) (by decide) h
  exact absurd hdigit (by decide)

theorem digitsValue_toDigits (n : Nat) : digitsValue 0 (Nat.toDigits 10 n) = some n := by
  induction n using Nat.strongRecOn with
  | ind n ih =>
    by_cases hn : n < 10
    · rw [Nat.toDigits_of_lt_base hn, digitsValue_cons (digitChar_ne_underscore n hn), digitValue_digitChar n hn]
      simp [digitsValue]
    · have hmod : n % 10 < 10 := Nat.mod_lt n (by decide)
      rw [Nat.toDigits_of_base_le (by decide) (by omega), digitsValue_append (underscore_not_mem_toDigits _), ih (n / 10) (by omega),
        Option.bind_some, digitsValue_cons (digitChar_ne_underscore _ hmod), digitValue_digitChar _ hmod, Option.bind_some, digitsValue]
      exact congrArg some (Nat.div_add_mod n 10)

theorem natOfChars_toDigits (n : Nat) : natOfChars (Nat.toDigits 10 n) = some n := by
  have hread := digitsValue_toDigits n
  cases hdigits : Nat.toDigits 10 n with
  | nil => exact absurd hdigits Nat.toDigits_ne_nil
  | cons c cs =>
    have hc : c ≠ '_' := fun heq => underscore_not_mem_toDigits n (hdigits ▸ heq ▸ List.mem_cons_self)
    rw [hdigits, digitsValue_cons hc] at hread
    simpa [natOfChars] using hread

theorem digitValue_lt {c : Char} {d : Nat} (h : digitValue c = some d) : d < 10 := by
  obtain ⟨z, hz, rfl⟩ := Option.map_eq_some_iff.mp h
  have hrange := List.find?_some hz
  simp only [Bool.and_eq_true, decide_eq_true_eq] at hrange
  omega

theorem lt_of_next_digit {acc d k n : Nat} (hd : d < 10) (hn : n < (10 * acc + d + 1) * 10 ^ k) : n < (acc + 1) * 10 ^ (k + 1) :=
  calc n < (10 * acc + d + 1) * 10 ^ k := hn
    _ ≤ ((acc + 1) * 10) * 10 ^ k := Nat.mul_le_mul_right _ (by omega)
    _ = (acc + 1) * 10 ^ (k + 1) := by rw [Nat.mul_assoc, Nat.pow_succ']

theorem digitsValue_lt {acc n : Nat} {cs : List Char} (h : digitsValue acc cs = some n) : n < (acc + 1) * 10 ^ cs.length := by
  fun_induction digitsValue acc cs with
  | case1 acc => exact Option.some.inj h ▸ by simp
  | case2 acc c cs ih =>
    obtain ⟨d, hd, hrest⟩ := Option.bind_eq_some_iff.mp h
    calc n < (acc + 1) * 10 ^ (cs.length + 1) := lt_of_next_digit (digitValue_lt hd) (ih d hrest)
      _ ≤ (acc + 1) * 10 ^ (cs.length + 2) := Nat.mul_le_mul_left _ (Nat.pow_le_pow_right (by decide) (Nat.le_succ _))
  | case3 acc c cs _ ih =>
    obtain ⟨d, hd, hrest⟩ := Option.bind_eq_some_iff.mp h
    exact lt_of_next_digit (digitValue_lt hd) (ih d hrest)

theorem natOfChars_lt {n : Nat} {cs : List Char} (h : natOfChars cs = some n) : n < 10 ^ cs.length := by
  cases cs with
  | nil => cases h
  | cons c cs =>
    obtain ⟨d, hd, hrest⟩ := Option.bind_eq_some_iff.mp h
    calc n < (d + 1) * 10 ^ cs.length := digitsValue_lt hrest
      _ ≤ 10 * 10 ^ cs.length := Nat.mul_le_mul_right _ (digitValue_lt hd)
      _ = 10 ^ (c :: cs).length := by rw [List.length_cons, Nat.pow_succ']

theorem digitsValue_isSome_iff {cs : List Char} (hcs : '_' ∉ cs) (acc : Nat) :
    (digitsValue acc cs).isSome ↔ ∀ c ∈ cs, (digitValue c).isSome := by
  induction cs generalizing acc with
  | nil => simp [digitsValue]
  | cons c cs ih =>
    obtain ⟨hc, hcs⟩ := not_or.mp (mt List.mem_cons.mpr hcs)
    rw [digitsValue_cons (Ne.symm hc), List.forall_mem_cons]
    cases digitValue c with
    | none => simp
    | some d => simpa using ih hcs (10 * acc + d)

theorem natOfChars_isSome_iff {cs : List Char} (hcs : '_' ∉ cs) (hne : cs ≠ []) :
    (natOfChars cs).isSome ↔ ∀ c ∈ cs, (digitValue c).isSome := by
  cases cs with
  | nil => exact absurd rfl hne
  | cons c cs =>
    obtain ⟨-, hcs⟩ := not_or.mp (mt List.mem_cons.mpr hcs)
    rw [natOfChars, List.forall_mem_cons]
    cases digitValue c with
    | none => simp
    | some d => simpa using digitsValue_isSome_iff hcs d

/-- Where no end is dropped. -/
theorem dropWhile_of_not {p : Char → Bool} {cs : List Char} (h : ∀ c ∈ cs, p c = false) : cs.dropWhile p = cs := by
  cases cs with
  | nil => rfl
  | cons c cs => rw [List.dropWhile_cons, if_neg (by simp [h c List.mem_cons_self])]

theorem stripChars_of_not {cs : List Char} (h : ∀ c ∈ cs, isSpace c = false) : stripChars cs = cs := by
  have hreverse : ∀ c ∈ cs.reverse, isSpace c = false := fun c hc => h c (List.mem_reverse.mp hc)
  rw [stripChars, dropWhile_of_not h, dropWhile_of_not hreverse, List.reverse_reverse]

/-- What is left of the start of a text that has nothing to drop has nothing to drop. -/
theorem dropWhile_of_prefix {p : Char → Bool} {cs ds : List Char} (hbefore : cs <+: ds) (hds : ds.dropWhile p = ds) :
    cs.dropWhile p = cs := by
  obtain ⟨rest, rfl⟩ := hbefore
  cases cs with
  | nil => rfl
  | cons c cs =>
    rw [List.dropWhile_eq_self_iff] at hds ⊢
    exact fun _ => hds (by simp)

theorem stripChars_stripChars (cs : List Char) : stripChars (stripChars cs) = stripChars cs := by
  have hstart : (stripChars cs).dropWhile isSpace = stripChars cs :=
    dropWhile_of_prefix (List.rdropWhile_prefix isSpace (cs.dropWhile isSpace)) (List.dropWhile_idempotent isSpace cs)
  have hend : (stripChars cs).rdropWhile isSpace = stripChars cs := List.rdropWhile_idempotent isSpace _
  calc stripChars (stripChars cs) = ((stripChars cs).dropWhile isSpace).rdropWhile isSpace := rfl
    _ = stripChars cs := by rw [hstart, hend]

theorem strip_strip (s : String) : strip (strip s) = strip s := by
  rw [strip, strip, String.toList_ofList, stripChars_stripChars]

/-- The characters of the text of an integer. -/
theorem mem_toString_int {n : Int} {c : Char} (h : c ∈ (toString n).toList) : c = '-' ∨ c.isDigit = true := by
  cases n with
  | ofNat n =>
    have hc : c ∈ n.repr.toList := h
    rw [Nat.toList_repr] at hc
    exact .inr (Nat.isDigit_of_mem_toDigits (by decide) (by decide) hc)
  | negSucc n =>
    have hc : c ∈ ("-" ++ (n + 1).repr).toList := h
    rw [String.toList_append, Nat.toList_repr] at hc
    obtain hc | hc := List.mem_append.mp hc
    · exact .inl (by simpa using hc)
    · exact .inr (Nat.isDigit_of_mem_toDigits (by decide) (by decide) hc)

theorem toNat_of_isDigit {c : Char} (h : c.isDigit = true) : 48 ≤ c.toNat ∧ c.toNat ≤ 57 := by
  simp only [Char.isDigit, Bool.and_eq_true, decide_eq_true_eq] at h
  exact ⟨UInt32.le_iff_toNat_le.mp h.1, UInt32.le_iff_toNat_le.mp h.2⟩

theorem isSpace_of_isDigit {c : Char} (h : c = '-' ∨ c.isDigit = true) : isSpace c = false := by
  obtain rfl | h := h
  · decide
  · have hc := toNat_of_isDigit h
    simp only [isSpace, Bool.or_eq_false_iff, Bool.and_eq_false_iff, decide_eq_false_iff_not]
    omega

theorem stripChars_int (n : Int) : stripChars (toString n).toList = (toString n).toList :=
  stripChars_of_not fun _ hc => isSpace_of_isDigit (mem_toString_int hc)

theorem intOfString_toString (n : Int) : intOfString (toString n) = some n := by
  unfold intOfString
  rw [stripChars_int]
  cases n with
  | ofNat n =>
    have htext : (toString (Int.ofNat n)).toList = Nat.toDigits 10 n := Nat.toList_repr
    have hsign : ∀ c ∈ Nat.toDigits 10 n, c.isDigit = true := fun c hc => Nat.isDigit_of_mem_toDigits (by decide) (by decide) hc
    rw [htext]
    split
    · rename_i cs heq
      exact absurd (hsign '-' (heq ▸ List.mem_cons_self)) (by decide)
    · rename_i cs heq
      exact absurd (hsign '+' (heq ▸ List.mem_cons_self)) (by decide)
    · rw [natOfChars_toDigits]
      rfl
  | negSucc n =>
    have htext : (toString (Int.negSucc n)).toList = '-' :: Nat.toDigits 10 (n + 1) := by
      show ("-" ++ (n + 1).repr).toList = _
      rw [String.toList_append, Nat.toList_repr]
      rfl
    rw [htext]
    simp only [natOfChars_toDigits]
    rfl

end XgenSdk.Py
