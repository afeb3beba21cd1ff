import Mathlib.Data.List.Basic
import Mathlib.Algebra.Order.Ring.Int

/-! Little-endian numbers, as `struct` packs and unpacks them. -/
namespace XgenSdk.Py.Struct

/-- The number bytes stand for, the least significant first. -/
def leNat : List UInt8 → Nat
  | [] => 0
  | b :: bs => b.toNat + 256 * leNat bs

/-- The last `n` bytes of a number; all of it where it fits. -/
def leBytes : Nat → Nat → List UInt8
  | 0, _ => []
  | n + 1, v => UInt8.ofNat (v % 256) :: leBytes n (v / 256)

@[simp] theorem length_leBytes (n v : Nat) : (leBytes n v).length = n := by
  induction n generalizing v with
  | zero => rfl
  | succ n ih => rw [leBytes, List.length_cons, ih]

theorem leNat_leBytes {n v : Nat} (h : v < 256 ^ n) : leNat (leBytes n v) = v := by
  induction n generalizing v with
  | zero => rw [leBytes, leNat]; omega
  | succ n ih =>
    have hdiv : v / 256 < 256 ^ n := by
      rw [Nat.pow_succ] at h
      exact Nat.div_lt_of_lt_mul (by omega)
    have hbyte : (UInt8.ofNat (v % 256)).toNat = v % 256 := UInt8.toNat_ofNat_of_lt' (by change _ < 256; omega)
    rw [leBytes, leNat, ih hdiv, hbyte]
    omega

theorem leNat_lt (bs : List UInt8) : leNat bs < 256 ^ bs.length := by
  induction bs with
  | nil => exact Nat.one_pos
  | cons b bs ih =>
    have hb := b.toNat_lt
    rw [leNat, List.length_cons, Nat.pow_succ]
    omega

theorem leBytes_leNat (bs : List UInt8) : leBytes bs.length (leNat bs) = bs := by
  induction bs with
  | nil => rfl
  | cons b bs ih =>
    have hb := b.toNat_lt
    have hmod : (b.toNat + 256 * leNat bs) % 256 = b.toNat := by omega
    have hdiv : (b.toNat + 256 * leNat bs) / 256 = leNat bs := by omega
    rw [List.length_cons, leNat, leBytes, hmod, hdiv, ih, UInt8.ofNat_toNat]

/-- The bytes of the number that they have room for. -/
theorem leBytes_mod (n v : Nat) : leBytes n (v % 256 ^ n) = leBytes n v := by
  induction n generalizing v with
  | zero => rfl
  | succ n ih =>
    have hlast : v % 256 ^ (n + 1) % 256 = v % 256 := Nat.mod_mod_of_dvd v (Dvd.intro_left (256 ^ n) rfl)
    have hrest : v % 256 ^ (n + 1) / 256 = v / 256 % 256 ^ n := by rw [Nat.pow_succ', Nat.mod_mul_right_div_self]
    rw [leBytes, leBytes, hlast, hrest, ih]

theorem leBytes_add (m n v : Nat) : leBytes (m + n) v = leBytes m v ++ leBytes n (v / 256 ^ m) := by
  induction m generalizing v with
  | zero => rw [Nat.zero_add, Nat.pow_zero, Nat.div_one]; rfl
  | succ m ih =>
    rw [Nat.succ_add, leBytes, leBytes, ih, Nat.div_div_eq_div_mul, ← Nat.pow_succ']
    rfl

/-- Reading what is written in front of other bytes. -/
theorem leNat_take_append {n v : Nat} (h : v < 256 ^ n) (rest : List UInt8) :
    leNat ((leBytes n v ++ rest).take n) = v := by
  have htake : (leBytes n v ++ rest).take n = leBytes n v := by
    rw [List.take_append_of_le_length (Nat.le_of_eq (length_leBytes n v).symm),
      List.take_of_length_le (Nat.le_of_eq (length_leBytes n v))]
  rw [htake, leNat_leBytes h]

/-- `n` bytes written over those at a place. -/
def overwrite (at_ : Nat) (bytes old : List UInt8) : List UInt8 :=
  old.take at_ ++ bytes ++ old.drop (at_ + bytes.length)

theorem length_overwrite {at_ : Nat} {bytes old : List UInt8} (h : at_ + bytes.length ≤ old.length) :
    (overwrite at_ bytes old).length = old.length := by
  rw [overwrite, List.length_append, List.length_append, List.length_take, List.length_drop]
  omega

/-- What is written is read back. -/
theorem overwrite_read {at_ : Nat} {bytes old : List UInt8} (h : at_ ≤ old.length) :
    ((overwrite at_ bytes old).drop at_).take bytes.length = bytes := by
  have htake : (old.take at_).length = at_ := by
    rw [List.length_take]
    omega
  rw [overwrite, List.append_assoc, List.drop_append_of_le_length (Nat.le_of_eq htake.symm),
    List.drop_of_length_le (Nat.le_of_eq htake), List.nil_append, List.take_left]

/-- What stands in front of the place is as before. -/
theorem overwrite_before {at_ n : Nat} {bytes old : List UInt8} (hn : n ≤ at_) (h : at_ ≤ old.length) :
    (overwrite at_ bytes old).take n = old.take n := by
  rw [overwrite, List.append_assoc, List.take_append_of_le_length (by rw [List.length_take]; omega), List.take_take,
    Nat.min_eq_left hn]

/-- `struct.unpack_from` of one number; `none` where the bytes end before it. -/
def unpack (n : Nat) (data : List UInt8) (at_ : Nat) : Option Nat :=
  if at_ + n ≤ data.length then some (leNat ((data.drop at_).take n)) else none

/-- `struct.pack("<I", v)`. -/
def pack32 (v : Nat) : Option (List UInt8) := if v < 2 ^ 32 then some (leBytes 4 v) else none

theorem unpack_append_left {n at_ : Nat} {a : List UInt8} (h : at_ + n ≤ a.length) (b : List UInt8) :
    unpack n (a ++ b) at_ = unpack n a at_ := by
  rw [unpack, unpack, if_pos h, if_pos (by rw [List.length_append]; omega), List.drop_append_of_le_length (by omega),
    List.take_append_of_le_length (by rw [List.length_drop]; omega)]

theorem unpack_append_right (n : Nat) (a b : List UInt8) (at_ : Nat) : unpack n (a ++ b) (a.length + at_) = unpack n b at_ := by
  have hlength : a.length + at_ + n ≤ (a ++ b).length ↔ at_ + n ≤ b.length := by
    rw [List.length_append]
    omega
  simp only [unpack, hlength, ← List.drop_drop, List.drop_left]

theorem unpack_leBytes {n v : Nat} (h : v < 256 ^ n) (rest : List UInt8) : unpack n (leBytes n v ++ rest) 0 = some v := by
  rw [unpack, if_pos (by simp), List.drop_zero, leNat_take_append h]

theorem pack32_eq {v : Nat} {bytes : List UInt8} (h : pack32 v = some bytes) : v < 256 ^ 4 ∧ bytes = leBytes 4 v := by
  obtain ⟨hv, h⟩ := Option.ite_none_right_eq_some.mp h
  exact ⟨hv, (Option.some.inj h).symm⟩

/-- Only the bytes read decide. -/
theorem unpack_congr {n i j : Nat} {a b : List UInt8} (h : (a.drop i).take n = (b.drop j).take n) (ha : i + n ≤ a.length)
    (hb : j + n ≤ b.length) : unpack n a i = unpack n b j := by
  rw [unpack, unpack, if_pos ha, if_pos hb, h]

end XgenSdk.Py.Struct
