import Mathlib.Order.Monotone.Defs
import Mathlib.Order.Nat

/-! Rounds of a step until it changes nothing. -/
namespace XgenSdk.Saturate
variable {α : Type} [DecidableEq α] (step : α → α)

/-- At most `fuel` rounds. -/
def saturate : Nat → α → Option α
  | 0, _ => none
  | fuel + 1, a => if step a = a then some a else saturate fuel (step a)

variable {step}

theorem saturate_fixed {fuel : Nat} {a b : α} (h : saturate step fuel a = some b) : step b = b := by
  induction fuel generalizing a with
  | zero => cases h
  | succ fuel ih =>
    rw [saturate] at h
    split at h
    · rename_i hfixed
      exact Option.some.inj h ▸ hfixed
    · exact ih h

/-- More rounds end in the same place. -/
theorem saturate_mono {fuel more : Nat} {a b : α} (h : saturate step fuel a = some b) (hmore : fuel ≤ more) :
    saturate step more a = some b := by
  induction fuel generalizing a more with
  | zero => cases h
  | succ fuel ih =>
    obtain ⟨m, rfl⟩ := Nat.exists_eq_add_of_le' hmore
    rw [saturate] at h
    rw [show m + (fuel + 1) = m + fuel + 1 from rfl, saturate]
    split at h
    · rename_i hfixed
      rwa [if_pos hfixed]
    · rename_i hmoves
      rw [if_neg hmoves]
      exact ih h (by omega)

section Order
variable [PartialOrder α]

/-- Where a monotone step ends lies below all that it does not raise. -/
theorem saturate_least (hmono : Monotone step) {fuel : Nat} {a b c : α} (h : saturate step fuel a = some b)
    (hac : a ≤ c) (hc : step c ≤ c) : b ≤ c := by
  induction fuel generalizing a with
  | zero => cases h
  | succ fuel ih =>
    rw [saturate] at h
    split at h
    · exact Option.some.inj h ▸ hac
    · exact ih h ((hmono hac).trans hc)

/-- A monotone step that starts upwards ends, once something above the start is not raised. -/
theorem saturate_ends (hmono : Monotone step) {rank : α → Nat} (hrank : StrictMono rank) {fuel : Nat} {a c : α}
    (ha : a ≤ step a) (hac : a ≤ c) (hc : step c ≤ c) (hfuel : rank c < rank a + fuel) :
    ∃ b, saturate step fuel a = some b := by
  induction fuel generalizing a with
  | zero => exact absurd (hrank.monotone hac) (by omega)
  | succ fuel ih =>
    rw [saturate]
    split
    · exact ⟨a, rfl⟩
    · rename_i hmoves
      have hup : rank a < rank (step a) := hrank (lt_of_le_of_ne ha (Ne.symm hmoves))
      exact ih (hmono ha) ((hmono hac).trans hc) (by omega)

end Order

end XgenSdk.Saturate
