import Mathlib.Order.BoundedOrder.Basic
import Mathlib.Order.Lattice

/-! How much each key has, in a linear order whose least level is nothing. -/
namespace XgenSdk.Levels
variable {κ α : Type} [LinearOrder α]

/-- The best of what there is already and of some keys. -/
def reach (f : κ → α) (best : α) (ks : List κ) : α := ks.foldl (fun best k => best ⊔ f k) best

theorem reach_mono {f g : κ → α} (hfg : f ≤ g) {a b : α} (hab : a ≤ b) (ks : List κ) : reach f a ks ≤ reach g b ks := by
  induction ks generalizing a b with
  | nil => exact hab
  | cons k ks ih => exact ih (sup_le_sup hab (hfg k))

variable [OrderBot α]

/-- What `g` has more of than `f`. -/
def rise (f g : κ → α) (k : κ) : α := if f k < g k then g k else ⊥

/-- One over the other, where it has something. -/
def layered (base top : κ → α) (k : κ) : α := if top k = ⊥ then base k else top k

theorem rise_eq_bot_iff {f g : κ → α} : rise f g = ⊥ ↔ g ≤ f := by
  constructor
  · intro h k
    have hk : (if f k < g k then g k else ⊥) = ⊥ := congrFun h k
    by_cases hlt : f k < g k
    · rw [if_pos hlt] at hk
      rw [hk] at hlt
      exact absurd hlt not_lt_bot
    · exact not_lt.mp hlt
  · intro h
    funext k
    exact if_neg (not_lt.mpr (h k))

/-- What both have, with what is gained over it, is what `g` has. -/
theorem layered_rise (f g : κ → α) : layered (f ⊓ g) (rise f g) = g := by
  funext k
  unfold layered rise
  by_cases hlt : f k < g k
  · rw [if_pos hlt]
    exact if_neg (bot_le.trans_lt hlt).ne'
  · rw [if_neg hlt, if_pos rfl]
    exact inf_eq_right.mpr (not_lt.mp hlt)

end XgenSdk.Levels
