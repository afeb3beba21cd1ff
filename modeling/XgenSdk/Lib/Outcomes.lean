import Mathlib.Data.List.Forall2

/-! What a checked computation may end with: a value of one kind, or one of the
errors it is allowed. -/
namespace XgenSdk.Outcomes
variable {ε α β : Type}

/-- The value has `P`, the error is an allowed one. -/
def Ends (allowed : ε → Prop) (P : α → Prop) : Except ε α → Prop
  | .ok a => P a
  | .error e => allowed e

variable {allowed : ε → Prop} {P Q : α → Prop} {R : β → Prop}

theorem ends_iff {x : Except ε α} : Ends allowed P x ↔ (∃ a, x = .ok a ∧ P a) ∨ ∃ e, x = .error e ∧ allowed e := by
  cases x with
  | ok a =>
    refine ⟨fun h => .inl ⟨a, rfl, h⟩, ?_⟩
    rintro (⟨b, hb, h⟩ | ⟨e, he, -⟩)
    · exact Except.ok.inj hb ▸ h
    · cases he
  | error e =>
    refine ⟨fun h => .inr ⟨e, rfl, h⟩, ?_⟩
    rintro (⟨b, hb, -⟩ | ⟨d, hd, h⟩)
    · cases hb
    · exact Except.error.inj hd ▸ h

theorem Ends.of_ok {x : Except ε α} (h : Ends allowed P x) {a : α} (hx : x = .ok a) : P a := by
  rw [hx] at h
  exact h

theorem Ends.mono {x : Except ε α} (h : Ends allowed P x) (himp : ∀ a, P a → Q a) : Ends allowed Q x := by
  cases x with
  | ok a => exact himp a h
  | error e => exact h

theorem Ends.bind {x : Except ε α} {f : α → Except ε β} (hx : Ends allowed P x) (hf : ∀ a, P a → Ends allowed R (f a)) :
    Ends allowed R (x >>= f) := by
  cases x with
  | ok a => exact hf a hx
  | error e => exact hx

theorem ends_bind_iff {x : Except ε α} {f : α → Except ε β} :
    Ends allowed R (x >>= f) ↔ Ends allowed (fun _ => True) x ∧ ∀ a, x = .ok a → Ends allowed R (f a) := by
  cases x with
  | ok a =>
    refine ⟨fun h => ⟨trivial, fun b hb => ?_⟩, fun h => h.2 a rfl⟩
    rw [← Except.ok.inj hb]
    exact h
  | error e =>
    refine ⟨fun h => ⟨h, fun a ha => ?_⟩, And.left⟩
    cases ha

theorem Ends.ite {c : Prop} [Decidable c] {x y : Except ε α} (hx : c → Ends allowed P x) (hy : ¬ c → Ends allowed P y) :
    Ends allowed P (if c then x else y) := by
  by_cases hc : c
  · rw [if_pos hc]
    exact hx hc
  · rw [if_neg hc]
    exact hy hc

/-- One after the other; what comes of each is of its own kind. -/
theorem Ends.mapM {S : α → β → Prop} {f : α → Except ε β} {xs : List α} (h : ∀ x ∈ xs, Ends allowed (S x) (f x)) :
    Ends allowed (List.Forall₂ S xs) (xs.mapM f) := by
  induction xs with
  | nil => exact List.Forall₂.nil
  | cons x xs ih =>
    rw [List.mapM_cons]
    refine (h x List.mem_cons_self).bind fun y hy => ?_
    refine (ih fun z hz => h z (List.mem_cons_of_mem x hz)).bind fun ys hys => ?_
    exact List.Forall₂.cons hy hys

end XgenSdk.Outcomes
