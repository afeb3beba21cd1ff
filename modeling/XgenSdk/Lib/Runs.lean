import Mathlib.Data.List.Induction
import Mathlib.Data.List.Basic

/-! Runs of a system that takes one step for each call. -/
namespace XgenSdk.Runs
variable {σ κ : Type}

def after (step : σ → κ → σ) (calls : List κ) (s : σ) : σ := calls.foldl step s

/-- Each call of the run, in the state that it finds. -/
def Along (step : σ → κ → σ) (p : κ → σ → Prop) (calls : List κ) (s : σ) : Prop :=
  ∀ front c rest, calls = front ++ c :: rest → p c (after step front s)

section Runs
variable {step : σ → κ → σ} {p q : κ → σ → Prop} {invariant : σ → Prop} {calls : List κ} {s : σ}

theorem after_append (calls calls' : List κ) (s : σ) : after step (calls ++ calls') s = after step calls' (after step calls s) :=
  List.foldl_append

@[simp] theorem after_nil (s : σ) : after step ([] : List κ) s = s := rfl

@[simp] theorem after_cons (c : κ) (calls : List κ) (s : σ) : after step (c :: calls) s = after step calls (step s c) := rfl

theorem after_concat (calls : List κ) (c : κ) (s : σ) : after step (calls ++ [c]) s = step (after step calls s) c :=
  after_append calls [c] s

/-- A place in a list with one more element is the last, or one before it. -/
theorem concat_eq_iff {c d : κ} {front rest : List κ} : calls ++ [c] = front ++ d :: rest ↔
    (calls = front ∧ c = d ∧ rest = []) ∨ ∃ rest', rest = rest' ++ [c] ∧ calls = front ++ d :: rest' := by
  constructor
  · intro h
    obtain rfl | ⟨rest, e, rfl⟩ := List.eq_nil_or_concat' rest
    · obtain ⟨hfront, hlast⟩ := List.append_inj' h rfl
      exact .inl ⟨hfront, List.head_eq_of_cons_eq hlast, rfl⟩
    · rw [← List.cons_append, ← List.append_assoc] at h
      obtain ⟨hcalls, hlast⟩ := List.append_inj' h rfl
      exact .inr ⟨rest, by rw [List.head_eq_of_cons_eq hlast], hcalls⟩
  · rintro (⟨rfl, rfl, rfl⟩ | ⟨rest, rfl, rfl⟩)
    · rfl
    · rw [List.append_assoc, List.cons_append]

theorem along_nil : Along step p [] s := by
  intro front c rest h
  cases front <;> cases h

theorem along_concat {c : κ} : Along step p (calls ++ [c]) s ↔ Along step p calls s ∧ p c (after step calls s) := by
  constructor
  · intro h
    exact ⟨fun front d rest hcalls => h front d (rest ++ [c]) (concat_eq_iff.mpr (.inr ⟨rest, rfl, hcalls⟩)),
      h calls c [] rfl⟩
  · rintro ⟨hbefore, hlast⟩ front d rest hsplit
    obtain ⟨rfl, rfl, -⟩ | ⟨rest, -, hcalls⟩ := concat_eq_iff.mp hsplit
    · exact hlast
    · exact hbefore front d rest hcalls

theorem along_left {calls' : List κ} (h : Along step p (calls ++ calls') s) : Along step p calls s := by
  intro front c rest hsplit
  exact h front c (rest ++ calls') (by rw [hsplit, List.append_assoc, List.cons_append])

theorem along_right {calls' : List κ} (h : Along step p (calls ++ calls') s) : Along step p calls' (after step calls s) := by
  intro front c rest hsplit
  have hc := h (calls ++ front) c rest (by rw [hsplit, List.append_assoc])
  rwa [after_append] at hc

theorem invariant_after (hstep : ∀ c s, invariant s → q c s → invariant (step s c)) (hs : invariant s) (h : Along step q calls s) :
    invariant (after step calls s) := by
  induction calls using List.reverseRecOn with
  | nil => exact hs
  | append_singleton calls c ih =>
    obtain ⟨hbefore, hlast⟩ := along_concat.mp h
    rw [after_concat]
    exact hstep c _ (ih hbefore) hlast

/-- Two properties of a call that agree where an invariant holds, one of which keeps
it, hold along the same runs. -/
theorem along_iff (invariant : σ → Prop) (hiff : ∀ c s, invariant s → (p c s ↔ q c s))
    (hstep : ∀ c s, invariant s → q c s → invariant (step s c))
    (hs : invariant s) : Along step p calls s ↔ Along step q calls s := by
  induction calls using List.reverseRecOn with
  | nil => exact iff_of_true along_nil along_nil
  | append_singleton calls c ih =>
    rw [along_concat, along_concat, ih]
    exact and_congr_right fun hbefore => hiff c _ (invariant_after hstep hs hbefore)

/-- What some calls turn on, and others off, is on where a call turned it on and none
after it turned it off, or where it was on and none did. -/
theorem after_latched {P : σ → Prop} {O : κ → σ → Prop} {C : κ → Prop}
    (hstep : ∀ c s, P (step s c) ↔ O c s ∨ (P s ∧ ¬C c)) :
    P (after step calls s) ↔ (P s ∧ ∀ c ∈ calls, ¬C c) ∨
      ∃ front c rest, calls = front ++ c :: rest ∧ O c (after step front s) ∧ ∀ d ∈ rest, ¬C d := by
  induction calls using List.reverseRecOn with
  | nil => simp
  | append_singleton calls c ih =>
    rw [after_concat, hstep, ih]
    simp only [concat_eq_iff, List.forall_mem_append, List.forall_mem_singleton]
    constructor
    · rintro (hopens | ⟨⟨hs, hkept⟩ | ⟨front, d, rest, hcalls, hopens, hkept⟩, hc⟩)
      · exact .inr ⟨calls, c, [], .inl ⟨rfl, rfl, rfl⟩, hopens, by simp⟩
      · exact .inl ⟨hs, hkept, hc⟩
      · exact .inr ⟨front, d, rest ++ [c], .inr ⟨rest, rfl, hcalls⟩, hopens,
          List.forall_mem_append.mpr ⟨hkept, List.forall_mem_singleton.mpr hc⟩⟩
    · rintro (⟨hs, hkept, hc⟩ | ⟨front, d, rest, ⟨rfl, rfl, rfl⟩ | ⟨rest, rfl, hcalls⟩, hopens, hkept⟩)
      · exact .inr ⟨.inl ⟨hs, hkept⟩, hc⟩
      · exact .inl hopens
      · rw [List.forall_mem_append, List.forall_mem_singleton] at hkept
        exact .inr ⟨.inr ⟨front, d, rest, hcalls, hopens, hkept.1⟩, hkept.2⟩

end Runs
end XgenSdk.Runs
