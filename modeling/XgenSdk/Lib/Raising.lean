import Mathlib.Logic.Basic

/-! Computations on a state that may raise. What was written before the
exception stays written, unless the computation is a transaction. -/
namespace XgenSdk
variable {σ ε α β : Type}

abbrev Raising (σ ε α : Type) := ExceptT ε (StateM σ) α

namespace Raising

/-- The result and the state it leaves. -/
def on (m : Raising σ ε α) (s : σ) : Except ε α × σ := m.run.run s

def read : Raising σ ε σ := fun s => (.ok s, s)

def write (f : σ → σ) : Raising σ ε Unit := fun s => (.ok (), f s)

def lift (x : Except ε α) : Raising σ ε α := fun s => (x, s)

/-- All or nothing: an exception takes back what was written. -/
def transaction (m : Raising σ ε α) : Raising σ ε α := fun s =>
  match m.on s with
  | (.ok a, t) => (.ok a, t)
  | (.error e, _) => (.error e, s)

/-- `try m except e: h e`; what `m` wrote stays written. -/
def handle (m : Raising σ ε α) (h : ε → Raising σ ε α) : Raising σ ε α := fun s =>
  match m.on s with
  | (.ok a, t) => (.ok a, t)
  | (.error e, t) => (h e).on t

/-- `try: m finally: cleanup`; an exception of the cleanup takes the place of the outcome. -/
def ensuring (m : Raising σ ε α) (cleanup : Raising σ ε Unit) : Raising σ ε α := fun s =>
  match m.on s with
  | (r, t) => match cleanup.on t with
    | (.ok _, u) => (r, u)
    | (.error e, u) => (.error e, u)

@[simp] theorem on_pure (a : α) (s : σ) : (pure a : Raising σ ε α).on s = (.ok a, s) := rfl

@[simp] theorem on_throw (e : ε) (s : σ) : (throw e : Raising σ ε α).on s = (.error e, s) := rfl

@[simp] theorem on_read (s : σ) : (read : Raising σ ε σ).on s = (.ok s, s) := rfl

@[simp] theorem on_write (f : σ → σ) (s : σ) : (write f : Raising σ ε Unit).on s = (.ok (), f s) := rfl

@[simp] theorem on_lift (x : Except ε α) (s : σ) : (lift x : Raising σ ε α).on s = (x, s) := rfl

theorem on_transaction (m : Raising σ ε α) (s : σ) :
    (transaction m).on s = match m.on s with
      | (.ok a, t) => (.ok a, t)
      | (.error e, _) => (.error e, s) := rfl

theorem on_handle (m : Raising σ ε α) (h : ε → Raising σ ε α) (s : σ) :
    (handle m h).on s = match m.on s with
      | (.ok a, t) => (.ok a, t)
      | (.error e, t) => (h e).on t := rfl

theorem on_ensuring (m : Raising σ ε α) (cleanup : Raising σ ε Unit) (s : σ) :
    (ensuring m cleanup).on s = match m.on s with
      | (r, t) => match cleanup.on t with
        | (.ok _, u) => (r, u)
        | (.error e, u) => (.error e, u) := rfl

theorem on_bind (m : Raising σ ε α) (f : α → Raising σ ε β) (s : σ) :
    (m >>= f).on s = match m.on s with
      | (.ok a, t) => (f a).on t
      | (.error e, t) => (.error e, t) := by
  change (ExceptT.bindCont f (m.on s).1 (m.on s).2 : Except ε β × σ) = _
  cases m.on s with
  | mk r t => cases r <;> rfl

theorem on_bind_ok {m : Raising σ ε α} {f : α → Raising σ ε β} {s t : σ} {a : α} (h : m.on s = (.ok a, t)) :
    (m >>= f).on s = (f a).on t := by
  rw [on_bind, h]

theorem on_bind_error {m : Raising σ ε α} {f : α → Raising σ ε β} {s t : σ} {e : ε} (h : m.on s = (.error e, t)) :
    (m >>= f).on s = (.error e, t) := by
  rw [on_bind, h]

theorem on_handle_ok {m : Raising σ ε α} {h : ε → Raising σ ε α} {s t : σ} {a : α} (hm : m.on s = (.ok a, t)) :
    (handle m h).on s = (.ok a, t) := by
  rw [on_handle, hm]

theorem on_handle_error {m : Raising σ ε α} {h : ε → Raising σ ε α} {s t : σ} {e : ε} (hm : m.on s = (.error e, t)) :
    (handle m h).on s = (h e).on t := by
  rw [on_handle, hm]

/-- A cleanup that does not raise leaves the outcome. -/
theorem on_ensuring_ok {m : Raising σ ε α} {cleanup : Raising σ ε Unit} {s t u : σ} {r : Except ε α} (hm : m.on s = (r, t))
    (hc : cleanup.on t = (.ok (), u)) : (ensuring m cleanup).on s = (r, u) := by
  rw [on_ensuring, hm]
  dsimp only
  rw [hc]

theorem on_map (f : α → β) (m : Raising σ ε α) (s : σ) : (f <$> m).on s = ((m.on s).1.map f, (m.on s).2) := by
  rw [map_eq_pure_bind, on_bind]
  cases m.on s with
  | mk r t => cases r <;> rfl

/-- From `P`, the computation ends in `Q`, or raises in `E`. -/
def Spec (P : σ → Prop) (m : Raising σ ε α) (Q : α → σ → Prop) (E : σ → Prop) : Prop :=
  ∀ s, P s → match m.on s with
    | (.ok a, t) => Q a t
    | (.error _, t) => E t

variable {P P' : σ → Prop} {Q : β → σ → Prop} {E : σ → Prop}

theorem Spec.pure {b : β} (h : ∀ s, P s → Q b s) : Spec (ε := ε) P (Pure.pure b) Q E := h

theorem Spec.throw {e : ε} (h : ∀ s, P s → E s) :
    Spec P (MonadExcept.throw e : Raising σ ε β) Q E := h

theorem Spec.bind {R : α → σ → Prop} {m : Raising σ ε α} {f : α → Raising σ ε β}
    (hm : Spec P m R E) (hf : ∀ a, Spec (R a) (f a) Q E) : Spec P (m >>= f) Q E := by
  intro s hs
  have h := hm s hs
  rw [on_bind]
  cases hr : m.on s with
  | mk r t =>
    rw [hr] at h
    cases r with
    | ok a => exact hf a t h
    | error e => exact h

theorem Spec.any (m : Raising σ ε β) : Spec P m (fun _ _ => True) fun _ => True := by
  intro s _
  cases m.on s with
  | mk r t => cases r <;> trivial

theorem Spec.read {Q : σ → σ → Prop} (h : ∀ s, P s → Q s s) : Spec (ε := ε) P Raising.read Q E := h

theorem Spec.write {f : σ → σ} {Q : Unit → σ → Prop} (h : ∀ s, P s → Q () (f s)) :
    Spec (ε := ε) P (Raising.write f) Q E := h

theorem Spec.lift {x : Except ε β} (hok : ∀ b s, x = .ok b → P s → Q b s) (herr : ∀ s, P s → E s) :
    Spec P (Raising.lift x) Q E := by
  intro s hs
  cases x with
  | ok b => exact hok b s rfl hs
  | error e => exact herr s hs

theorem Spec.weaken {m : Raising σ ε β} (h : Spec P' m Q E) (hP : ∀ s, P s → P' s) : Spec P m Q E :=
  fun s hs => h s (hP s hs)

theorem Spec.mono {m : Raising σ ε β} {E' : σ → Prop} (h : Spec P m Q E) (hE : ∀ s, E s → E' s) :
    Spec P m Q E' := by
  intro s hs
  have hm := h s hs
  cases hr : m.on s with
  | mk r t =>
    rw [hr] at hm
    cases r with
    | ok a => exact hm
    | error e => exact hE t hm

theorem Spec.imp {m : Raising σ ε β} {Q' : β → σ → Prop} {E' : σ → Prop} (h : Spec P m Q E)
    (hQ : ∀ b s, Q b s → Q' b s) (hE : ∀ s, E s → E' s) : Spec P m Q' E' := by
  intro s hs
  have hm := h s hs
  cases hr : m.on s with
  | mk r t =>
    rw [hr] at hm
    cases r with
    | ok a => exact hQ a t hm
    | error e => exact hE t hm

theorem Spec.on_ok {m : Raising σ ε β} (h : Spec P m Q E) {s t : σ} {b : β} (hs : P s) (hr : m.on s = (.ok b, t)) : Q b t := by
  have hm := h s hs
  rw [hr] at hm
  exact hm

theorem Spec.on_error {m : Raising σ ε β} (h : Spec P m Q E) {s t : σ} {e : ε} (hs : P s) (hr : m.on s = (.error e, t)) :
    E t := by
  have hm := h s hs
  rw [hr] at hm
  exact hm

/-- What holds of the state left, raised or not. -/
theorem Spec.final {m : Raising σ ε β} {I : σ → Prop} (h : Spec P m Q E) (hE : ∀ r s, Q r s → I s)
    (hI : ∀ s, E s → I s) {s : σ} (hs : P s) : I (m.on s).2 := by
  have hm := h s hs
  cases hr : m.on s with
  | mk r t =>
    rw [hr] at hm
    cases r with
    | ok a => exact hE a t hm
    | error e => exact hI t hm

/-- To fix the state a computation starts from. -/
theorem Spec.of_eq {m : Raising σ ε β} (h : ∀ s, P s → Spec (· = s) m Q E) : Spec P m Q E :=
  fun s hs => h s hs s rfl

theorem Spec.bind_read {s : σ} {f : σ → Raising σ ε β} (h : Spec (· = s) (f s) Q E) :
    Spec (· = s) (Raising.read >>= f) Q E := by
  intro t ht
  subst ht
  exact h t rfl

theorem Spec.bind_lift {x : Except ε α} {f : α → Raising σ ε β}
    (hok : ∀ a, x = .ok a → Spec P (f a) Q E) (herr : ∀ s, P s → E s) :
    Spec P (Raising.lift x >>= f) Q E := by
  cases x with
  | ok a => exact hok a rfl
  | error e => exact herr

/-- A transaction that raises leaves the state it found. -/
theorem Spec.transaction {m : Raising σ ε β} {F : σ → Prop} (h : Spec P m Q F) :
    Spec P (Raising.transaction m) Q P := by
  intro s hs
  have hm := h s hs
  rw [on_transaction]
  cases hr : m.on s with
  | mk r t =>
    rw [hr] at hm
    cases r with
    | ok a => exact hm
    | error e => exact hs

/-- The handler starts where the computation raised. -/
theorem Spec.handle {m : Raising σ ε β} {h : ε → Raising σ ε β} {F : σ → Prop} (hm : Spec P m Q F)
    (hh : ∀ e, Spec F (h e) Q E) : Spec P (Raising.handle m h) Q E := by
  intro s hs
  have hr := hm s hs
  rw [on_handle]
  cases hon : m.on s with
  | mk r t =>
    rw [hon] at hr
    cases r with
    | ok a => exact hr
    | error e => exact hh e t hr

/-- The cleanup is run after either outcome, and may raise itself. -/
theorem Spec.ensuring {m : Raising σ ε β} {cleanup : Raising σ ε Unit} {R : β → σ → Prop} {F : σ → Prop}
    (hm : Spec P m R F) (hok : ∀ b, Spec (R b) cleanup (fun _ => Q b) E) (herr : Spec F cleanup (fun _ => E) E) :
    Spec P (Raising.ensuring m cleanup) Q E := by
  intro s hs
  have hr := hm s hs
  rw [on_ensuring]
  cases hon : m.on s with
  | mk r t =>
    rw [hon] at hr
    dsimp only
    cases r with
    | ok b =>
      have hclean := hok b t hr
      cases hc : cleanup.on t with
      | mk c u =>
        rw [hc] at hclean
        cases c with
        | ok _ => exact hclean
        | error e => exact hclean
    | error e =>
      have hclean := herr t hr
      cases hc : cleanup.on t with
      | mk c u =>
        rw [hc] at hclean
        cases c with
        | ok _ => exact hclean
        | error e => exact hclean

end Raising
end XgenSdk

/-! An operation that is tried again after some of its exceptions, a bounded
number of times. -/
namespace XgenSdk.Raising
variable {σ ε α : Type} {again : ε → Bool} {m : Raising σ ε α} {s t u : σ} {e : ε} {k n : Nat}

/-- One try, and `n` more as long as the exceptions say so. -/
def retry (again : ε → Bool) (m : Raising σ ε α) : Nat → Raising σ ε α
  | 0 => m
  | n+1 => handle m fun e => if again e then retry again m n else throw e

/-- The first `k` tries raise exceptions that are tried again. -/
inductive Tries (again : ε → Bool) (m : Raising σ ε α) : Nat → σ → σ → Prop where
  | none (s : σ) : Tries again m 0 s s
  | more {k : Nat} {s t u : σ} {e : ε} (hm : m.on s = (.error e, t)) (he : again e = true) (h : Tries again m k t u) :
      Tries again m (k+1) s u

theorem retry_error_again (hm : m.on s = (.error e, t)) (he : again e = true) :
    (retry again m (n+1)).on s = (retry again m n).on t := by
  rw [retry, on_handle, hm]
  simp only [he, if_true]

theorem retry_tries (h : Tries again m k s t) (hk : k ≤ n) :
    (retry again m n).on s = (retry again m (n-k)).on t := by
  induction h generalizing n with
  | none s => rfl
  | @more k s t u e hm he _ ih =>
    cases n with
    | zero => exact absurd hk (by omega)
    | succ n =>
      rw [retry_error_again hm he, ih (by omega)]
      congr 2
      omega

theorem retry_stop (h : ∀ e, (m.on s).1 = .error e → again e = false) :
    (retry again m n).on s = m.on s := by
  cases n with
  | zero => rfl
  | succ n =>
    rw [retry, on_handle]
    cases hm : m.on s with
    | mk r t =>
      cases r with
      | ok a => rfl
      | error e =>
        have he : again e = false := h e (congrArg Prod.fst hm)
        simp only [he, Bool.false_eq_true, if_false, on_throw]

/-- A try that ends the loop decides the result. -/
theorem retry_result (h : Tries again m k s t) (hk : k ≤ n)
    (hlast : k = n ∨ ∀ e, (m.on t).1 = .error e → again e = false) :
    (retry again m n).on s = m.on t := by
  rw [retry_tries h hk]
  obtain rfl | hstop := hlast
  · rw [Nat.sub_self]
    rfl
  · exact retry_stop hstop

/-- Some try ends the loop: the last one, or one whose exception is not tried again. -/
theorem retry_ends (again : ε → Bool) (m : Raising σ ε α) (n : Nat) (s : σ) :
    ∃ k t, k ≤ n ∧ Tries again m k s t ∧ (k = n ∨ ∀ e, (m.on t).1 = .error e → again e = false) := by
  induction n generalizing s with
  | zero => exact ⟨0, s, Nat.le_refl 0, .none s, .inl rfl⟩
  | succ n ih =>
    cases hm : m.on s with
    | mk r t =>
      cases r with
      | ok a => exact ⟨0, s, Nat.zero_le _, .none s, .inr fun e he => by simp [hm] at he⟩
      | error e =>
        cases he : again e with
        | false =>
          refine ⟨0, s, Nat.zero_le _, .none s, .inr fun e' he' => ?_⟩
          rw [hm] at he'
          cases he'
          exact he
        | true =>
          obtain ⟨k, u, hk, htries, hlast⟩ := ih t
          refine ⟨k+1, u, by omega, .more hm he htries, ?_⟩
          obtain rfl | hstop := hlast
          · exact .inl rfl
          · exact .inr hstop

/-- An exception that changes nothing comes out, however often it is tried again. -/
theorem retry_stuck (h : m.on s = (.error e, s)) : (retry again m n).on s = (.error e, s) := by
  induction n with
  | zero => exact h
  | succ n ih =>
    cases he : again e with
    | true => rw [retry_error_again h he, ih]
    | false =>
      rw [retry_stop, h]
      intro e' he'
      rw [h] at he'
      cases he'
      exact he

end XgenSdk.Raising
