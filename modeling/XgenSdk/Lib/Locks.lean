import Mathlib.Data.List.Basic

/-! Computations of one thread that take locks which are not reentrant: to take
one that the thread holds already never returns, and nothing can catch it. -/
namespace XgenSdk.Locks

inductive Finish (L ε α : Type) where
  | returned (a : α)
  | raised (e : ε)
  | stuck (l : L)

theorem Finish.returned_ne {L ε α : Type} (a : α) (l : L) : (.returned a : Finish L ε α) ≠ .stuck l := by
  intro h
  cases h

theorem Finish.raised_ne {L ε α : Type} (e : ε) (l : L) : (.raised e : Finish L ε α) ≠ .stuck l := by
  intro h
  cases h

structure Thread (σ L : Type) where
  state : σ
  held : List L

def Locking (σ L ε α : Type) : Type := Thread σ L → Finish L ε α × Thread σ L

namespace Locking
variable {σ L ε α β : Type}

def on (m : Locking σ L ε α) (s : Thread σ L) : Finish L ε α × Thread σ L := m s

def ret (a : α) : Locking σ L ε α := fun s => (.returned a, s)

def andThen (m : Locking σ L ε α) (f : α → Locking σ L ε β) : Locking σ L ε β := fun s =>
  match m.on s with
  | (.returned a, t) => (f a).on t
  | (.raised e, t) => (.raised e, t)
  | (.stuck l, t) => (.stuck l, t)

instance monad : Monad (Locking σ L ε) where
  pure := ret
  bind := andThen

def raise (e : ε) : Locking σ L ε α := fun s => (.raised e, s)

def read : Locking σ L ε σ := fun s => (.returned s.state, s)

def write (f : σ → σ) : Locking σ L ε Unit := fun s => (.returned (), { s with state := f s.state })

/-- `try m except e: h e`. -/
def handle (m : Locking σ L ε α) (h : ε → Locking σ L ε α) : Locking σ L ε α := fun s =>
  match m.on s with
  | (.raised e, t) => (h e).on t
  | (.returned a, t) => (.returned a, t)
  | (.stuck l, t) => (.stuck l, t)

/-- `try: m finally: cleanup`. -/
def ensuring (m : Locking σ L ε α) (cleanup : Locking σ L ε Unit) : Locking σ L ε α :=
  (handle m fun e => cleanup >>= fun _ => raise e) >>= fun a => cleanup >>= fun _ => pure a

/-- From `P`, holding these locks, the computation is not stuck and holds them again when it ends. -/
def Safe (P : σ → Prop) (held : List L) (m : Locking σ L ε α) : Prop :=
  ∀ s, P s → (m.on ⟨s, held⟩).2.held = held ∧ ∀ l, (m.on ⟨s, held⟩).1 ≠ .stuck l

/-- Safe from any state. -/
abbrev Secure (held : List L) (m : Locking σ L ε α) : Prop := Safe (fun _ => True) held m

section Rules
variable {P P' : σ → Prop} {held : List L} {l : L}

theorem Safe.weaken {m : Locking σ L ε α} (h : Safe P' held m) (hP : ∀ s, P s → P' s) : Safe P held m :=
  fun s hs => h s (hP s hs)

theorem Secure.safe {m : Locking σ L ε α} (h : Secure held m) : Safe P held m := h.weaken fun _ _ => trivial

theorem safe_pure (a : α) : Safe P held (pure a : Locking σ L ε α) := fun _ _ => ⟨rfl, Finish.returned_ne a⟩

theorem safe_raise (e : ε) : Safe P held (raise e : Locking σ L ε α) := fun _ _ => ⟨rfl, Finish.raised_ne e⟩

theorem safe_write (f : σ → σ) : Safe P held (write f : Locking σ L ε Unit) := fun _ _ => ⟨rfl, Finish.returned_ne ()⟩

theorem safe_read : Safe P held (read : Locking σ L ε σ) := fun s _ => ⟨rfl, Finish.returned_ne s⟩

theorem on_bind (m : Locking σ L ε α) (f : α → Locking σ L ε β) (s : Thread σ L) : (m >>= f).on s =
    match m.on s with
    | (.returned a, t) => (f a).on t
    | (.raised e, t) => (.raised e, t)
    | (.stuck l, t) => (.stuck l, t) := rfl

theorem safe_bind {m : Locking σ L ε α} {f : α → Locking σ L ε β} (hm : Safe P held m) (hf : ∀ a, Secure held (f a)) :
    Safe P held (m >>= f) := by
  intro s hs
  obtain ⟨hheld, hstuck⟩ := hm s hs
  rw [on_bind]
  cases hon : m.on ⟨s, held⟩ with
  | mk r t =>
    rw [hon] at hheld hstuck
    cases t with
    | mk t h =>
      cases hheld
      cases r with
      | returned a => exact hf a t trivial
      | raised e => exact ⟨rfl, Finish.raised_ne e⟩
      | stuck l => exact absurd rfl (hstuck l)

theorem safe_ite {c : Prop} [Decidable c] {m m' : Locking σ L ε α} (hm : c → Safe P held m) (hm' : ¬ c → Safe P held m') :
    Safe P held (if c then m else m') := by
  by_cases hc : c
  · rw [if_pos hc]
    exact hm hc
  · rw [if_neg hc]
    exact hm' hc

/-- What is read is known in what follows. -/
theorem safe_read_bind {f : σ → Locking σ L ε β} (h : ∀ s, P s → Safe (· = s) held (f s)) : Safe P held (read >>= f) :=
  fun s hs => h s hs s rfl

theorem safe_handle {m : Locking σ L ε α} {h : ε → Locking σ L ε α} (hm : Safe P held m) (hh : ∀ e, Secure held (h e)) :
    Safe P held (handle m h) := by
  intro s hs
  obtain ⟨hheld, hstuck⟩ := hm s hs
  rw [on, handle]
  cases hon : m.on ⟨s, held⟩ with
  | mk r t =>
    rw [hon] at hheld hstuck
    cases t with
    | mk t h =>
      cases hheld
      cases r with
      | returned a => exact ⟨rfl, Finish.returned_ne a⟩
      | raised e => exact hh e t trivial
      | stuck l => exact absurd rfl (hstuck l)

theorem safe_ensuring {m : Locking σ L ε α} {cleanup : Locking σ L ε Unit} (hm : Safe P held m) (hc : Secure held cleanup) :
    Safe P held (ensuring m cleanup) :=
  safe_bind (safe_handle hm fun e => safe_bind hc fun _ => safe_raise e) fun a => safe_bind hc fun _ => safe_pure a

theorem handle_stuck {m : Locking σ L ε α} {h : ε → Locking σ L ε α} {s t : Thread σ L} (hm : m.on s = (.stuck l, t)) :
    (handle m h).on s = (.stuck l, t) := by
  rw [on, handle, hm]

end Rules

section Locks
variable [DecidableEq L] {P : σ → Prop} {held : List L} {l : L}

def acquire (l : L) : Locking σ L ε Unit := fun s =>
  if l ∈ s.held then (.stuck l, s) else (.returned (), { s with held := l :: s.held })

def release (l : L) : Locking σ L ε Unit := fun s => (.returned (), { s with held := s.held.erase l })

/-- `with lock: m`. -/
def withLock (l : L) (m : Locking σ L ε α) : Locking σ L ε α := fun s =>
  match (acquire l : Locking σ L ε Unit).on s with
  | (.stuck l, t) => (.stuck l, t)
  | (.raised e, t) => (.raised e, t)
  | (.returned _, t) => match m.on t with
    | (.stuck l, u) => (.stuck l, u)
    | (r, u) => (r, { u with held := u.held.erase l })

theorem acquire_free (h : l ∉ held) (s : σ) :
    (acquire l : Locking σ L ε Unit).on ⟨s, held⟩ = (.returned (), ⟨s, l :: held⟩) := if_neg h

theorem acquire_held (h : l ∈ held) (s : σ) : (acquire l : Locking σ L ε Unit).on ⟨s, held⟩ = (.stuck l, ⟨s, held⟩) := if_pos h

/-- A lock that the thread does not hold is taken and given back. -/
theorem safe_withLock {m : Locking σ L ε α} (hl : l ∉ held) (hm : Safe P (l :: held) m) : Safe P held (withLock l m) := by
  intro s hs
  obtain ⟨hheld, hstuck⟩ := hm s hs
  rw [on, withLock, acquire_free hl]
  dsimp only
  cases hon : m.on ⟨s, l :: held⟩ with
  | mk r t =>
    rw [hon] at hheld hstuck
    cases t with
    | mk t h =>
      cases hheld
      cases r with
      | returned a => exact ⟨List.erase_cons_head l held, Finish.returned_ne a⟩
      | raised e => exact ⟨List.erase_cons_head l held, Finish.raised_ne e⟩
      | stuck l => exact absurd rfl (hstuck l)

theorem withLock_held {m : Locking σ L ε α} (h : l ∈ held) (s : σ) :
    (withLock l m).on ⟨s, held⟩ = (.stuck l, ⟨s, held⟩) := by
  rw [on, withLock, acquire_held h]

theorem withLock_stuck {m : Locking σ L ε α} {l' : L} {s : σ} {t : Thread σ L} (hl : l ∉ held)
    (hm : m.on ⟨s, l :: held⟩ = (.stuck l', t)) : (withLock l m).on ⟨s, held⟩ = (.stuck l', t) := by
  rw [on, withLock, acquire_free hl]
  dsimp only
  rw [hm]

end Locks
end Locking
end XgenSdk.Locks
