import Mathlib.Logic.Function.Basic
import Mathlib.Data.List.Basic

/-! Programs that act on a shared state one statement at a time, and any number
of them interleaved. A program is proved by an outline: an assertion before
each statement that no move of the others can break. -/
namespace XgenSdk.Interleave

/-! Programs. -/
section Programs
variable {S : Type} {Reply : S → Type} {ε α β : Type}

/-- What is left of a program: nothing, an exception, or a statement whose
reply decides what follows. -/
inductive Prog (Reply : S → Type) (ε α : Type) where
  | done (a : α)
  | raise (e : ε)
  | act (s : S) (next : Reply s → Prog Reply ε α)

namespace Prog

def bind : Prog Reply ε α → (α → Prog Reply ε β) → Prog Reply ε β
  | done a, f => f a
  | raise e, _ => raise e
  | act s next, f => act s fun r => (next r).bind f

instance : Monad (Prog Reply ε) where
  pure := done
  bind := bind

def stmt (s : S) : Prog Reply ε (Reply s) := act s done

def lift : Except ε α → Prog Reply ε α
  | .error e => raise e
  | .ok a => done a

def void (p : Prog Reply ε α) : Prog Reply ε Unit := p.bind fun _ => done ()

@[simp] theorem done_bind (a : α) (f : α → Prog Reply ε β) : (done a >>= f) = f a := rfl

@[simp] theorem raise_bind (e : ε) (f : α → Prog Reply ε β) :
    ((raise e : Prog Reply ε α) >>= f) = raise e := rfl

@[simp] theorem act_bind (s : S) (next : Reply s → Prog Reply ε α) (f : α → Prog Reply ε β) :
    (act s next >>= f) = act s fun r => next r >>= f := rfl

@[simp] theorem stmt_bind (s : S) (f : Reply s → Prog Reply ε β) : (stmt s >>= f) = act s f := rfl

@[simp] theorem pure_eq_done (a : α) : (pure a : Prog Reply ε α) = done a := rfl

theorem bind_eq (p : Prog Reply ε α) (f : α → Prog Reply ε β) : (p >>= f) = p.bind f := rfl

theorem bind_assoc {γ : Type} (p : Prog Reply ε α) (f : α → Prog Reply ε β)
    (g : β → Prog Reply ε γ) : (p.bind f).bind g = p.bind fun a => (f a).bind g := by
  induction p with
  | done a => rfl
  | raise e => rfl
  | act s next ih =>
    simp only [bind]
    exact congrArg (act s) (funext ih)

/-- Some reply leads to the statement `s`. -/
def MayIssue (s : S) : Prog Reply ε α → Prop
  | done _ => False
  | raise _ => False
  | act t next => t = s ∨ ∃ r, (next r).MayIssue s

/-- Every statement satisfies `ok`, whatever the replies. -/
def Only (ok : S → Prop) : Prog Reply ε α → Prop
  | done _ => True
  | raise _ => True
  | act t next => ok t ∧ ∀ r, (next r).Only ok

theorem Only.bind {ok : S → Prop} {p : Prog Reply ε α} {f : α → Prog Reply ε β}
    (hp : p.Only ok) (hf : ∀ a, (f a).Only ok) : (p >>= f).Only ok := by
  induction p with
  | done a => exact hf a
  | raise e => trivial
  | act s next ih => exact ⟨hp.1, fun r => ih r (hp.2 r)⟩

theorem Only.void {ok : S → Prop} {p : Prog Reply ε α} (hp : p.Only ok) : p.void.Only ok :=
  hp.bind fun _ => trivial

/-- No exception, whatever the replies. -/
def Total : Prog Reply ε α → Prop
  | done _ => True
  | raise _ => False
  | act _ next => ∀ r, (next r).Total

theorem Total.bind {p : Prog Reply ε α} {f : α → Prog Reply ε β} (hp : p.Total)
    (hf : ∀ a, (f a).Total) : (p >>= f).Total := by
  induction p with
  | done a => exact hf a
  | raise e => exact hp.elim
  | act s next ih => exact fun r => ih r (hp r)

/-- Run alone; `drift` is what happens to the state before each statement. -/
def alone {σ : Type} (exec : (s : S) → σ → Reply s × σ) (drift : Nat → σ → σ) :
    Nat → Prog Reply ε α → σ → Except ε α × σ
  | _, done a, x => (.ok a, x)
  | _, raise e, x => (.error e, x)
  | n, act s next, x => alone exec drift (n+1) (next (exec s (drift n x)).1) (exec s (drift n x)).2

theorem alone_total {σ : Type} (exec : (s : S) → σ → Reply s × σ) (drift : Nat → σ → σ) (n : Nat)
    {p : Prog Reply ε α} (hp : p.Total) (x : σ) : ∃ a, (alone exec drift n p x).1 = .ok a := by
  induction p generalizing n x with
  | done a => exact ⟨a, rfl⟩
  | raise e => exact hp.elim
  | act s next ih => exact ih _ (n+1) (hp _) _

/-- What every statement and every drift keeps, the run keeps. -/
theorem alone_only {σ : Type} (exec : (s : S) → σ → Reply s × σ) (drift : Nat → σ → σ)
    {ok : S → Prop} {R : σ → σ → Prop} (hrefl : ∀ x, R x x)
    (htrans : ∀ x y z, R x y → R y z → R x z) (hdrift : ∀ n x, R x (drift n x))
    (hexec : ∀ s, ok s → ∀ x, R x (exec s x).2) {p : Prog Reply ε α} (hp : p.Only ok) (n : Nat)
    (x : σ) : R x (alone exec drift n p x).2 := by
  induction p generalizing n x with
  | done a => exact hrefl x
  | raise e => exact hrefl x
  | act s next ih =>
    have hs := htrans _ _ _ (hdrift n x) (hexec s hp.1 (drift n x))
    exact htrans _ _ _ hs (ih _ (hp.2 _) (n+1) _)

end Prog
end Programs

/-! Configurations and schedules. -/
section Runs
variable {ι S E σ ε α : Type} {Reply : S → Type} [DecidableEq ι]

structure Thread (Reply : S → Type) (ε α : Type) where
  issued : List S
  rest : Prog Reply ε α

structure Config (ι σ : Type) (Reply : S → Type) (ε α : Type) where
  shared : σ
  threads : ι → Thread Reply ε α

inductive Move (ι E : Type) where
  | issue (i : ι)
  | env (e : E)

variable (exec : ι → (s : S) → σ → Reply s × σ) (env : E → σ → σ)

/-- One statement of one thread, or one event of the environment. -/
def Config.move (c : Config ι σ Reply ε α) : Move ι E → Config ι σ Reply ε α
  | .issue i =>
    match (c.threads i).rest with
    | .act s next =>
      let r := exec i s c.shared
      ⟨r.2, Function.update c.threads i ⟨(c.threads i).issued ++ [s], next r.1⟩⟩
    | _ => c
  | .env e => ⟨env e c.shared, c.threads⟩

def play (c : Config ι σ Reply ε α) (ms : List (Move ι E)) : Config ι σ Reply ε α :=
  ms.foldl (Config.move exec env) c

/-- Every move of the schedule satisfies `fair` where it is made. -/
def Legal (fair : Config ι σ Reply ε α → Move ι E → Prop) :
    Config ι σ Reply ε α → List (Move ι E) → Prop
  | _, [] => True
  | c, m :: ms => fair c m ∧ Legal fair (c.move exec env m) ms

theorem Legal.append {fair : Config ι σ Reply ε α → Move ι E → Prop} {c : Config ι σ Reply ε α}
    {ms ns : List (Move ι E)} (h : Legal exec env fair c (ms ++ ns)) :
    Legal exec env fair c ms ∧ Legal exec env fair (play exec env c ms) ns := by
  induction ms generalizing c with
  | nil => exact ⟨trivial, h⟩
  | cons m ms ih =>
    obtain ⟨hm, hr⟩ := h
    obtain ⟨h1, h2⟩ := ih hr
    exact ⟨⟨hm, h1⟩, h2⟩

theorem Legal.of_forall {fair : Config ι σ Reply ε α → Move ι E → Prop} (h : ∀ c m, fair c m)
    (c : Config ι σ Reply ε α) (ms : List (Move ι E)) : Legal exec env fair c ms := by
  induction ms generalizing c with
  | nil => trivial
  | cons m ms ih => exact ⟨h c m, ih _⟩

theorem Legal.mono {fair fair' : Config ι σ Reply ε α → Move ι E → Prop}
    {c : Config ι σ Reply ε α} {ms : List (Move ι E)} (h : Legal exec env fair c ms)
    (hf : ∀ c m, fair c m → fair' c m) : Legal exec env fair' c ms := by
  induction ms generalizing c with
  | nil => trivial
  | cons m ms ih => exact ⟨hf c m h.1, ih h.2⟩

instance Legal.decide {fair : Config ι σ Reply ε α → Move ι E → Prop}
    [∀ c m, Decidable (fair c m)] (c : Config ι σ Reply ε α) (ms : List (Move ι E)) :
    Decidable (Legal exec env fair c ms) :=
  match ms with
  | [] => instDecidableTrue
  | m :: ms => @instDecidableAnd _ _ inferInstance (Legal.decide (c.move exec env m) ms)

theorem play_append (c : Config ι σ Reply ε α) (ms ns : List (Move ι E)) :
    play exec env c (ms ++ ns) = play exec env (play exec env c ms) ns := List.foldl_append

/-! Proof outlines. -/

/-- What a proof shows of all threads: an invariant, and what each thread's
statements do to the state (`guar`). What it may assume of every move is `ok`,
and of the moves of the others while a thread stands where it does, `extra`. -/
structure Discipline (ι σ : Type) (Reply : S → Type) (ε α : Type) where
  inv : σ → Prop
  guar : ι → σ → σ → Prop
  ok : σ → σ → Prop
  extra : ι → Thread Reply ε α → σ → σ → Prop

namespace Discipline
variable (D : Discipline ι σ Reply ε α)

/-- A move of the others while thread `i` stands at `t`. -/
def Others (i : ι) (t : Thread Reply ε α) (x y : σ) : Prop :=
  D.inv x ∧ D.inv y ∧ D.ok x y ∧ D.extra i t x y ∧
    ((∃ e, y = env e x) ∨ ∃ j, j ≠ i ∧ D.guar j x y)

def Stable (i : ι) (t : Thread Reply ε α) (P : σ → Prop) : Prop :=
  ∀ x y, D.Others env i t x y → P x → P y

def Outline (i : ι) : List S → (σ → Prop) → Prog Reply ε α → Prop
  | _, _, .done _ => True
  | _, _, .raise _ => True
  | issued, P, .act s next => ∀ x, D.inv x → P x → D.ok x (exec i s x).2 →
    D.inv (exec i s x).2 ∧ D.guar i x (exec i s x).2 ∧ ∃ Q : σ → Prop, Q (exec i s x).2 ∧
      D.Stable env i ⟨issued ++ [s], next (exec i s x).1⟩ Q ∧
      Outline i (issued ++ [s]) Q (next (exec i s x).1)

/-- Every thread stands at some assertion of its outline. -/
def Holds (c : Config ι σ Reply ε α) : Prop :=
  D.inv c.shared ∧ ∀ i, ∃ P : σ → Prop, P c.shared ∧ D.Stable env i (c.threads i) P ∧
    D.Outline exec env i (c.threads i).issued P (c.threads i).rest

/-- The moves that keep to what the discipline assumes. -/
def Fair (c : Config ι σ Reply ε α) (m : Move ι E) : Prop :=
  D.ok c.shared (c.move exec env m).shared ∧
    ∀ j, m ≠ .issue j → D.extra j (c.threads j) c.shared (c.move exec env m).shared

/-- What one move does to the state. -/
def Does (x y : σ) : Prop := x = y ∨ (∃ e, y = env e x) ∨ ∃ i, D.guar i x y

variable {D} {exec env}

theorem Holds.move {c : Config ι σ Reply ε α} (h : D.Holds exec env c)
    (henv : ∀ x e, D.inv x → D.ok x (env e x) → D.inv (env e x)) {m : Move ι E}
    (hf : D.Fair exec env c m) :
    D.Holds exec env (c.move exec env m) ∧ D.Does env c.shared (c.move exec env m).shared := by
  obtain ⟨hinv, hthreads⟩ := h
  obtain ⟨hok, hextra⟩ := hf
  cases m with
  | env e =>
    have hinv' := henv c.shared e hinv hok
    refine ⟨⟨hinv', ?_⟩, Or.inr (Or.inl ⟨e, rfl⟩)⟩
    intro j
    obtain ⟨P, hP, hS, hO⟩ := hthreads j
    exact ⟨P, hS _ _ ⟨hinv, hinv', hok, hextra j (by simp), Or.inl ⟨e, rfl⟩⟩ hP, hS, hO⟩
  | issue i =>
    obtain ⟨P, hP, hS, hO⟩ := hthreads i
    cases hr : (c.threads i).rest with
    | done a =>
      have hc : c.move exec env (.issue i) = c := by simp only [Config.move, hr]
      rw [hc]
      exact ⟨⟨hinv, hthreads⟩, Or.inl rfl⟩
    | raise e =>
      have hc : c.move exec env (.issue i) = c := by simp only [Config.move, hr]
      rw [hc]
      exact ⟨⟨hinv, hthreads⟩, Or.inl rfl⟩
    | act s next =>
      have hc : c.move exec env (.issue i) = ⟨(exec i s c.shared).2, Function.update c.threads i
          ⟨(c.threads i).issued ++ [s], next (exec i s c.shared).1⟩⟩ := by
        simp only [Config.move, hr]
      rw [hc] at hok hextra ⊢
      rw [hr] at hO
      obtain ⟨hinv', hguar, Q, hQ, hSQ, hOQ⟩ := hO c.shared hinv hP hok
      refine ⟨⟨hinv', ?_⟩, Or.inr (Or.inr ⟨i, hguar⟩)⟩
      intro j
      by_cases hj : j = i
      · subst hj
        simp only [Function.update_self]
        exact ⟨Q, hQ, hSQ, hOQ⟩
      · obtain ⟨P', hP', hS', hO'⟩ := hthreads j
        simp only [Function.update_of_ne hj]
        exact ⟨P', hS' _ _ ⟨hinv, hinv', hok, hextra j fun he => hj (Move.issue.inj he).symm,
          Or.inr ⟨i, fun he => hj he.symm, hguar⟩⟩ hP', hS', hO'⟩

/-- Every state of a legal run satisfies the invariant. -/
theorem Holds.play {c : Config ι σ Reply ε α} (h : D.Holds exec env c)
    (henv : ∀ x e, D.inv x → D.ok x (env e x) → D.inv (env e x)) {ms : List (Move ι E)}
    (hl : Legal exec env (D.Fair exec env) c ms) : D.Holds exec env (play exec env c ms) := by
  induction ms generalizing c with
  | nil => exact h
  | cons m ms ih => exact ih (h.move henv hl.1).1 hl.2

/-- What every move does adds up over a legal run. -/
theorem Holds.play_rel {c : Config ι σ Reply ε α} (h : D.Holds exec env c)
    (henv : ∀ x e, D.inv x → D.ok x (env e x) → D.inv (env e x)) {ms : List (Move ι E)}
    (hl : Legal exec env (D.Fair exec env) c ms) {T : σ → σ → Prop} (hrefl : ∀ x, T x x)
    (htrans : ∀ x y z, T x y → T y z → T x z)
    (hT : ∀ x y, D.inv x → D.Does env x y → T x y) :
    T c.shared (Interleave.play exec env c ms).shared := by
  induction ms generalizing c with
  | nil => exact hrefl _
  | cons m ms ih =>
    obtain ⟨h', hd⟩ := h.move henv hl.1
    exact htrans _ _ _ (hT _ _ h.1 hd) (ih h' hl.2)

/-! Rules for outlines. -/

omit [DecidableEq ι] in
theorem Outline.weaken {i : ι} {issued : List S} {P P' : σ → Prop} {p : Prog Reply ε α}
    (h : D.Outline exec env i issued P' p) (hP : ∀ x, P x → P' x) :
    D.Outline exec env i issued P p := by
  cases p with
  | done a => trivial
  | raise e => trivial
  | act s next => exact fun x hx hPx hok => h x hx (hP x hPx) hok

omit [DecidableEq ι] in
theorem stable_true (i : ι) (t : Thread Reply ε α) : D.Stable env i t fun _ => True :=
  fun _ _ _ _ => trivial

omit [DecidableEq ι] in
/-- A program whose statements all keep the discipline by themselves. -/
theorem Outline.of_only {i : ι} {issued : List S} {P : σ → Prop} {p : Prog Reply ε α}
    {ok : S → Prop} (hp : p.Only ok)
    (h : ∀ s, ok s → ∀ x, D.inv x → D.ok x (exec i s x).2 →
      D.inv (exec i s x).2 ∧ D.guar i x (exec i s x).2) :
    D.Outline exec env i issued P p := by
  induction p generalizing issued P with
  | done a => trivial
  | raise e => trivial
  | act s next ih =>
    intro x hx _ hok
    obtain ⟨hinv, hguar⟩ := h s hp.1 x hx hok
    exact ⟨hinv, hguar, fun _ => True, trivial, stable_true i _, ih _ (hp.2 _)⟩

omit [DecidableEq ι] in
/-- A statement that keeps the discipline by itself, under an assertion that
it and the others keep. -/
theorem Outline.act {i : ι} {issued : List S} {P : σ → Prop} {s : S}
    {next : Reply s → Prog Reply ε α} (Q : Reply s → σ → Prop)
    (h : ∀ x, D.inv x → P x → D.ok x (exec i s x).2 →
      D.inv (exec i s x).2 ∧ D.guar i x (exec i s x).2 ∧ Q (exec i s x).1 (exec i s x).2)
    (hS : ∀ r, D.Stable env i ⟨issued ++ [s], next r⟩ (Q r))
    (hO : ∀ r, D.Outline exec env i (issued ++ [s]) (Q r) (next r)) :
    D.Outline exec env i issued P (.act s next) := by
  intro x hx hP hok
  obtain ⟨hinv, hguar, hQ⟩ := h x hx hP hok
  exact ⟨hinv, hguar, Q _, hQ, hS _, hO _⟩

end Discipline
end Runs

end XgenSdk.Interleave

/-! The calls of a program with their answers, whatever the answers are. -/
namespace XgenSdk.Interleave.Prog
variable {S : Type} {Reply : S → Type} {ε α β : Type}

abbrev Trace (Reply : S → Type) : Type := List ((s : S) × Reply s)

/-- With these calls and answers the program gives the value. -/
def Gives : Prog Reply ε α → Trace Reply → α → Prop
  | done b, t, a => t = [] ∧ a = b
  | raise _, _, _ => False
  | act s next, t, a => ∃ r rest, t = ⟨s, r⟩ :: rest ∧ (next r).Gives rest a

theorem gives_bind {p : Prog Reply ε α} {f : α → Prog Reply ε β} {t : Trace Reply} {b : β} (h : (p.bind f).Gives t b) :
    ∃ first a rest, p.Gives first a ∧ (f a).Gives rest b ∧ t = first ++ rest := by
  induction p generalizing t with
  | done a => exact ⟨[], a, t, ⟨rfl, rfl⟩, h, rfl⟩
  | raise e => exact h.elim
  | act s next ih =>
    obtain ⟨r, rest, rfl, hrest⟩ := h
    obtain ⟨first, a, last, hp, hf, rfl⟩ := ih r hrest
    exact ⟨⟨s, r⟩ :: first, a, last, ⟨r, first, rfl, hp⟩, hf, rfl⟩

/-- A program calls nothing else than what it may call. -/
theorem Only.gives {ok : S → Prop} {p : Prog Reply ε α} (h : p.Only ok) {t : Trace Reply} {a : α} (ht : p.Gives t a) :
    ∀ call ∈ t, ok call.1 := by
  induction p generalizing t with
  | done b =>
    obtain ⟨rfl, -⟩ := ht
    exact fun call hcall => absurd hcall List.not_mem_nil
  | raise e => exact ht.elim
  | act s next ih =>
    obtain ⟨r, rest, rfl, hrest⟩ := ht
    intro call hcall
    obtain rfl | hcall := List.mem_cons.mp hcall
    · exact h.1
    · exact ih r (h.2 r) hrest call hcall

/-- The run of a program that is answered by a function. -/
def replay (answer : (s : S) → Reply s) : Prog Reply Empty α → Trace Reply × α
  | done a => ([], a)
  | act s next => (⟨s, answer s⟩ :: (replay answer (next (answer s))).1, (replay answer (next (answer s))).2)

theorem gives_replay (answer : (s : S) → Reply s) (p : Prog Reply Empty α) : p.Gives (p.replay answer).1 (p.replay answer).2 := by
  induction p with
  | done a => exact ⟨rfl, rfl⟩
  | raise e => exact e.elim
  | act s next ih => exact ⟨answer s, _, rfl, ih (answer s)⟩

end XgenSdk.Interleave.Prog

/-! Contracts for the parts of interleaved programs that carry a memory of their
own: from an assertion about memory and shared state, what a part establishes
for whatever follows it. -/
namespace XgenSdk.Interleave
variable {ι S E σ ε γ μ α β : Type} {Reply : S → Type}
variable {exec : ι → (s : S) → σ → Reply s × σ} {env : E → σ → σ} {D : Discipline ι σ Reply ε γ} {i : ι}

namespace Discipline
variable (D) (exec) (env) (i)

/-- Whatever follows the part from the second assertion, follows with it from the first. -/
def Contract (P : μ → σ → Prop) (part : StateT μ (Prog Reply ε) α) (Q : α → μ → σ → Prop) : Prop :=
  ∀ m issued (rest : α × μ → Prog Reply ε γ),
    (∀ a m' issued', D.Outline exec env i issued' (Q a m') (rest (a, m'))) →
      D.Outline exec env i issued (P m) ((part m).bind rest)

/-- No move of the others breaks the assertion, wherever the thread stands. -/
def Lasting (P : σ → Prop) : Prop := ∀ t, D.Stable env i t P

variable {D} {exec} {env} {i}
variable {P P' : μ → σ → Prop} {Q Q' : α → μ → σ → Prop} {R : β → μ → σ → Prop}

theorem Contract.pure {a : α} (h : ∀ m x, P m x → Q a m x) :
    D.Contract exec env i P (Pure.pure a : StateT μ (Prog Reply ε) α) Q :=
  fun m issued _ hrest => (hrest a m issued).weaken (h m)

theorem Contract.bind {part : StateT μ (Prog Reply ε) α} {next : α → StateT μ (Prog Reply ε) β}
    (hpart : D.Contract exec env i P part Q) (hnext : ∀ a, D.Contract exec env i (Q a) (next a) R) :
    D.Contract exec env i P (part >>= next) R := by
  intro m issued rest hrest
  have hassoc : ((part >>= next) m).bind rest = (part m).bind fun p => (next p.1 p.2).bind rest :=
    Prog.bind_assoc _ _ _
  rw [hassoc]
  exact hpart m issued _ fun a m' issued' => hnext a m' issued' rest hrest

theorem Contract.get {Q : μ → μ → σ → Prop} (h : ∀ m x, P m x → Q m m x) :
    D.Contract exec env i P (MonadState.get : StateT μ (Prog Reply ε) μ) Q :=
  fun m issued _ hrest => (hrest m m issued).weaken (h m)

theorem Contract.modify {f : μ → μ} {Q : PUnit → μ → σ → Prop} (h : ∀ m x, P m x → Q () (f m) x) :
    D.Contract exec env i P (modify f : StateT μ (Prog Reply ε) PUnit) Q :=
  fun m issued _ hrest => (hrest () (f m) issued).weaken (h m)

theorem Contract.imp {part : StateT μ (Prog Reply ε) α} (h : D.Contract exec env i P part Q)
    (hP : ∀ m x, P' m x → P m x) (hQ : ∀ a m x, Q a m x → Q' a m x) : D.Contract exec env i P' part Q' :=
  fun m issued rest hrest =>
    (h m issued rest fun a m' issued' => (hrest a m' issued').weaken (hQ a m')).weaken (hP m)

/-- To fix the memory a part starts from. -/
theorem Contract.of_memory {part : StateT μ (Prog Reply ε) α}
    (h : ∀ m, D.Contract exec env i (fun m' x => m' = m ∧ P m x) part Q) : D.Contract exec env i P part Q :=
  fun m issued rest hrest => (h m m issued rest hrest).weaken fun _ hx => ⟨rfl, hx⟩

/-- What must hold anyway may be assumed. -/
theorem Contract.assume {part : StateT μ (Prog Reply ε) α} {p : Prop} (hp : ∀ m x, P m x → p)
    (h : p → D.Contract exec env i P part Q) : D.Contract exec env i P part Q := by
  by_cases hcase : p
  · exact h hcase
  · intro m issued rest hrest
    have hnever : ∀ x, ¬ P m x := fun x hx => hcase (hp m x hx)
    cases (part m).bind rest with
    | done a => trivial
    | raise e => trivial
    | act s next => exact fun x _ hx => absurd hx (hnever x)

/-- One statement, with the assertion that its reply leaves. -/
theorem Contract.ask {s : S} {Q : Reply s → μ → σ → Prop}
    (h : ∀ m x, D.inv x → P m x → D.ok x (exec i s x).2 →
      D.inv (exec i s x).2 ∧ D.guar i x (exec i s x).2 ∧ Q (exec i s x).1 m (exec i s x).2)
    (hlasting : ∀ r m, D.Lasting env i (Q r m)) :
    D.Contract exec env i P (fun m => .act s fun r => .done (r, m) : StateT μ (Prog Reply ε) (Reply s)) Q :=
  fun m _ _ hrest => Outline.act (fun r => Q r m) (h m) (fun r => hlasting r m _) fun r => hrest r m _

/-- A thread that does one part and no more. -/
theorem Contract.outline {part : StateT μ (Prog Reply ε) γ} {P : μ → σ → Prop} {Q : γ → μ → σ → Prop}
    (h : D.Contract exec env i P part Q) (m : μ) (issued : List S) :
    D.Outline exec env i issued (P m) ((part m).bind fun p => .done p.1) :=
  h m issued _ fun _ _ _ => trivial

end Discipline

/-- Every state of a run whose moves are allowed satisfies the invariant, if an
allowed move is one the discipline assumes. -/
theorem Discipline.Holds.play_allowed [DecidableEq ι] {D : Discipline ι σ Reply ε γ} {c : Config ι σ Reply ε γ}
    (h : D.Holds exec env c) (henv : ∀ x e, D.inv x → D.ok x (env e x) → D.inv (env e x))
    {allowed : Config ι σ Reply ε γ → Move ι E → Prop}
    (hallowed : ∀ c m, D.inv c.shared → allowed c m → D.Fair exec env c m) {ms : List (Move ι E)}
    (hl : Legal exec env allowed c ms) : D.Holds exec env (Interleave.play exec env c ms) := by
  induction ms generalizing c with
  | nil => exact h
  | cons m ms ih => exact ih (h.move henv (hallowed c m h.1 hl.1)).1 hl.2

end XgenSdk.Interleave
