import XgenSdk.ControlPolicy.Cfb
import XgenSdk.Lib.Checks
import Mathlib.Data.List.TakeWhile
import Mathlib.Data.List.Induction
import Mathlib.Data.List.Nodup

/-! The records that the tree is made of. It has one entry for each chain of pointers
from the root record on, so a record that two pointers name is read twice. -/
namespace XgenSdk.Cfb
open XgenSdk.Py XgenSdk.Checks

/-- The pointers of a directory record. -/
inductive Slot where
  | left
  | right
  | child
  deriving DecidableEq, Repr

def Slot.place : Slot → Nat
  | .left => 0x44
  | .right => 0x48
  | .child => 0x4C

/-- A child pointer counts in a storage only. -/
def Slot.counts (s : Slot) (record : Bytes) : Bool := s ≠ .child || (record[0x42]?).any holdsChildren

/-- The record that a pointer of a record names. -/
def names (records : List Bytes) (a : Nat) (s : Slot) : Option Nat := do
  let record ← records[a]?
  let c ← Struct.unpack 4 record s.place
  if s.counts record && c ≠ noStream then some c else none

/-- The pointers that are followed from the root record on, of which only the child pointer is. -/
inductive Followed (records : List Bytes) : Nat → Slot → Nat → Prop
  | root {c} : names records 0 .child = some c → Followed records 0 .child c
  | next {a s b t c} : Followed records a s b → names records b t = some c → Followed records b t c

/-- No two of these pointers name one record, and none names the root record. -/
def Unshared (records : List Bytes) : Prop :=
  ∀ a s b t c, Followed records a s c → Followed records b t c → a = b ∧ s = t ∧ c ≠ 0

mutual
/-- The records of a tree, one for each of its entries. -/
def Entry.sids : Entry → List Nat
  | .mk sid _ _ _ _ _ _ _ children => sid :: allSids children

def allSids : List Entry → List Nat
  | [] => []
  | e :: es => e.sids ++ allSids es
end

theorem mem_allSids {c : Nat} {es : List Entry} : c ∈ allSids es ↔ ∃ e ∈ es, c ∈ e.sids := by
  induction es with
  | nil => simp [allSids]
  | cons e es ih => rw [allSids, List.mem_append, ih, List.exists_mem_cons_iff]

theorem allSids_eq {f : Nat → Reading Entry} {g : Nat → List Nat} {sids : List Nat} {es : List Entry}
    (h : List.Forall₂ (fun c e => f c = .ok e) sids es) (hg : ∀ c e, f c = .ok e → g c = e.sids) :
    allSids es = sids.flatMap g := by
  induction h with
  | nil => rfl
  | cons he _ ih => rw [allSids, List.flatMap_cons, ih, hg _ _ he]

/-! Chains of pointers. -/

/-- Where the pointers lead from a record. -/
def follow (records : List Bytes) : Nat → List Slot → Option Nat
  | a, [] => some a
  | a, s :: p => (names records a s).bind fun b => follow records b p

theorem follow_append (records : List Bytes) (a : Nat) (p q : List Slot) :
    follow records a (p ++ q) = (follow records a p).bind fun b => follow records b q := by
  induction p generalizing a with
  | nil => rfl
  | cons s p ih =>
    rw [List.cons_append, follow, follow, Option.bind_assoc]
    exact congrArg _ (funext fun b => ih b)

theorem follow_concat (records : List Bytes) (a : Nat) (p : List Slot) (s : Slot) :
    follow records a (p ++ [s]) = (follow records a p).bind fun b => names records b s := by
  rw [follow_append]
  refine congrArg _ (funext fun b => ?_)
  cases hb : names records b s with
  | none => rw [follow, hb, Option.bind_none]
  | some c => rw [follow, hb, Option.bind_some, follow]

/-- The chain does not begin with a pointer to a sibling. -/
def Own (p : List Slot) : Prop := ∀ s ∈ p.head?, s = .child

theorem own_cons {s : Slot} {p : List Slot} : Own (s :: p) ↔ s = .child := by
  simp [Own]

theorem Own.of_concat {p : List Slot} {s : Slot} (h : Own (p ++ [s])) : Own p := by
  cases p with
  | nil => simp [Own]
  | cons t p => exact own_cons.mpr (own_cons.mp h)

/-- The followed pointers are the last ones of chains from the root. -/
theorem followed_iff {records : List Bytes} {a : Nat} {s : Slot} {c : Nat} : Followed records a s c ↔
    ∃ p, Own (p ++ [s]) ∧ follow records 0 p = some a ∧ names records a s = some c := by
  constructor
  · intro h
    induction h with
    | root hc => exact ⟨[], own_cons.mpr rfl, rfl, hc⟩
    | @next a s b t c _ hc ih =>
      obtain ⟨p, hown, hp, hb⟩ := ih
      refine ⟨p ++ [s], ?_, by rw [follow_concat, hp, Option.bind_some, hb], hc⟩
      cases p with
      | nil => exact own_cons.mpr (own_cons.mp hown)
      | cons r p => exact own_cons.mpr (own_cons.mp hown)
  · rintro ⟨p, hown, hp, hc⟩
    induction p using List.reverseRecOn generalizing a s c with
    | nil =>
      obtain rfl : 0 = a := Option.some.inj hp
      obtain rfl := own_cons.mp hown
      exact .root hc
    | append_singleton p t ih =>
      rw [follow_concat] at hp
      obtain ⟨b, hb, ht⟩ := Option.bind_eq_some_iff.mp hp
      exact .next (ih hown.of_concat hb ht) hc

/-- No two chains from the root lead to one record. -/
def OneChain (records : List Bytes) : Prop :=
  ∀ p q c, Own p → Own q → follow records 0 p = some c → follow records 0 q = some c → p = q

theorem oneChain_iff {records : List Bytes} : OneChain records ↔ Unshared records := by
  constructor
  · intro h a s b t c hs ht
    obtain ⟨p, hp, ha, hac⟩ := followed_iff.mp hs
    obtain ⟨q, hq, hb, hbc⟩ := followed_iff.mp ht
    have hpc : follow records 0 (p ++ [s]) = some c := by rw [follow_concat, ha, Option.bind_some, hac]
    have hqc : follow records 0 (q ++ [t]) = some c := by rw [follow_concat, hb, Option.bind_some, hbc]
    obtain ⟨rfl, hst⟩ := List.append_inj' (h _ _ c hp hq hpc hqc) rfl
    refine ⟨Option.some.inj (ha.symm.trans hb), by simpa using hst, ?_⟩
    rintro rfl
    have hnil := h (p ++ [s]) [] 0 hp (by simp [Own]) hpc rfl
    exact List.append_ne_nil_of_right_ne_nil p (List.cons_ne_nil s []) hnil
  · intro h p q c hp hq hpc hqc
    induction p using List.reverseRecOn generalizing q c with
    | nil =>
      obtain rfl : 0 = c := Option.some.inj hpc
      obtain rfl | ⟨q, t, rfl⟩ := q.eq_nil_or_concat'
      · rfl
      · rw [follow_concat] at hqc
        obtain ⟨b, hb, ht⟩ := Option.bind_eq_some_iff.mp hqc
        have hfollowed := followed_iff.mpr ⟨q, hq, hb, ht⟩
        exact absurd rfl (h _ _ _ _ _ hfollowed hfollowed).2.2
    | append_singleton p s ih =>
      rw [follow_concat] at hpc
      obtain ⟨a, ha, hs⟩ := Option.bind_eq_some_iff.mp hpc
      have hfollowed := followed_iff.mpr ⟨p, hp, ha, hs⟩
      obtain rfl | ⟨q, t, rfl⟩ := q.eq_nil_or_concat'
      · obtain rfl : 0 = c := Option.some.inj hqc
        exact absurd rfl (h _ _ _ _ _ hfollowed hfollowed).2.2
      · rw [follow_concat] at hqc
        obtain ⟨b, hb, ht⟩ := Option.bind_eq_some_iff.mp hqc
        obtain ⟨rfl, rfl, -⟩ := h _ _ _ _ _ hfollowed (followed_iff.mpr ⟨q, hq, hb, ht⟩)
        rw [ih q a hp.of_concat hq.of_concat ha hb]

/-! The entries that are read, each with its chain. -/

theorem item_eq {α : Type} {xs : List α} {i : Nat} {x : α} (h : item xs i = .ok x) : xs[i]? = some x := by
  rw [item] at h
  split at h
  · rename_i y hy
    rw [hy, Except.ok.inj h]
  · cases h

theorem names_eq {records : List Bytes} {a : Nat} {record : Bytes} (hrecord : item records a = .ok record) {s : Slot} {c : Nat}
    (hc : u32 record s.place = .ok c) (hcounts : s.counts record = true) :
    names records a s = if c = noStream then none else some c := by
  have hvalue : Struct.unpack 4 record s.place = some c := by
    rw [u32, unpackFrom] at hc
    split at hc
    · rename_i v hv
      rw [hv, Except.ok.inj hc]
    · cases hc
  rw [names, item_eq hrecord]
  change (Struct.unpack 4 record s.place).bind (fun c => if s.counts record && c ≠ noStream then some c else none) = _
  rw [hvalue, Option.bind_some, hcounts, Bool.true_and]
  by_cases hno : c = noStream
  · rw [if_pos hno, if_neg (by simp [hno])]
  · rw [if_neg hno, if_pos (by simp [hno])]

/-- What a record on the stack, with its chain, still leads to: it and the siblings behind it. -/
def Ahead (records : List Bytes) (e x : List Slot × Nat) : Prop :=
  e.2 ≠ noStream ∧ ∃ v, Slot.child ∉ v ∧ follow records e.2 v = some x.2 ∧ x.1 = e.1 ++ v

theorem ahead_named {records : List Bytes} {a c : Nat} {s : Slot} (hs : s ≠ .child)
    (h : names records a s = if c = noStream then none else some c) (w : List Slot) (x : List Slot × Nat) :
    Ahead records (w ++ [s], c) x ↔
      ∃ v, Slot.child ∉ s :: v ∧ follow records a (s :: v) = some x.2 ∧ x.1 = w ++ s :: v := by
  constructor
  · rintro ⟨hc, v, hv, hfollow, hx⟩
    rw [if_neg hc] at h
    refine ⟨v, ?_, ?_, ?_⟩
    · rw [List.mem_cons, not_or]
      exact ⟨hs.symm, hv⟩
    · rw [follow, h, Option.bind_some, hfollow]
    · rw [hx, List.append_assoc, List.singleton_append]
  · rintro ⟨v, hv, hfollow, hx⟩
    rw [follow] at hfollow
    obtain ⟨b, hb, hfollow⟩ := Option.bind_eq_some_iff.mp hfollow
    rw [h] at hb
    obtain ⟨hc, rfl⟩ : c ≠ noStream ∧ c = b := by
      by_cases hc : c = noStream
      · rw [if_pos hc] at hb
        cases hb
      · rw [if_neg hc] at hb
        exact ⟨hc, Option.some.inj hb⟩
    refine ⟨hc, v, fun hmem => hv (List.mem_cons_of_mem s hmem), hfollow, ?_⟩
    rw [hx, List.append_assoc, List.singleton_append]

/-- It leads to itself, and to where its two pointers to siblings lead. -/
theorem ahead_iff {records : List Bytes} {a left right : Nat} {record : Bytes} (hrecord : item records a = .ok record)
    (hleft : u32 record 0x44 = .ok left) (hright : u32 record 0x48 = .ok right) (ha : a ≠ noStream) (w : List Slot)
    (x : List Slot × Nat) : Ahead records (w, a) x ↔
      x = (w, a) ∨ Ahead records (w ++ [.left], left) x ∨ Ahead records (w ++ [.right], right) x := by
  rw [ahead_named (by decide) (names_eq (s := .left) hrecord hleft rfl),
    ahead_named (by decide) (names_eq (s := .right) hrecord hright rfl)]
  constructor
  · rintro ⟨-, v, hv, hfollow, hx⟩
    cases v with
    | nil => exact .inl (Prod.ext (hx.trans (List.append_nil w)) (Option.some.inj hfollow).symm)
    | cons s v =>
      cases s with
      | left => exact .inr (.inl ⟨v, hv, hfollow, hx⟩)
      | right => exact .inr (.inr ⟨v, hv, hfollow, hx⟩)
      | child => exact absurd List.mem_cons_self hv
  · rintro (rfl | ⟨v, hv, hfollow, hx⟩ | ⟨v, hv, hfollow, hx⟩)
    · exact ⟨ha, [], List.not_mem_nil, rfl, (List.append_nil w).symm⟩
    · exact ⟨ha, .left :: v, hv, hfollow, hx⟩
    · exact ⟨ha, .right :: v, hv, hfollow, hx⟩

/-- The loop reads what is done and what the stack leads to, each record once. -/
theorem siblingsLoop_traced {records : List Bytes} {fuel : Nat} {pending done : List (List Slot × Nat)} {sids : List Nat}
    (h : siblingsLoop records fuel (pending.map Prod.snd) (done.map Prod.snd) = .ok sids)
    (hnodup : (done.map Prod.snd).Nodup) :
    ∃ ws : List (List Slot × Nat), ws.map Prod.snd = sids ∧ sids.Nodup ∧
      ∀ x, x ∈ ws ↔ x ∈ done ∨ ∃ e ∈ pending, Ahead records e x := by
  induction fuel generalizing pending done with
  | zero => cases h
  | succ fuel ih =>
    cases pending with
    | nil =>
      obtain rfl := Except.ok.inj h
      exact ⟨done, rfl, hnodup, fun x => by simp⟩
    | cons e pending =>
      obtain ⟨w, a⟩ := e
      rw [List.map_cons, siblingsLoop] at h
      split at h
      · rename_i hno
        obtain ⟨ws, hws, hsids, hmem⟩ := ih h hnodup
        refine ⟨ws, hws, hsids, fun x => ?_⟩
        have hnone : ¬ Ahead records (w, a) x := fun hahead => hahead.1 hno
        rw [hmem, List.exists_mem_cons_iff]
        simp only [hnone, false_or]
      · rename_i hyes
        split at h
        · cases h
        · rename_i hbroken
          simp only [Bool.or_eq_true, decide_eq_true_eq, not_or, not_le] at hbroken
          obtain ⟨record, hrecord, h⟩ := bind_ok h
          obtain ⟨left, hleft, h⟩ := bind_ok h
          obtain ⟨right, hright, h⟩ := bind_ok h
          have hdone : (done ++ [(w, a)]).map Prod.snd = done.map Prod.snd ++ [a] := List.map_append
          have hloop : siblingsLoop records fuel
              (((w ++ [.right], right) :: (w ++ [.left], left) :: pending).map Prod.snd) ((done ++ [(w, a)]).map Prod.snd) =
              .ok sids := by
            rw [hdone]
            exact h
          obtain ⟨ws, hws, hsids, hmem⟩ := ih hloop (by rw [hdone]; exact nodup_concat hnodup hbroken.1)
          refine ⟨ws, hws, hsids, fun x => ?_⟩
          rw [hmem, List.mem_append, List.mem_singleton, List.exists_mem_cons_iff, List.exists_mem_cons_iff,
            List.exists_mem_cons_iff, ahead_iff hrecord hleft hright hyes]
          tauto

theorem siblings_traced {records : List Bytes} {first depth : Nat} {sids : List Nat} (h : siblings records first depth = .ok sids) :
    ∃ ws : List (List Slot × Nat), ws.map Prod.snd = sids ∧ sids.Nodup ∧ ∀ x, x ∈ ws ↔ Ahead records ([], first) x := by
  rw [siblings] at h
  split at h
  · cases h
  · have hloop : siblingsLoop records (2 * records.length + 2) ([(([] : List Slot), first)].map Prod.snd)
        (([] : List (List Slot × Nat)).map Prod.snd) = .ok sids := h
    obtain ⟨ws, hws, hnodup, hmem⟩ := siblingsLoop_traced hloop List.nodup_nil
    exact ⟨ws, hws, hnodup, fun x => by simp [hmem]⟩

theorem childSids_traced {records : List Bytes} {a depth : Nat} {record : Bytes} {kind : UInt8} {sids : List Nat}
    (hrecord : item records a = .ok record) (hkind : item record 0x42 = .ok kind)
    (h : childSids records record kind depth = .ok sids) :
    ∃ ws : List (List Slot × Nat), ws.map Prod.snd = sids ∧ sids.Nodup ∧
      ∀ x, x ∈ ws ↔ Slot.child ∉ x.1 ∧ follow records a (.child :: x.1) = some x.2 := by
  have hcounts : Slot.child.counts record = holdsChildren kind := by
    rw [Slot.counts, item_eq hkind]
    rfl
  rw [childSids] at h
  split at h
  · rename_i hholds
    obtain ⟨first, hfirst, h⟩ := bind_ok h
    obtain ⟨ws, hws, hnodup, hmem⟩ := siblings_traced h
    have hnames := names_eq (s := .child) hrecord hfirst (hcounts.trans hholds)
    refine ⟨ws, hws, hnodup, fun x => ?_⟩
    rw [hmem, follow, hnames]
    by_cases hno : first = noStream
    · rw [if_pos hno, Option.bind_none]
      exact iff_of_false (fun hahead => hahead.1 hno) fun hfalse => by cases hfalse.2
    · rw [if_neg hno, Option.bind_some]
      constructor
      · rintro ⟨-, v, hv, hfollow, hx⟩
        rw [List.nil_append] at hx
        rw [hx]
        exact ⟨hv, hfollow⟩
      · rintro ⟨hv, hfollow⟩
        exact ⟨hno, x.1, hv, hfollow, rfl⟩
  · rename_i hholds
    obtain rfl := Except.ok.inj h
    refine ⟨[], rfl, List.nodup_nil, fun x => iff_of_false List.not_mem_nil ?_⟩
    have hnone : names records a .child = none := by
      rw [names, item_eq hrecord]
      change (Struct.unpack 4 record Slot.child.place).bind
        (fun c => if Slot.child.counts record && c ≠ noStream then some c else none) = none
      rw [hcounts, Bool.not_eq_true _ |>.mp hholds]
      cases Struct.unpack 4 record Slot.child.place with
      | none => rfl
      | some c => rfl
    rw [follow, hnone]
    exact fun hfalse => by cases hfalse.2

/-- A chain is one of siblings and then one from its end. -/
theorem exists_split (r : List Slot) : ∃ w q, r = w ++ q ∧ Slot.child ∉ w ∧ Own q := by
  induction r with
  | nil => exact ⟨[], [], rfl, List.not_mem_nil, by simp [Own]⟩
  | cons s r ih =>
    obtain ⟨w, q, rfl, hw, hq⟩ := ih
    by_cases hs : s = .child
    · exact ⟨[], s :: (w ++ q), rfl, List.not_mem_nil, own_cons.mpr hs⟩
    · exact ⟨s :: w, q, rfl, by simp [hw, Ne.symm hs], hq⟩

theorem split_unique {w v p q : List Slot} (hw : Slot.child ∉ w) (hv : Slot.child ∉ v) (hp : Own p) (hq : Own q)
    (h : w ++ p = v ++ q) : w = v ∧ p = q := by
  induction w generalizing v with
  | nil =>
    cases v with
    | nil => exact ⟨rfl, h⟩
    | cons s v =>
      rw [List.nil_append, List.cons_append] at h
      rw [h] at hp
      exact absurd (by simp [own_cons.mp hp]) hv
  | cons s w ih =>
    cases v with
    | nil =>
      rw [List.nil_append, List.cons_append] at h
      rw [← h] at hq
      exact absurd (by simp [own_cons.mp hq]) hw
    | cons t v =>
      obtain ⟨rfl, htail⟩ := List.cons.inj h
      obtain ⟨rfl, hpq⟩ := ih (fun hmem => hw (List.mem_cons_of_mem _ hmem)) (fun hmem => hv (List.mem_cons_of_mem _ hmem)) htail
      exact ⟨rfl, hpq⟩

/-- The entries of a tree read from a record, each with its chain from there: one for every chain. -/
structure Traced (records : List Bytes) (a : Nat) (ts : List (List Slot × Nat)) (sids : List Nat) : Prop where
  sids : ts.map Prod.snd = sids
  nodup : (ts.map Prod.fst).Nodup
  mem : ∀ p c, (p, c) ∈ ts ↔ Own p ∧ follow records a p = some c

/-- What an entry is made of. -/
theorem entryOf_parts {d : Directory} {levels sid depth : Nat} {tree : Entry} (h : entryOf d (levels + 1) sid depth = .ok tree) :
    ∃ record kind data sids children, item d.records sid = .ok record ∧ item record 0x42 = .ok kind ∧ dataOf d record kind = .ok data ∧
      childSids d.records record kind depth = .ok sids ∧ sids.mapM (fun c => entryOf d levels c (depth + 1)) = .ok children ∧
      ∃ name clsid state created modified, tree = .mk sid name kind data clsid state created modified children := by
  rw [entryOf] at h
  obtain ⟨record, hrecord, h⟩ := bind_ok h
  obtain ⟨nameLen, -, h⟩ := bind_ok h
  obtain ⟨kind, hkind, h⟩ := bind_ok h
  obtain ⟨state, -, h⟩ := bind_ok h
  obtain ⟨data, hdata, h⟩ := bind_ok h
  obtain ⟨sids, hsids, h⟩ := bind_ok h
  obtain ⟨children, hchildren, h⟩ := bind_ok h
  exact ⟨record, kind, data, sids, children, hrecord, hkind, hdata, hsids, hchildren, _, _, _, _, _, (Except.ok.inj h).symm⟩

theorem entryOf_traced {d : Directory} {levels sid depth : Nat} {tree : Entry} (h : entryOf d levels sid depth = .ok tree) :
    ∃ ts, Traced d.records sid ts tree.sids := by
  induction levels generalizing sid depth tree with
  | zero => cases h
  | succ levels ih =>
    obtain ⟨record, kind, data, sids, children, hrecord, hkind, -, hsids, hchildren, _, _, _, _, _, rfl⟩ := entryOf_parts h
    obtain ⟨ws, rfl, hnodup, hws⟩ := childSids_traced hrecord hkind hsids
    have hall : ∀ c, ∃ ts, ∀ e, entryOf d levels c (depth + 1) = .ok e → Traced d.records c ts e.sids := by
      intro c
      cases hc : entryOf d levels c (depth + 1) with
      | error e => exact ⟨[], fun e' he' => by cases he'⟩
      | ok e =>
        obtain ⟨ts, hts⟩ := ih hc
        exact ⟨ts, fun e' he' => Except.ok.inj he' ▸ hts⟩
    choose below hbelow using hall
    have hforall := mapM_eq_ok hchildren
    have hfrom : ∀ x ∈ ws, ∃ e, Traced d.records x.2 (below x.2) e := by
      intro x hx
      obtain ⟨e, -, he⟩ := forall₂_right hforall.flip x.2 (List.mem_map_of_mem hx)
      exact ⟨_, hbelow x.2 e he⟩
    have hflat : allSids children = (ws.map Prod.snd).flatMap fun c => (below c).map Prod.snd :=
      allSids_eq hforall fun c e he => (hbelow c e he).sids
    refine ⟨([], sid) :: ws.flatMap fun x => (below x.2).map fun y => (.child :: (x.1 ++ y.1), y.2), ?_, ?_, ?_⟩
    · rw [List.map_cons, Entry.sids, hflat, List.map_flatMap, List.flatMap_map]
      simp only [List.map_map, Function.comp_def]
    · rw [List.map_cons, List.map_flatMap, List.nodup_cons]
      refine ⟨by simp, List.nodup_flatMap.mpr ⟨fun x hx => ?_, ?_⟩⟩
      · obtain ⟨e, he⟩ := hfrom x hx
        have hchains : (((below x.2).map fun y => (Slot.child :: (x.1 ++ y.1), y.2)).map Prod.fst) =
            ((below x.2).map Prod.fst).map fun q => .child :: (x.1 ++ q) := by
          simp only [List.map_map, Function.comp_def]
        rw [hchains]
        exact he.nodup.map fun q r hqr => List.append_cancel_left (List.cons.inj hqr).2
      · refine (hnodup.of_map _).pairwise_of_forall_ne fun x hx y hy hxy => ?_
        obtain ⟨ex, hex⟩ := hfrom x hx
        obtain ⟨ey, hey⟩ := hfrom y hy
        intro p hpx hpy
        simp only [List.map_map, List.mem_map, Function.comp_apply] at hpx hpy
        obtain ⟨u, hu, rfl⟩ := hpx
        obtain ⟨v, hv, heq⟩ := hpy
        obtain ⟨hxw, hxf⟩ := (hws x).mp hx
        obtain ⟨hyw, hyf⟩ := (hws y).mp hy
        have hsplit := split_unique hyw hxw ((hey.mem v.1 v.2).mp hv).1 ((hex.mem u.1 u.2).mp hu).1 (List.cons.inj heq).2
        rw [hsplit.1] at hyf
        exact hxy (Prod.ext hsplit.1.symm (Option.some.inj (hxf.symm.trans hyf)))
    · intro p c
      cases p with
      | nil => simp [Own, follow, eq_comm]
      | cons s r =>
        rw [own_cons]
        simp only [List.mem_cons, Prod.mk.injEq, reduceCtorEq, false_and, false_or, List.mem_flatMap, List.mem_map]
        constructor
        · rintro ⟨x, hx, y, hy, ⟨rfl, rfl⟩, rfl⟩
          obtain ⟨e, he⟩ := hfrom x hx
          obtain ⟨-, hfollow⟩ := (hws x).mp hx
          refine ⟨rfl, ?_⟩
          rw [← List.cons_append, follow_append, hfollow, Option.bind_some]
          exact ((he.mem y.1 y.2).mp hy).2
        · rintro ⟨rfl, hfollow⟩
          obtain ⟨w, q, rfl, hw, hq⟩ := exists_split r
          rw [← List.cons_append, follow_append] at hfollow
          obtain ⟨b, hb, hq'⟩ := Option.bind_eq_some_iff.mp hfollow
          have hx : (w, b) ∈ ws := (hws (w, b)).mpr ⟨hw, hb⟩
          obtain ⟨e, he⟩ := hfrom (w, b) hx
          exact ⟨(w, b), hx, (q, c), (he.mem q c).mpr ⟨hq, hq'⟩, rfl, rfl⟩

theorem Traced.nodup_iff {records : List Bytes} {ts : List (List Slot × Nat)} {sids : List Nat} (h : Traced records 0 ts sids) :
    sids.Nodup ↔ OneChain records := by
  rw [← h.sids]
  constructor
  · intro hnodup p q c hp hq hpc hqc
    exact congrArg Prod.fst (List.inj_on_of_nodup_map hnodup ((h.mem p c).mpr ⟨hp, hpc⟩) ((h.mem q c).mpr ⟨hq, hqc⟩) rfl)
  · intro hone
    refine (h.nodup.of_map _).map_on fun x hx y hy hxy => ?_
    obtain ⟨hpx, hfx⟩ := (h.mem x.1 x.2).mp hx
    obtain ⟨hpy, hfy⟩ := (h.mem y.1 y.2).mp hy
    exact Prod.ext (hone x.1 y.1 x.2 hpx hpy hfx (hxy ▸ hfy)) hxy

theorem entryOf_below {d : Directory} {levels sid depth : Nat} {tree : Entry} (h : entryOf d levels sid depth = .ok tree) :
    ∀ c ∈ tree.sids, c < d.records.length := by
  induction levels generalizing sid depth tree with
  | zero => cases h
  | succ levels ih =>
    obtain ⟨record, kind, data, sids, children, hrecord, -, -, -, hchildren, _, _, _, _, _, rfl⟩ := entryOf_parts h
    intro c hc
    obtain rfl | hc := List.mem_cons.mp hc
    · exact (List.getElem?_eq_some_iff.mp (item_eq hrecord)).1
    · obtain ⟨e, he, hc⟩ := mem_allSids.mp hc
      obtain ⟨x, -, hx⟩ := mapM_ok hchildren e he
      exact ih hx c hc

theorem read_uses_once_iff {raw : Bytes} {tree : Entry} (h : read raw = .ok tree) : ∃ d, readDirectory raw = .ok d ∧
    (tree.sids.Nodup ∧ tree.sids.length ≤ d.records.length ↔ Unshared d.records) := by
  obtain ⟨d, hd, h⟩ := bind_ok h
  obtain ⟨rootRecord, -, h⟩ := bind_ok h
  obtain ⟨kind, -, h⟩ := bind_ok h
  split at h
  · cases h
  · obtain ⟨ts, hts⟩ := entryOf_traced h
    have hlength : tree.sids.Nodup → tree.sids.length ≤ d.records.length := fun hnodup =>
      length_le_of_below hnodup (entryOf_below h)
    refine ⟨d, hd, ?_⟩
    rw [and_iff_left_of_imp hlength, hts.nodup_iff, oneChain_iff]

/-! Files of three sectors: a header, the FAT and a directory of four records. -/

def smallHeader : Bytes :=
  signature ++ List.replicate 18 0 ++ [3, 0, 0xFE, 0xFF, 9, 0, 6, 0] ++ List.replicate 14 0 ++ Struct.leBytes 4 1 ++
    List.replicate 16 0 ++ Struct.leBytes 4 0xFFFFFFFE ++ List.replicate 8 0 ++ List.replicate 432 0xFF

def smallFat : Bytes := Struct.leBytes 4 0xFFFFFFFD ++ Struct.leBytes 4 0xFFFFFFFE ++ List.replicate 504 0xFF

/-- A record without a name and without content. -/
def bareRecord (kind : UInt8) (right child : Nat) : Bytes :=
  List.replicate 66 0 ++ [kind, 0] ++ Struct.leBytes 4 noStream ++ Struct.leBytes 4 right ++ Struct.leBytes 4 child ++
    List.replicate 48 0

def smallFile (records : List Bytes) : Bytes := smallHeader ++ smallFat ++ records.flatten

/-- Two storages, the first with a stream. -/
def plain : Bytes :=
  smallFile [bareRecord rootKind noStream 1, bareRecord storageKind 2 3, bareRecord storageKind noStream noStream,
    bareRecord streamKind noStream noStream]

set_option maxRecDepth 100000 in
theorem read_plain : (read plain).map Entry.sids = .ok [0, 1, 3, 2] := by decide

theorem read_uses_once_plain : ∃ tree d, read plain = .ok tree ∧ readDirectory plain = .ok d ∧
    (tree.sids.Nodup ∧ tree.sids.length ≤ d.records.length ↔ Unshared d.records) := by
  obtain ⟨tree, htree, -⟩ := map_ok read_plain
  obtain ⟨d, hd, hiff⟩ := read_uses_once_iff htree
  exact ⟨tree, d, htree, hd, hiff⟩

/-- Two storages with one stream between them. -/
def shared : Bytes :=
  smallFile [bareRecord rootKind noStream 1, bareRecord storageKind 2 3, bareRecord storageKind noStream 3,
    bareRecord streamKind noStream noStream]

set_option maxRecDepth 100000 in
theorem read_shared : (read shared).map Entry.sids = .ok [0, 1, 3, 2, 3] ∧
    (readDirectory shared).map (fun d => d.records.length) = .ok 4 := by decide

theorem read_uses_once_false : ¬ ∀ raw tree, read raw = .ok tree → ∀ d, readDirectory raw = .ok d →
    tree.sids.length ≤ d.records.length := by
  intro h
  obtain ⟨tree, htree, hsids⟩ := map_ok read_shared.1
  obtain ⟨d, hd, hcount⟩ := map_ok read_shared.2
  have hle := h shared tree htree d hd
  rw [hsids, hcount] at hle
  exact absurd hle (by decide)

end XgenSdk.Cfb
