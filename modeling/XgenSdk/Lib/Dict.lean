import Mathlib.Data.List.Nodup
import Mathlib.Data.List.Basic

/-! Dictionaries that keep the order in which their keys were first set. -/
namespace XgenSdk

/-- No key twice. -/
structure Dict (κ α : Type) where
  entries : List (κ × α)
  nodup : (entries.map Prod.fst).Nodup

namespace Dict
variable {κ α β : Type} [DecidableEq κ]

/-- The entries with one set: where the key stands, or at the end. -/
def setEntries (k : κ) (a : α) : List (κ × α) → List (κ × α)
  | [] => [(k, a)]
  | e :: entries => if e.1 = k then (k, a) :: entries else e :: setEntries k a entries

theorem keys_setEntries (k : κ) (a : α) (entries : List (κ × α)) :
    (setEntries k a entries).map Prod.fst =
      if k ∈ entries.map Prod.fst then entries.map Prod.fst else entries.map Prod.fst ++ [k] := by
  induction entries with
  | nil => rfl
  | cons e entries ih =>
    rw [setEntries]
    by_cases he : e.1 = k
    · simp [he]
    · have hk : k ≠ e.1 := fun h => he h.symm
      rw [if_neg he, List.map_cons, ih, List.map_cons]
      simp only [List.mem_cons, hk, false_or]
      split <;> rfl

theorem nodup_setEntries {k : κ} {a : α} {entries : List (κ × α)} (h : (entries.map Prod.fst).Nodup) :
    ((setEntries k a entries).map Prod.fst).Nodup := by
  rw [keys_setEntries]
  split
  · exact h
  · rename_i hk
    rw [List.nodup_append]
    refine ⟨h, List.nodup_singleton k, fun b hb c hc => ?_⟩
    rw [List.mem_singleton.mp hc]
    exact fun heq => hk (heq ▸ hb)

/-- What stands at a key after one is set. -/
theorem find_setEntries (k other : κ) (a : α) (entries : List (κ × α)) :
    ((setEntries k a entries).find? fun e => e.1 = other).map Prod.snd =
      if k = other then some a else (entries.find? fun e => e.1 = other).map Prod.snd := by
  induction entries with
  | nil =>
    by_cases hk : k = other
    · simp [setEntries, hk]
    · simp [setEntries, hk]
  | cons e entries ih =>
    rw [setEntries]
    by_cases he : e.1 = k
    · by_cases hk : k = other
      · simp [he, hk]
      · simp [he, hk]
    · rw [if_neg he]
      by_cases heo : e.1 = other
      · have hk : ¬ k = other := fun h => he (heo.trans h.symm)
        simp [heo, hk]
      · simp only [List.find?_cons, heo, decide_false]
        exact ih

theorem mem_setEntries {k : κ} {a : α} {entries : List (κ × α)} {e : κ × α} (h : e ∈ setEntries k a entries) :
    e.1 = k ∨ e ∈ entries := by
  induction entries with
  | nil => exact .inl (congrArg Prod.fst (List.mem_singleton.mp h))
  | cons first entries ih =>
    by_cases hfirst : first.1 = k
    · rw [setEntries, if_pos hfirst] at h
      obtain rfl | h := List.mem_cons.mp h
      · exact .inl rfl
      · exact .inr (List.mem_cons_of_mem _ h)
    · rw [setEntries, if_neg hfirst] at h
      obtain rfl | h := List.mem_cons.mp h
      · exact .inr List.mem_cons_self
      · exact (ih h).imp_right (List.mem_cons_of_mem _)

/-- The dict without keys. -/
def empty : Dict κ α := ⟨[], List.nodup_nil⟩

/-- `d[k] = a`. -/
def set (d : Dict κ α) (k : κ) (a : α) : Dict κ α := ⟨setEntries k a d.entries, nodup_setEntries d.nodup⟩

/-- `d.pop(k, None)`. -/
def erase (d : Dict κ α) (k : κ) : Dict κ α :=
  ⟨d.entries.filter fun e => e.1 ≠ k, d.nodup.sublist (List.filter_sublist.map Prod.fst)⟩

/-- `d.get(k)`. -/
def get (d : Dict κ α) (k : κ) : Option α := (d.entries.find? fun e => e.1 = k).map Prod.snd

/-- `list(d.values())`. -/
def values (d : Dict κ α) : List α := d.entries.map Prod.snd

/-- `{**d, **e}`. -/
def union (d e : Dict κ α) : Dict κ α := e.entries.foldl (fun d entry => d.set entry.1 entry.2) d

/-- `{k: f(k, a) for k, a in d.items() if ...}`. -/
def filterMap (d : Dict κ α) (f : κ → α → Option β) : Dict κ β where
  entries := d.entries.filterMap fun e => (f e.1 e.2).map fun b => (e.1, b)
  nodup := by
    refine d.nodup.sublist ?_
    induction d.entries with
    | nil => exact .slnil
    | cons e entries ih =>
      cases h : f e.1 e.2 with
      | none => simpa [h] using ih.cons e.1
      | some b => simpa [h] using ih.cons_cons e.1

theorem get_empty (k : κ) : (empty : Dict κ α).get k = none := rfl

theorem get_set (d : Dict κ α) (k other : κ) (a : α) : (d.set k a).get other = if k = other then some a else d.get other :=
  find_setEntries k other a d.entries

theorem mem_entries_iff (d : Dict κ α) {k : κ} {a : α} : (k, a) ∈ d.entries ↔ d.get k = some a := by
  obtain ⟨entries, hnodup⟩ := d
  unfold get
  dsimp only
  induction entries with
  | nil => simp
  | cons e entries ih =>
    rw [List.map_cons, List.nodup_cons] at hnodup
    by_cases he : e.1 = k
    · have hnone : (k, a) ∉ entries := fun hmem => hnodup.1 (he ▸ List.mem_map_of_mem (f := Prod.fst) hmem)
      simp only [List.mem_cons, hnone, or_false, List.find?_cons, he, decide_true, Option.map_some, Option.some.injEq]
      constructor
      · intro h
        rw [← h]
      · intro h
        rw [← he, ← h]
    · have hne : (k, a) ≠ e := fun h => he (by rw [← h])
      simp only [List.mem_cons, hne, false_or, List.find?_cons, he, decide_false]
      exact ih hnodup.2

theorem get_eq_none_iff (d : Dict κ α) {k : κ} : d.get k = none ↔ ∀ e ∈ d.entries, e.1 ≠ k := by
  rw [get, Option.map_eq_none_iff, List.find?_eq_none]
  simp only [decide_eq_true_eq, ne_eq]

theorem get_erase (d : Dict κ α) (k other : κ) : (d.erase k).get other = if k = other then none else d.get other := by
  refine Option.ext fun a => ?_
  rw [← mem_entries_iff, erase, List.mem_filter, mem_entries_iff]
  by_cases hk : k = other
  · simp [hk]
  · simp [hk, Ne.symm hk]

theorem get_filterMap (d : Dict κ α) (f : κ → α → Option β) (k : κ) : (d.filterMap f).get k = (d.get k).bind (f k) := by
  have hmem : ∀ b, (d.filterMap f).get k = some b ↔ (d.get k).bind (f k) = some b := by
    intro b
    rw [← mem_entries_iff, Option.bind_eq_some_iff, filterMap, List.mem_filterMap]
    constructor
    · rintro ⟨e, he, hb⟩
      obtain ⟨b', hf, heq⟩ := Option.map_eq_some_iff.mp hb
      obtain ⟨rfl, rfl⟩ := Prod.mk.inj heq
      exact ⟨e.2, d.mem_entries_iff.mp he, hf⟩
    · rintro ⟨a, ha, hf⟩
      exact ⟨(k, a), d.mem_entries_iff.mpr ha, by rw [hf]; rfl⟩
  exact Option.ext hmem

theorem mem_values_iff (d : Dict κ α) {a : α} : a ∈ d.values ↔ ∃ k, d.get k = some a := by
  rw [values, List.mem_map]
  constructor
  · rintro ⟨e, he, rfl⟩
    exact ⟨e.1, d.mem_entries_iff.mp he⟩
  · rintro ⟨k, hk⟩
    exact ⟨(k, a), d.mem_entries_iff.mpr hk, rfl⟩

/-- Values that name their own key: one of them for each key. -/
theorem filter_values (d : Dict κ α) (key : α → κ) (h : ∀ k a, d.get k = some a → key a = k) (k : κ) :
    d.values.filter (fun a => key a = k) = (d.get k).toList := by
  have hkeys : ∀ e ∈ d.entries, key e.2 = e.1 := fun e he => h e.1 e.2 (d.mem_entries_iff.mp he)
  obtain ⟨entries, hnodup⟩ := d
  unfold values get
  dsimp only at hkeys ⊢
  clear h
  induction entries with
  | nil => rfl
  | cons e entries ih =>
    rw [List.map_cons, List.nodup_cons] at hnodup
    have ih := ih hnodup.2 fun f hf => hkeys f (List.mem_cons_of_mem e hf)
    have he := hkeys e List.mem_cons_self
    by_cases hk : e.1 = k
    · have hnone : (entries.find? fun e => e.1 = k) = none := by
        rw [List.find?_eq_none]
        intro f hf hfk
        exact hnodup.1 (hk ▸ (of_decide_eq_true hfk) ▸ List.mem_map_of_mem (f := Prod.fst) hf)
      rw [hnone] at ih
      rw [List.map_cons, List.filter_cons_of_pos (by simpa [he] using hk), ih]
      simp [hk]
    · rw [List.map_cons, List.filter_cons_of_neg (by simpa [he] using hk), ih]
      simp [hk]

/-- A step that changes what one key holds. -/
theorem get_foldl {step : Dict κ α → β → Dict κ α} {key : β → κ} {f : Option α → β → Option α}
    (hstep : ∀ d x k, (step d x).get k = if key x = k then f (d.get k) x else d.get k) (xs : List β) (d : Dict κ α) (k : κ) :
    (xs.foldl step d).get k = (xs.filter fun x => key x = k).foldl f (d.get k) := by
  induction xs generalizing d with
  | nil => rfl
  | cons x xs ih =>
    rw [List.foldl_cons, ih, hstep]
    by_cases hx : key x = k
    · simp [hx]
    · simp [hx]

theorem get_union (d e : Dict κ α) (k : κ) : (d.union e).get k = (e.get k).or (d.get k) := by
  have hfold := get_foldl (f := fun (_ : Option α) (entry : κ × α) => some entry.2)
    (fun (d : Dict κ α) (entry : κ × α) k => get_set d entry.1 k entry.2) e.entries d k
  rw [union, hfold]
  clear hfold
  obtain ⟨entries, hone⟩ := e
  unfold get
  dsimp only
  induction entries with
  | nil => rfl
  | cons entry entries ih =>
    rw [List.map_cons, List.nodup_cons] at hone
    by_cases hk : entry.1 = k
    · have hnone : (entries.filter fun e => e.1 = k) = [] := by
        rw [List.filter_eq_nil_iff]
        intro f hf hfk
        exact hone.1 (hk ▸ (of_decide_eq_true hfk) ▸ List.mem_map_of_mem (f := Prod.fst) hf)
      simp [hk, hnone]
    · simp only [List.filter_cons, List.find?_cons, hk, decide_false, Bool.false_eq_true, if_false]
      exact ih hone.2

/-- Entries set one after the other, under the keys they get; those without one are left out. -/
def collect {ι : Type} (key : ι → Option κ) (entries : List (ι × α)) (d : Dict κ α) : Dict κ α :=
  entries.foldl (fun d e => (key e.1).elim d fun k => d.set k e.2) d

section Collect
variable {ι : Type} {key : ι → Option κ} {entries : List (ι × α)} {d : Dict κ α} {k : κ} {a : α}

theorem get_step (e : ι × α) :
    ((key e.1).elim d fun k => d.set k e.2).get k = if key e.1 = some k then some e.2 else d.get k := by
  cases h : key e.1 with
  | none => simp
  | some k' => simp [get_set]

/-- What is held comes from an entry, or was held before. -/
theorem get_collect (h : (collect key entries d).get k = some a) :
    (∃ e ∈ entries, key e.1 = some k ∧ e.2 = a) ∨ d.get k = some a := by
  induction entries generalizing d with
  | nil => exact .inr h
  | cons e entries ih =>
    obtain ⟨e', he', hkey⟩ | hstep := ih h
    · exact .inl ⟨e', List.mem_cons_of_mem e he', hkey⟩
    · rw [get_step] at hstep
      split at hstep
      · rename_i hkey
        exact .inl ⟨e, List.mem_cons_self, hkey, Option.some.inj hstep⟩
      · exact .inr hstep

theorem collect_isSome (h : (d.get k).isSome ∨ ∃ e ∈ entries, key e.1 = some k) : ((collect key entries d).get k).isSome := by
  induction entries generalizing d with
  | nil =>
    obtain h | ⟨e, he, -⟩ := h
    · exact h
    · cases he
  | cons e entries ih =>
    refine ih ?_
    rw [get_step]
    obtain h | ⟨e', he', hkey⟩ := h
    · left
      split
      · rfl
      · exact h
    · obtain rfl | he' := List.mem_cons.mp he'
      · left
        rw [if_pos hkey]
        rfl
      · exact .inr ⟨e', he', hkey⟩

/-- Where entries of one key agree, each is held. -/
theorem get_collect_iff (hsame : ∀ e ∈ entries, ∀ e' ∈ entries, key e.1 = some k → key e'.1 = some k → e.2 = e'.2) :
    (collect key entries empty).get k = some a ↔ ∃ e ∈ entries, key e.1 = some k ∧ e.2 = a := by
  constructor
  · intro h
    obtain h | h := get_collect h
    · exact h
    · cases h
  · rintro ⟨e, he, hkey, rfl⟩
    have hsome : ((collect key entries empty).get k).isSome := collect_isSome (.inr ⟨e, he, hkey⟩)
    obtain ⟨a, ha⟩ := Option.isSome_iff_exists.mp hsome
    obtain ⟨e', he', hkey', rfl⟩ | hnone := get_collect ha
    · rw [ha, hsame e' he' e he hkey' hkey]
    · cases hnone

end Collect

end Dict

end XgenSdk
