import Mathlib.Data.List.Forall2

/-! Checks one after the other: the first that fails raises. -/
namespace XgenSdk.Checks
variable {ε α β : Type}

/-- `if wrong: raise error`. -/
def refuse (wrong : Bool) (error : ε) : Except ε Unit := if wrong then .error error else .ok ()

theorem refuse_false (error : ε) : refuse false error = .ok () := rfl

theorem ok_bind (a : α) (f : α → Except ε β) : ((.ok a : Except ε α) >>= f) = f a := rfl

theorem bind_ok {x : Except ε α} {f : α → Except ε β} {b : β} (h : (x >>= f) = .ok b) : ∃ a, x = .ok a ∧ f a = .ok b := by
  cases x with
  | error e => cases h
  | ok a => exact ⟨a, rfl, h⟩

theorem bind_ok_iff {x : Except ε α} {f : α → Except ε β} : (∃ b, (x >>= f) = .ok b) ↔ ∃ a, x = .ok a ∧ ∃ b, f a = .ok b := by
  constructor
  · rintro ⟨b, h⟩
    obtain ⟨a, ha, hb⟩ := bind_ok h
    exact ⟨a, ha, b, hb⟩
  · rintro ⟨a, rfl, b, hb⟩
    exact ⟨b, hb⟩

theorem bind_error {x : Except ε α} {f : α → Except ε β} {e : ε} (h : (x >>= f) = .error e) :
    x = .error e ∨ ∃ a, x = .ok a ∧ f a = .error e := by
  cases x with
  | error e' => exact .inl (congrArg Except.error (Except.error.inj h))
  | ok a => exact .inr ⟨a, rfl, h⟩

theorem map_ok {x : Except ε α} {f : α → β} {b : β} (h : x.map f = .ok b) : ∃ a, x = .ok a ∧ f a = b := by
  cases x with
  | error e => cases h
  | ok a => exact ⟨a, rfl, Except.ok.inj h⟩

/-- Behind a check that passes. -/
theorem refuse_bind {wrong : Bool} {error : ε} {f : Unit → Except ε β} {b : β} (h : (refuse wrong error >>= f) = .ok b) :
    wrong = false ∧ f () = .ok b := by
  cases wrong with
  | false => exact ⟨rfl, h⟩
  | true => cases h

theorem forall₂_right {R : α → β → Prop} {xs : List α} {ys : List β} (h : List.Forall₂ R xs ys) :
    ∀ y ∈ ys, ∃ x ∈ xs, R x y := by
  induction h with
  | nil =>
    intro y hy
    cases hy
  | @cons x z xs zs hz _ ih =>
    intro y hy
    obtain rfl | hy := List.mem_cons.mp hy
    · exact ⟨x, List.mem_cons_self, hz⟩
    · obtain ⟨w, hw, hwy⟩ := ih y hy
      exact ⟨w, List.mem_cons_of_mem _ hw, hwy⟩

theorem mapM_eq_ok {f : α → Except ε β} {xs : List α} {ys : List β} (h : xs.mapM f = .ok ys) :
    List.Forall₂ (fun x y => f x = .ok y) xs ys := by
  induction xs generalizing ys with
  | nil =>
    rw [List.mapM_nil] at h
    rw [← Except.ok.inj h]
    exact .nil
  | cons x xs ih =>
    rw [List.mapM_cons] at h
    obtain ⟨z, hz, h⟩ := bind_ok h
    obtain ⟨zs, hzs, h⟩ := bind_ok h
    rw [← Except.ok.inj h]
    exact .cons hz (ih hzs)

theorem mapM_of_forall₂ {f : α → Except ε β} {xs : List α} {ys : List β} (h : List.Forall₂ (fun x y => f x = .ok y) xs ys) :
    xs.mapM f = .ok ys := by
  induction h with
  | nil => rfl
  | cons hy _ ih =>
    rw [List.mapM_cons, hy, ok_bind, ih]
    rfl

theorem mapM_ok {f : α → Except ε β} {xs : List α} {ys : List β} (h : xs.mapM f = .ok ys) :
    ∀ y ∈ ys, ∃ x ∈ xs, f x = .ok y := forall₂_right (mapM_eq_ok h)

/-- All of them pass where each does. -/
theorem mapM_ok_iff {f : α → Except ε β} {xs : List α} : (∃ ys, xs.mapM f = .ok ys) ↔ ∀ x ∈ xs, ∃ y, f x = .ok y := by
  constructor
  · rintro ⟨ys, hys⟩ x hx
    obtain ⟨y, -, hy⟩ := forall₂_right (mapM_eq_ok hys).flip x hx
    exact ⟨y, hy⟩
  · intro h
    induction xs with
    | nil => exact ⟨[], rfl⟩
    | cons x xs ih =>
      obtain ⟨y, hy⟩ := h x List.mem_cons_self
      obtain ⟨ys, hys⟩ := ih fun z hz => h z (List.mem_cons_of_mem x hz)
      exact ⟨y :: ys, by rw [List.mapM_cons, hy, ok_bind, hys]; rfl⟩

theorem mapM_error {f : α → Except ε β} {xs : List α} {e : ε} (h : xs.mapM f = .error e) : ∃ x ∈ xs, f x = .error e := by
  induction xs with
  | nil => cases h
  | cons x xs ih =>
    rw [List.mapM_cons] at h
    obtain hx | ⟨y, _, h⟩ := bind_error h
    · exact ⟨x, List.mem_cons_self, hx⟩
    obtain hxs | ⟨ys, _, h⟩ := bind_error h
    · obtain ⟨z, hz, hfz⟩ := ih hxs
      exact ⟨z, List.mem_cons_of_mem _ hz, hfz⟩
    · cases h

/-! Answers one after the other; `none` stops. -/

theorem mapM_eq_some_iff {f : α → Option β} {xs : List α} {ys : List β} :
    xs.mapM f = some ys ↔ List.Forall₂ (fun x y => f x = some y) xs ys := by
  induction xs generalizing ys with
  | nil =>
    rw [List.mapM_nil, List.forall₂_nil_left_iff]
    exact ⟨fun h => (Option.some.inj h).symm, fun h => h ▸ rfl⟩
  | cons x xs ih =>
    simp only [List.mapM_cons, Option.bind_eq_bind, Option.bind_eq_some_iff, Option.pure_def, Option.some.injEq,
      List.forall₂_cons_left_iff, ih]
    constructor
    · rintro ⟨y, hy, rest, hrest, rfl⟩
      exact ⟨y, rest, hy, hrest, rfl⟩
    · rintro ⟨y, rest, hy, hrest, rfl⟩
      exact ⟨y, hy, rest, hrest, rfl⟩

theorem mapM_isSome {f : α → Option β} {xs : List α} : (xs.mapM f).isSome = true ↔ ∀ x ∈ xs, (f x).isSome = true := by
  induction xs with
  | nil => simp
  | cons x xs ih =>
    rw [List.mapM_cons, List.forall_mem_cons, ← ih]
    cases f x <;> cases xs.mapM f <;> simp

/-- Two lists give the same answers where their elements do, one by one. -/
theorem mapM_eq_mapM_iff {f : α → Option β} {xs xs' : List α} (h : (xs.mapM f).isSome = true) :
    xs.mapM f = xs'.mapM f ↔ List.Forall₂ (fun x x' => f x = f x') xs xs' := by
  obtain ⟨ys, hys⟩ := Option.isSome_iff_exists.mp h
  rw [hys, eq_comm, mapM_eq_some_iff]
  rw [mapM_eq_some_iff] at hys
  clear h
  induction hys generalizing xs' with
  | nil => simp
  | cons hxy hrest ih =>
    rw [List.forall₂_cons_right_iff, List.forall₂_cons_left_iff]
    constructor
    · rintro ⟨x', rest', hx', hforall, rfl⟩
      exact ⟨x', rest', hxy.trans hx'.symm, ih.mp hforall, rfl⟩
    · rintro ⟨x', rest', hx', hforall, rfl⟩
      exact ⟨x', rest', hx' ▸ hxy, ih.mpr hforall, rfl⟩

theorem mapM_range_iff {f : Nat → Option β} {n : Nat} {ys : List β} :
    (List.range n).mapM f = some ys ↔ ys.length = n ∧ ∀ i (hi : i < ys.length), f i = some ys[i] := by
  rw [mapM_eq_some_iff, List.forall₂_iff_get]
  simp only [List.length_range, List.get_eq_getElem, List.getElem_range]
  constructor
  · rintro ⟨hlength, h⟩
    exact ⟨hlength.symm, fun i hi => h i (hlength ▸ hi) hi⟩
  · rintro ⟨hlength, h⟩
    exact ⟨hlength.symm, fun i _ hi => h i hi⟩

theorem mapM_map_some {f : α → Option β} {g : α → β} {xs : List α} (h : ∀ x ∈ xs, f x = some (g x)) :
    xs.mapM f = some (xs.map g) := by
  rw [mapM_eq_some_iff, List.forall₂_map_right_iff]
  exact List.forall₂_same.mpr h

/-- Steps that pass or fail whatever they start from. -/
theorem foldlM_ok_iff {f : β → α → Except ε β} {passes : α → Prop} (h : ∀ b a, (∃ b', f b a = .ok b') ↔ passes a)
    (xs : List α) (b : β) : (∃ b', xs.foldlM f b = .ok b') ↔ ∀ a ∈ xs, passes a := by
  induction xs generalizing b with
  | nil => exact ⟨fun _ a ha => absurd ha List.not_mem_nil, fun _ => ⟨b, rfl⟩⟩
  | cons a xs ih =>
    rw [List.foldlM_cons, List.forall_mem_cons]
    constructor
    · rintro ⟨b', hb⟩
      obtain ⟨c, hc, hrest⟩ := bind_ok hb
      exact ⟨(h b a).mp ⟨c, hc⟩, (ih c).mp ⟨b', hrest⟩⟩
    · rintro ⟨ha, hxs⟩
      obtain ⟨c, hc⟩ := (h b a).mpr ha
      rw [hc]
      exact (ih c).mpr hxs

theorem foldlM_ok {f : β → α → Except ε β} {xs : List α} (h : ∀ a ∈ xs, ∀ b, ∃ b', f b a = .ok b') (b : β) :
    ∃ b', xs.foldlM f b = .ok b' := by
  induction xs generalizing b with
  | nil => exact ⟨b, rfl⟩
  | cons a xs ih =>
    rw [List.forall_mem_cons] at h
    obtain ⟨c, hc⟩ := h.1 b
    rw [List.foldlM_cons, hc]
    exact ih h.2 c

theorem foldlM_keeps {f : β → α → Except ε β} {P : β → Prop} (h : ∀ b a b', P b → f b a = .ok b' → P b') {xs : List α} {b b' : β}
    (hb : P b) (hfold : xs.foldlM f b = .ok b') : P b' := by
  induction xs generalizing b with
  | nil => exact Except.ok.inj hfold ▸ hb
  | cons a xs ih =>
    rw [List.foldlM_cons] at hfold
    obtain ⟨c, hc, hrest⟩ := bind_ok hfold
    exact ih (h b a c hb hc) hrest

end XgenSdk.Checks
