import XgenSdk.ControlPolicy.Rules

/-! What the scan maintains. The original text is laid out in tiles side by
side. A tile is original text, or it is masked by one root of the forest and
holds the pieces left of that mask; a tile without pieces is a deletion. The
other roots are deletions strictly inside a masked tile. -/
namespace XgenSdk.Tiles
open XgenSdk.Splice XgenSdk.MergeForest XgenSdk.Rules

/-! Lists of lists, cut at a point of their concatenation. -/
section Split
variable {α β : Type*} (f : α → List β)

theorem flatMap_split_right {ts : List α} {X Y : List β} (h : ts.flatMap f = X ++ Y)
    (hY : Y ≠ []) : ∃ A t B xs ys, ts = A ++ t :: B ∧ f t = xs ++ ys ∧ ys ≠ [] ∧
      X = A.flatMap f ++ xs ∧ Y = ys ++ B.flatMap f := by
  induction ts generalizing X with
  | nil =>
    have hn := List.append_eq_nil_iff.mp h.symm
    exact absurd hn.2 hY
  | cons t ts ih =>
    rw [List.flatMap_cons, List.append_eq_append_iff] at h
    obtain ⟨as, hX, hr⟩ | ⟨bs, ht, hr⟩ := h
    · obtain ⟨A, s, B, xs, ys, rfl, hs, hys, rfl, hYs⟩ := ih hr
      exact ⟨t :: A, s, B, xs, ys, rfl, hs, hys, by simp [hX], hYs⟩
    · by_cases hb : bs = []
      · subst hb
        obtain ⟨A, s, B, xs, ys, rfl, hs, hys, hX, hYs⟩ := ih (X := []) (by simpa using hr.symm)
        exact ⟨t :: A, s, B, xs, ys, rfl, hs, hys, by simp [ht, ← hX], hYs⟩
      · exact ⟨[], t, ts, X, bs, rfl, ht, hb, rfl, hr⟩

theorem flatMap_split_left {ts : List α} {X Y : List β} (h : ts.flatMap f = X ++ Y)
    (hX : X ≠ []) : ∃ A t B xs ys, ts = A ++ t :: B ∧ f t = xs ++ ys ∧ xs ≠ [] ∧
      X = A.flatMap f ++ xs ∧ Y = ys ++ B.flatMap f := by
  induction ts generalizing X with
  | nil =>
    have hn := List.append_eq_nil_iff.mp h.symm
    exact absurd hn.1 hX
  | cons t ts ih =>
    rw [List.flatMap_cons, List.append_eq_append_iff] at h
    obtain ⟨as, hXs, hr⟩ | ⟨bs, ht, hr⟩ := h
    · by_cases ha : as = []
      · subst ha
        rw [List.append_nil] at hXs
        exact ⟨[], t, ts, X, [], rfl, by simp [hXs], hX, rfl, by simpa using hr.symm⟩
      · obtain ⟨A, s, B, xs, ys, rfl, hs, hxs, rfl, hYs⟩ := ih hr ha
        exact ⟨t :: A, s, B, xs, ys, rfl, hs, hxs, by simp [hXs], hYs⟩
    · exact ⟨[], t, ts, X, bs, rfl, ht, hX, rfl, hr⟩

/-- The lists that a window meets, from the first to the last one it takes from. -/
theorem flatMap_window {ts : List α} {X M Y : List β} (h : ts.flatMap f = X ++ M ++ Y)
    (hM : M ≠ []) : ∃ A N B first N₁ last N₂ xs m zs ys, ts = A ++ N ++ B ∧
      N = first :: N₁ ∧ N = N₂ ++ [last] ∧ X = A.flatMap f ++ xs ∧ Y = ys ++ B.flatMap f ∧
      N.flatMap f = xs ++ M ++ ys ∧ (f first = xs ++ m ∧ ∃ p ∈ M, p ∈ m) ∧
      (f last = zs ++ ys ∧ ∃ p ∈ M, p ∈ zs) := by
  have hMY : M ++ Y ≠ [] := fun he => hM (List.append_eq_nil_iff.mp he).1
  obtain ⟨A, first, C, xs, m, rfl, hf, hm, rfl, hC⟩ :=
    flatMap_split_right f (X := X) (Y := M ++ Y) (by rw [h, List.append_assoc]) hMY
  have hrest : (first :: C).flatMap f = xs ++ M ++ Y := by
    rw [List.flatMap_cons, hf, List.append_assoc, ← hC, List.append_assoc]
  have hxM : xs ++ M ≠ [] := fun he => hM (List.append_eq_nil_iff.mp he).2
  obtain ⟨N₂, last, B, zs, ys, hN, hl, hzs, hX, rfl⟩ := flatMap_split_left f hrest hxM
  have hfirst : ∃ p ∈ M, p ∈ m := by
    cases M with
    | nil => exact absurd rfl hM
    | cons p M =>
      cases m with
      | nil => exact absurd rfl hm
      | cons q m =>
        rw [List.cons_append, List.cons_append, List.cons.injEq] at hC
        exact ⟨p, by simp, by simp [hC.1]⟩
  have hlast : ∃ p ∈ M, p ∈ zs := by
    have h1 := congrArg List.getLast? hX
    rw [List.getLast?_append_of_ne_nil _ hM, List.getLast?_append_of_ne_nil _ hzs,
      List.getLast?_eq_getLast_of_ne_nil hM, List.getLast?_eq_getLast_of_ne_nil hzs,
      Option.some.injEq] at h1
    exact ⟨M.getLast hM, List.getLast_mem hM, h1 ▸ List.getLast_mem hzs⟩
  have hhead : ∃ N₁, N₂ ++ [last] = first :: N₁ := by
    cases N₂ with
    | nil =>
      rw [List.nil_append, List.cons.injEq] at hN
      exact ⟨[], by rw [hN.1]; rfl⟩
    | cons t N₂ =>
      rw [List.cons_append, List.cons.injEq] at hN
      exact ⟨N₂ ++ [last], by rw [hN.1]; rfl⟩
  obtain ⟨N₁, hN₁⟩ := hhead
  refine ⟨A, N₂ ++ [last], B, first, N₁, last, N₂, xs, m, zs, ys, ?_, hN₁, rfl, rfl, rfl, ?_,
    ⟨hf, hfirst⟩, hl, hlast⟩
  · rw [hN]
    simp
  · rw [List.flatMap_append, List.flatMap_singleton, hl, ← List.append_assoc, ← hX]

end Split

/-! Tiles side by side. -/

structure Tile where
  lo : Nat
  hi : Nat
  unit : Option Nat
  pieces : List Piece

def Tile.span (t : Tile) : Span Char := ⟨t.lo, t.hi, joined t.pieces⟩

def Laid : Nat → Nat → List Tile → Prop
  | p, q, [] => p = q
  | p, q, t :: ts => t.lo = p ∧ t.lo < t.hi ∧ Laid t.hi q ts

theorem Laid.append {p q : Nat} {A B : List Tile} (h : Laid p q (A ++ B)) :
    ∃ m, Laid p m A ∧ Laid m q B := by
  induction A generalizing p with
  | nil => exact ⟨p, rfl, h⟩
  | cons t A ih =>
    obtain ⟨hp, ht, hr⟩ := h
    obtain ⟨m, h1, h2⟩ := ih hr
    exact ⟨m, ⟨hp, ht, h1⟩, h2⟩

theorem Laid.join {p m q : Nat} {A B : List Tile} (hA : Laid p m A) (hB : Laid m q B) :
    Laid p q (A ++ B) := by
  induction A generalizing p with
  | nil =>
    have hp : p = m := hA
    subst hp
    exact hB
  | cons t A ih => exact ⟨hA.1, hA.2.1, ih hA.2.2⟩

theorem Laid.le {p q : Nat} {A : List Tile} (h : Laid p q A) : p ≤ q := by
  induction A generalizing p with
  | nil => exact le_of_eq h
  | cons t A ih =>
    obtain ⟨hp, ht, hr⟩ := h
    have := ih hr
    omega

theorem Laid.bounds {p q : Nat} {A : List Tile} (h : Laid p q A) {t : Tile} (ht : t ∈ A) :
    p ≤ t.lo ∧ t.lo < t.hi ∧ t.hi ≤ q := by
  obtain ⟨B, C, rfl⟩ := List.append_of_mem ht
  obtain ⟨m, hB, hm, hlt, hC⟩ := h.append
  have h1 := hB.le
  have h2 := hC.le
  omega

/-- Tiles that overlap are the same. -/
theorem Laid.eq_of_overlap {p q : Nat} {A : List Tile} (h : Laid p q A) {s t : Tile}
    (hs : s ∈ A) (ht : t ∈ A) (hst : s.lo < t.hi) (hts : t.lo < s.hi) : s = t := by
  induction A generalizing p with
  | nil => cases hs
  | cons a A ih =>
    obtain ⟨hp, ha, hr⟩ := h
    cases hs with
    | head =>
      cases ht with
      | head => rfl
      | tail _ ht => exact absurd (hr.bounds ht).1 (by omega)
    | tail _ hs =>
      cases ht with
      | head => exact absurd (hr.bounds hs).1 (by omega)
      | tail _ ht => exact ih hr hs ht

/-! What the forest says about the masks. -/

/-- The first `count` units: the root of each, and the hull of each root. -/
structure Hulls where
  count : Nat
  root : Nat → Nat
  lo : Nat → Nat
  hi : Nat → Nat

def Hulls.merge (h : Hulls) (R : List Nat) (a b : Nat) : Hulls where
  count := h.count + 1
  root u := if u = h.count then u else if h.root u ∈ R then h.count else h.root u
  lo u := if u = h.count then a else h.lo u
  hi u := if u = h.count then b else h.hi u

/-- The range of original text a piece stands for. -/
def Hulls.left (h : Hulls) (p : Piece) : Nat :=
  match p.unit with
  | none => p.start
  | some u => h.lo (h.root u)

def Hulls.right (h : Hulls) (p : Piece) : Nat :=
  match p.unit with
  | none => p.start + p.body.length
  | some u => h.hi (h.root u)

/-- A piece of the mask of root `r`. -/
def Hulls.Mask (h : Hulls) (r : Nat) (p : Piece) : Prop :=
  p.body ≠ [] ∧ ∃ u, p.unit = some u ∧ u < h.count ∧ h.root u = r

def Tile.Ok (text : Text) (h : Hulls) (t : Tile) : Prop :=
  match t.unit with
  | none => t.pieces = [⟨none, t.lo, slice text t.lo t.hi⟩]
  | some r => (r < h.count ∧ h.root r = r ∧ h.lo r = t.lo ∧ h.hi r = t.hi) ∧
      ∀ p ∈ t.pieces, h.Mask r p

structure Tiling (text : Text) (h : Hulls) (ghosts : List Nat) (tiles : List Tile) : Prop where
  laid : Laid 0 text.length tiles
  ok : ∀ t ∈ tiles, t.Ok text h
  placed : ∀ u < h.count, h.root u = u → ∃ t ∈ tiles,
    t.unit = some u ∨ (t.unit.isSome ∧ t.lo < h.lo u ∧ h.lo u < h.hi u ∧ h.hi u ≤ t.hi)
  shown : ∀ t ∈ tiles, ∀ r, t.unit = some r → t.pieces = [] → ∃ g ∈ ghosts, h.root g = r
  known : ∀ g ∈ ghosts, g < h.count

theorem Tile.Ok.raw {text : Text} {h : Hulls} {t : Tile} (ok : t.Ok text h) (ht : t.unit = none) :
    t.pieces = [⟨none, t.lo, slice text t.lo t.hi⟩] := by
  simpa only [Tile.Ok, ht] using ok

theorem Tile.Ok.hull {text : Text} {h : Hulls} {t : Tile} {r : Nat} (ok : t.Ok text h)
    (ht : t.unit = some r) : r < h.count ∧ h.root r = r ∧ h.lo r = t.lo ∧ h.hi r = t.hi := by
  simp only [Tile.Ok, ht] at ok
  exact ok.1

theorem Tile.Ok.mask {text : Text} {h : Hulls} {t : Tile} {r : Nat} (ok : t.Ok text h)
    (ht : t.unit = some r) {p : Piece} (hp : p ∈ t.pieces) : h.Mask r p := by
  simp only [Tile.Ok, ht] at ok
  exact ok.2 p hp

/-- A piece stands for its whole tile. -/
theorem Tile.Ok.piece {text : Text} {h : Hulls} {t : Tile} (ok : t.Ok text h)
    (hhi : t.hi ≤ text.length) (hle : t.lo < t.hi) {p : Piece} (hp : p ∈ t.pieces) :
    h.left p = t.lo ∧ h.right p = t.hi ∧ p.body ≠ [] := by
  cases ht : t.unit with
  | none =>
    rw [ok.raw ht, List.mem_singleton] at hp
    have hlen := length_slice text (a := t.lo) hhi
    subst hp
    refine ⟨rfl, ?_, ?_⟩
    · simp only [Hulls.right, hlen]
      omega
    · intro he
      have hnil : slice text t.lo t.hi = [] := he
      rw [hnil, List.length_nil] at hlen
      omega
  | some r =>
    obtain ⟨hb, u, hu, _, hr⟩ := ok.mask ht hp
    obtain ⟨_, _, hlo, hhi⟩ := ok.hull ht
    simp only [Hulls.left, Hulls.right, hu, hr]
    exact ⟨hlo, hhi, hb⟩

theorem Tiling.piece {text : Text} {h : Hulls} {ghosts : List Nat} {tiles : List Tile}
    (T : Tiling text h ghosts tiles) {t : Tile} (ht : t ∈ tiles) {p : Piece} (hp : p ∈ t.pieces) :
    h.left p = t.lo ∧ h.right p = t.hi ∧ p.body ≠ [] := by
  obtain ⟨_, hlt, hhi⟩ := T.laid.bounds ht
  exact (T.ok t ht).piece hhi hlt hp

/-- A tile is masked by the root of each of its masks. -/
theorem Tile.Ok.unit_of_mask {text : Text} {h : Hulls} {t : Tile} (ok : t.Ok text h) {p : Piece}
    (hp : p ∈ t.pieces) {u : Nat} (hu : p.unit = some u) : t.unit = some (h.root u) := by
  cases ht : t.unit with
  | none =>
    rw [ok.raw ht, List.mem_singleton] at hp
    subst hp
    cases hu
  | some r =>
    obtain ⟨_, v, hv, _, hr⟩ := ok.mask ht hp
    rw [hv] at hu
    cases hu
    rw [hr]

theorem Tiling.eq_of_unit {text : Text} {h : Hulls} {ghosts : List Nat} {tiles : List Tile}
    (T : Tiling text h ghosts tiles) {s t : Tile} (hs : s ∈ tiles) (ht : t ∈ tiles) {r : Nat}
    (hsr : s.unit = some r) (htr : t.unit = some r) : s = t := by
  have h1 := (T.ok s hs).hull hsr
  have h2 := (T.ok t ht).hull htr
  have h3 := T.laid.bounds hs
  have h4 := T.laid.bounds ht
  exact T.laid.eq_of_overlap hs ht (by omega) (by omega)

/-! Cutting a piece in two. -/

theorem cut_body (p : Piece) (a b : Nat) : (p.cut a b).body = slice p.body a b := rfl

theorem slice_ne_nil {α : Type*} {xs : List α} {a b : Nat} (hab : a < b) (hb : b ≤ xs.length) :
    slice xs a b ≠ [] := by
  intro he
  have hlen := length_slice xs (a := a) hb
  rw [he, List.length_nil] at hlen
  omega

theorem Hulls.Mask.cut {h : Hulls} {r : Nat} {p : Piece} (hp : h.Mask r p) {a b : Nat}
    (hab : a < b) (hb : b ≤ p.body.length) : h.Mask r (p.cut a b) :=
  ⟨slice_ne_nil hab hb, hp.2⟩

/-- Other tiles over the same range, with the same masks. -/
theorem Tiling.replace {text : Text} {h : Hulls} {ghosts : List Nat} {A B N N' : List Tile}
    (T : Tiling text h ghosts (A ++ N ++ B)) (hlaid : ∀ p q, Laid p q N → Laid p q N')
    (hok : ∀ t ∈ N', t.Ok text h)
    (hplaced : ∀ t ∈ N, t.unit.isSome → ∃ t' ∈ N', t'.unit = t.unit ∧ t'.lo = t.lo ∧ t'.hi = t.hi)
    (hshown : ∀ t ∈ N', t.pieces ≠ []) : Tiling text h ghosts (A ++ N' ++ B) := by
  constructor
  · obtain ⟨q, hAN, hB⟩ := T.laid.append
    obtain ⟨p, hA, hN⟩ := hAN.append
    exact (hA.join (hlaid p q hN)).join hB
  · intro t ht
    simp only [List.mem_append] at ht
    obtain (ht | ht) | ht := ht
    · exact T.ok t (by simp [ht])
    · exact hok t ht
    · exact T.ok t (by simp [ht])
  · intro u hu hr
    obtain ⟨t, ht, hin⟩ := T.placed u hu hr
    simp only [List.mem_append] at ht
    obtain (ht | ht) | ht := ht
    · exact ⟨t, by simp [ht], hin⟩
    · have hsome : t.unit.isSome := by
        obtain hin | hin := hin
        · rw [hin]
          rfl
        · exact hin.1
      obtain ⟨t', ht', hunit, hlo, hhi⟩ := hplaced t ht hsome
      exact ⟨t', by simp [ht'], by rwa [hunit, hlo, hhi]⟩
    · exact ⟨t, by simp [ht], hin⟩
  · intro t ht r hr hnil
    simp only [List.mem_append] at ht
    obtain (ht | ht) | ht := ht
    · exact T.shown t (by simp [ht]) r hr hnil
    · exact absurd hnil (hshown t ht)
    · exact T.shown t (by simp [ht]) r hr hnil
  · exact T.known

theorem Tiling.cut {text : Text} {h : Hulls} {ghosts : List Nat} {tiles : List Tile}
    (T : Tiling text h ghosts tiles) {X Y : List Piece} {p : Piece}
    (hp : tiles.flatMap Tile.pieces = X ++ p :: Y) {k : Nat} (hk : 0 < k) (hkp : k < p.body.length) :
    ∃ tiles', Tiling text h ghosts tiles' ∧
      tiles'.flatMap Tile.pieces = X ++ p.cut 0 k :: p.cut k p.body.length :: Y := by
  obtain ⟨A, t, B, xs, ys, rfl, ht, hys, rfl, hY⟩ :=
    flatMap_split_right Tile.pieces hp (List.cons_ne_nil p Y)
  cases ys with
  | nil => exact absurd rfl hys
  | cons y ys =>
  rw [List.cons_append, List.cons.injEq] at hY
  obtain ⟨rfl, rfl⟩ := hY
  have hmem : t ∈ A ++ t :: B := by simp
  have hsplit : A ++ t :: B = A ++ [t] ++ B := by simp
  obtain ⟨_, hlt, hhi⟩ := T.laid.bounds hmem
  cases hu : t.unit with
  | none =>
    have hraw := (T.ok t hmem).raw hu
    have hone : xs = [] ∧ p = ⟨none, t.lo, slice text t.lo t.hi⟩ ∧ ys = [] := by
      rw [ht] at hraw
      cases xs with
      | nil => simpa using hraw
      | cons x xs => simp at hraw
    obtain ⟨rfl, rfl, rfl⟩ := hone
    have hlen := length_slice text (a := t.lo) hhi
    simp only [hlen] at hkp
    have hleft : slice (slice text t.lo t.hi) 0 k = slice text t.lo (t.lo+k) := by
      rw [slice_slice _ _ _ _ _ (by omega), Nat.add_zero]
    have hright : slice (slice text t.lo t.hi) k (t.hi-t.lo) = slice text (t.lo+k) t.hi := by
      rw [slice_slice _ _ _ _ _ (by omega), Nat.add_sub_cancel' hlt.le]
    rw [hsplit] at T
    refine ⟨A ++ [⟨t.lo, t.lo+k, none, [⟨none, t.lo, slice text t.lo (t.lo+k)⟩]⟩,
      ⟨t.lo+k, t.hi, none, [⟨none, t.lo+k, slice text (t.lo+k) t.hi⟩]⟩] ++ B, T.replace ?_ ?_ ?_ ?_, ?_⟩
    · intro p q hN
      obtain ⟨h1, h2, h3⟩ := hN
      exact ⟨h1, by simp only []; omega, rfl, by simp only []; omega, h3⟩
    · intro s hs
      simp only [List.mem_cons, List.not_mem_nil, or_false] at hs
      obtain rfl | rfl := hs <;> rfl
    · intro s hs hsome
      rw [List.mem_singleton] at hs
      rw [hs, hu] at hsome
      cases hsome
    · intro s hs
      simp only [List.mem_cons, List.not_mem_nil, or_false] at hs
      obtain rfl | rfl := hs <;> simp
    · simp [Piece.cut, hleft, hright, hlen]
  | some r =>
    have hmask : ∀ x ∈ xs ++ p :: ys, h.Mask r x := fun x hx =>
      (T.ok t hmem).mask hu (ht ▸ hx)
    have hpm := hmask p (by simp)
    rw [hsplit] at T
    refine ⟨A ++ [⟨t.lo, t.hi, t.unit, xs ++ p.cut 0 k :: p.cut k p.body.length :: ys⟩] ++ B,
      T.replace ?_ ?_ ?_ ?_, ?_⟩
    · exact fun p q hN => hN
    · intro s hs
      rw [List.mem_singleton] at hs
      subst hs
      simp only [Tile.Ok, hu]
      refine ⟨(T.ok t (by simp)).hull hu, ?_⟩
      intro x hx
      simp only [List.mem_append, List.mem_cons] at hx
      obtain hx | rfl | rfl | hx := hx
      · exact hmask x (by simp [hx])
      · exact hpm.cut hk hkp.le
      · exact hpm.cut hkp (le_refl _)
      · exact hmask x (by simp [hx])
    · intro s hs _
      rw [List.mem_singleton] at hs
      subst hs
      exact ⟨_, List.mem_singleton.mpr rfl, rfl, rfl, rfl⟩
    · intro s hs
      rw [List.mem_singleton] at hs
      subst hs
      simp
    · simp

/-! Putting a new mask over some pieces. -/

/-- `a` and `b` bound the original text that the pieces stand for. -/
def Hulls.Bounds (h : Hulls) (M : List Piece) (a b : Nat) : Prop :=
  ((∃ p ∈ M, h.left p = a) ∧ ∀ p ∈ M, a ≤ h.left p) ∧
  ((∃ p ∈ M, h.right p = b) ∧ ∀ p ∈ M, h.right p ≤ b)

/-- `R` lists the roots of the masks among the pieces. -/
def Hulls.RootsOf (h : Hulls) (M : List Piece) (R : List Nat) : Prop :=
  ∀ r, r ∈ R ↔ ∃ p ∈ M, ∃ u, p.unit = some u ∧ h.root u = r

theorem Hulls.merge_root_of_mem {h : Hulls} {R : List Nat} (a b : Nat) {u : Nat}
    (hu : h.root u ∈ R) : (h.merge R a b).root u = h.count := by
  simp only [Hulls.merge]
  split
  · assumption
  · rfl

theorem Hulls.merge_root_of_not_mem {h : Hulls} {R : List Nat} (a b : Nat) {u : Nat}
    (hlt : u < h.count) (hu : h.root u ∉ R) : (h.merge R a b).root u = h.root u := by
  simp [Hulls.merge, hlt.ne, hu]

theorem Hulls.merge_root_new (h : Hulls) (R : List Nat) (a b : Nat) :
    (h.merge R a b).root h.count = h.count := by simp [Hulls.merge]

theorem Hulls.merge_hull_old {h : Hulls} {R : List Nat} (a b : Nat) {u : Nat}
    (hlt : u < h.count) :
    (h.merge R a b).lo u = h.lo u ∧ (h.merge R a b).hi u = h.hi u := by
  simp [Hulls.merge, hlt.ne]

theorem Tile.Ok.merge {text : Text} {h : Hulls} {t : Tile} {R : List Nat} {a b : Nat}
    (ok : t.Ok text h) (hR : ∀ r, t.unit = some r → r ∉ R) : t.Ok text (h.merge R a b) := by
  cases ht : t.unit with
  | none => simpa only [Tile.Ok, ht] using ok.raw ht
  | some r =>
    obtain ⟨hlt, hr, hlo, hhi⟩ := ok.hull ht
    have hnot := hR r ht
    obtain ⟨hlo', hhi'⟩ := Hulls.merge_hull_old (R := R) a b hlt
    simp only [Tile.Ok, ht]
    refine ⟨⟨Nat.lt_succ_of_lt hlt, ?_, hlo'.trans hlo, hhi'.trans hhi⟩, ?_⟩
    · rw [Hulls.merge_root_of_not_mem a b hlt (hr.symm ▸ hnot), hr]
    · intro p hp
      obtain ⟨hb, u, hu, hult, hur⟩ := ok.mask ht hp
      refine ⟨hb, u, hu, Nat.lt_succ_of_lt hult, ?_⟩
      rw [Hulls.merge_root_of_not_mem a b hult (hur.symm ▸ hnot), hur]

/-- The pieces of a root that is merged become pieces of the new one. -/
theorem Hulls.Mask.merge {h : Hulls} {r : Nat} {p : Piece} (hp : h.Mask r p) {R : List Nat}
    (hr : r ∈ R) {a b : Nat} : (h.merge R a b).Mask h.count p := by
  obtain ⟨hbody, u, hu, hlt, hur⟩ := hp
  exact ⟨hbody, u, hu, Nat.lt_succ_of_lt hlt, Hulls.merge_root_of_mem a b (hur.symm ▸ hr)⟩

/-- Only a masked tile has more than one piece. -/
theorem Tile.Ok.masked_of_split {text : Text} {h : Hulls} {t : Tile} (ok : t.Ok text h)
    {xs ys : List Piece} (ht : t.pieces = xs ++ ys) {x y : Piece} (hx : x ∈ xs) (hy : y ∈ ys) :
    ∃ r, t.unit = some r := by
  cases hu : t.unit with
  | some r => exact ⟨r, rfl⟩
  | none =>
    have hraw := ok.raw hu
    rw [ht, List.append_eq_singleton_iff] at hraw
    obtain ⟨rfl, _⟩ | ⟨_, rfl⟩ := hraw
    · cases hx
    · cases hy

theorem Tiling.overwrite {text : Text} {h : Hulls} {ghosts : List Nat} {tiles : List Tile}
    (T : Tiling text h ghosts tiles) {X M Y : List Piece}
    (hf : tiles.flatMap Tile.pieces = X ++ M ++ Y) (hM : M ≠ []) {R : List Nat}
    (hR : h.RootsOf M R) {a b : Nat} (hab : h.Bounds M a b) (rep : Text) :
    ∃ tiles', Tiling text (h.merge R a b) (ghosts ++ if rep.isEmpty then [h.count] else []) tiles' ∧
      tiles'.flatMap Tile.pieces =
        X ++ (if rep.isEmpty then [] else [⟨some h.count, 0, rep⟩]) ++ Y := by
  obtain ⟨A, N, B, first, N₁, last, N₂, xs, m, zs, ys, rfl, hN₁, hN₂, rfl, rfl, hN,
    ⟨hfirst, pf, hpfM, hpf⟩, hlast, pl, hplM, hpl⟩ := flatMap_window Tile.pieces hf hM
  have hNmem {t : Tile} (ht : t ∈ N) : t ∈ A ++ N ++ B := by simp [ht]
  have hfN : first ∈ N := by rw [hN₁]; simp
  have hlN : last ∈ N := by rw [hN₂]; simp
  obtain ⟨q, hAN, hlaidB⟩ := T.laid.append
  obtain ⟨p, hlaidA, hlaidN⟩ := hAN.append
  -- the window runs from the first tile to the last
  have hp : first.lo = p := by
    rw [hN₁] at hlaidN
    exact hlaidN.1
  have hq : last.hi = q := by
    rw [hN₂] at hlaidN
    obtain ⟨_, _, _, _, hq⟩ := hlaidN.append
    exact hq
  have hin {t : Tile} (ht : t ∈ N) := hlaidN.bounds ht
  have hpq : p < q := by
    have := hin hfN
    omega
  have hMtile : ∀ x ∈ M, ∃ t ∈ N, x ∈ t.pieces := by
    intro x hx
    have hxN : x ∈ N.flatMap Tile.pieces := by
      rw [hN]
      simp [hx]
    exact List.mem_flatMap.mp hxN
  have ha : a = p := by
    obtain ⟨⟨⟨x, hx, hxa⟩, hmin⟩, _⟩ := hab
    obtain ⟨t, ht, hxt⟩ := hMtile x hx
    have h1 := (T.piece (hNmem ht) hxt).1
    have h2 := (T.piece (hNmem hfN) (hfirst ▸ List.mem_append_right xs hpf)).1
    have h3 := hmin pf hpfM
    have h4 := hin ht
    omega
  have hb : b = q := by
    obtain ⟨_, ⟨⟨x, hx, hxb⟩, hmax⟩⟩ := hab
    obtain ⟨t, ht, hxt⟩ := hMtile x hx
    have h1 := (T.piece (hNmem ht) hxt).2.1
    have h2 := (T.piece (hNmem hlN) (hlast ▸ List.mem_append_left ys hpl)).2.1
    have h3 := hmax pl hplM
    have h4 := hin ht
    omega
  subst ha hb
  -- roots taken are roots of tiles in the window
  have hRtile : ∀ r ∈ R, ∃ t ∈ N, t.unit = some r := by
    intro r hr
    obtain ⟨x, hx, u, hu, hur⟩ := (hR r).mp hr
    obtain ⟨t, ht, hxt⟩ := hMtile x hx
    exact ⟨t, ht, hur ▸ (T.ok t (hNmem ht)).unit_of_mask hxt hu⟩
  have hRlt : ∀ r ∈ R, r < h.count := by
    intro r hr
    obtain ⟨t, ht, htr⟩ := hRtile r hr
    exact ((T.ok t (hNmem ht)).hull htr).1
  have hout {t : Tile} (ht : t ∈ A ∨ t ∈ B) : ∀ r, t.unit = some r → r ∉ R := by
    intro r htr hr
    obtain ⟨s, hs, hsr⟩ := hRtile r hr
    have hmem : t ∈ A ++ N ++ B := by
      obtain ht | ht := ht <;> simp [ht]
    have hst := T.eq_of_unit (hNmem hs) hmem hsr htr
    subst hst
    have h1 := hin hs
    obtain ht | ht := ht
    · have := hlaidA.bounds ht
      omega
    · have := hlaidB.bounds ht
      omega
  have hfirstR {r : Nat} (hr : first.unit = some r) : r ∈ R := by
    have hpm := (T.ok first (hNmem hfN)).mask hr (hfirst ▸ List.mem_append_right xs hpf)
    obtain ⟨_, u, hu, _, hur⟩ := hpm
    exact (hR r).mpr ⟨pf, hpfM, u, hu, hur⟩
  have hlastR {r : Nat} (hr : last.unit = some r) : r ∈ R := by
    have hpm := (T.ok last (hNmem hlN)).mask hr (hlast ▸ List.mem_append_left ys hpl)
    obtain ⟨_, u, hu, _, hur⟩ := hpm
    exact (hR r).mpr ⟨pl, hplM, u, hu, hur⟩
  -- what is left of the first and the last tile joins the new mask
  have hxs : ∀ x ∈ xs, (h.merge R a b).Mask h.count x := by
    intro x hx
    obtain ⟨r, hr⟩ := (T.ok first (hNmem hfN)).masked_of_split hfirst hx hpf
    exact ((T.ok first (hNmem hfN)).mask hr (hfirst ▸ List.mem_append_left m hx)).merge (hfirstR hr)
  have hys : ∀ x ∈ ys, (h.merge R a b).Mask h.count x := by
    intro x hx
    obtain ⟨r, hr⟩ := (T.ok last (hNmem hlN)).masked_of_split hlast hpl hx
    exact ((T.ok last (hNmem hlN)).mask hr (hlast ▸ List.mem_append_right zs hx)).merge (hlastR hr)
  let mid : List Piece := if rep.isEmpty then [] else [⟨some h.count, 0, rep⟩]
  let new : Tile := ⟨a, b, some h.count, xs ++ mid ++ ys⟩
  have hmid : ∀ x ∈ mid, (h.merge R a b).Mask h.count x := by
    intro x hx
    by_cases hrep : rep.isEmpty
    · simp [mid, hrep] at hx
    · simp only [mid, hrep, Bool.false_eq_true, if_false, List.mem_singleton] at hx
      subst hx
      exact ⟨by simpa using hrep, h.count, rfl, Nat.lt_succ_self _, Hulls.merge_root_new h R a b⟩
  refine ⟨A ++ [new] ++ B, ⟨?_, ?_, ?_, ?_, ?_⟩, by simp [new, mid]⟩
  · have hnew : Laid a b [new] := ⟨rfl, hpq, rfl⟩
    exact (hlaidA.join hnew).join hlaidB
  · intro t ht
    simp only [List.mem_append, List.mem_singleton] at ht
    obtain (ht | rfl) | ht := ht
    · exact (T.ok t (by simp [ht])).merge (hout (Or.inl ht))
    · refine ⟨⟨Nat.lt_succ_self _, Hulls.merge_root_new h R a b, by simp [Hulls.merge, new],
        by simp [Hulls.merge, new]⟩, ?_⟩
      intro x hx
      simp only [new, List.mem_append] at hx
      obtain (hx | hx) | hx := hx
      · exact hxs x hx
      · exact hmid x hx
      · exact hys x hx
    · exact (T.ok t (by simp [ht])).merge (hout (Or.inr ht))
  · intro u hu hru
    obtain hlt | rfl : u < h.count ∨ u = h.count := by
      have hlt : u < h.count + 1 := hu
      omega
    · have hnot : h.root u ∉ R := by
        intro hm
        rw [Hulls.merge_root_of_mem a b hm] at hru
        omega
      rw [Hulls.merge_root_of_not_mem a b hlt hnot] at hru
      obtain ⟨hlo, hhi⟩ := Hulls.merge_hull_old (R := R) a b hlt
      rw [hlo, hhi]
      obtain ⟨t, ht, hcase⟩ := T.placed u hlt hru
      have hkeep : t ∈ N ∨ t ∈ A ++ [new] ++ B := by
        simp only [List.mem_append] at ht ⊢
        obtain (ht | ht) | ht := ht <;> simp [ht]
      obtain hN | hkeep := hkeep
      · refine ⟨new, by simp, Or.inr ⟨rfl, ?_⟩⟩
        have hbt := hin hN
        simp only [new]
        obtain hunit | hinner := hcase
        · obtain ⟨_, _, hulo, huhi⟩ := (T.ok t ht).hull hunit
          have hne : first.lo ≠ t.lo := by
            intro he
            have h1 := hin hfN
            have hft := T.laid.eq_of_overlap (hNmem hfN) ht (by omega) (by omega)
            exact hnot (hru.symm ▸ hfirstR (hft ▸ hunit))
          omega
        · omega
      · exact ⟨t, hkeep, hcase⟩
    · exact ⟨new, by simp, Or.inl rfl⟩
  · intro t ht r htr hnil
    simp only [List.mem_append, List.mem_singleton] at ht
    have hold (ht : t ∈ A ∨ t ∈ B) :
        ∃ g ∈ ghosts ++ if rep.isEmpty then [h.count] else [], (h.merge R a b).root g = r := by
      have hmem : t ∈ A ++ N ++ B := by
        obtain ht | ht := ht <;> simp [ht]
      obtain ⟨g, hg, hgr⟩ := T.shown t hmem r htr hnil
      refine ⟨g, List.mem_append_left _ hg, ?_⟩
      rw [Hulls.merge_root_of_not_mem a b (T.known g hg) (hgr.symm ▸ hout ht r htr), hgr]
    obtain (ht | rfl) | ht := ht
    · exact hold (Or.inl ht)
    · simp only [new, Option.some.injEq] at htr
      simp only [new, List.append_eq_nil_iff] at hnil
      have hrep : rep.isEmpty := by
        by_contra hne
        simp [mid, hne] at hnil
      exact ⟨h.count, by simp [hrep], htr ▸ Hulls.merge_root_new h R a b⟩
    · exact hold (Or.inr ht)
  · intro g hg
    rw [List.mem_append] at hg
    obtain hg | hg := hg
    · exact Nat.lt_succ_of_lt (T.known g hg)
    · split at hg
      · rw [List.mem_singleton] at hg
        exact hg ▸ Nat.lt_succ_self _
      · cases hg

end XgenSdk.Tiles
