import Mathlib.Data.Tree.Basic
import Mathlib.Algebra.Order.Ring.Nat
import Mathlib.Data.List.Basic

/-! Binary trees whose sides are even, and red-black trees whose red nodes are those
of one level. -/
namespace XgenSdk.Trees
open BinaryTree
variable {α : Type}

def inorder : BinaryTree α → List α
  | .nil => []
  | .node a l r => inorder l ++ a :: inorder r

theorem length_inorder (t : BinaryTree α) : (inorder t).length = t.numNodes := by
  induction t with
  | nil => rfl
  | node a l r ihl ihr =>
    rw [inorder, List.length_append, List.length_cons, ihl, ihr, numNodes]
    omega

theorem mem_inorder_node {a b : α} {l r : BinaryTree α} :
    b ∈ inorder (.node a l r) ↔ b = a ∨ b ∈ inorder l ∨ b ∈ inorder r := by
  rw [inorder, List.mem_append, List.mem_cons, or_left_comm]

/-! Shape. -/

/-- The fewest nodes on the way to an empty link; the height is the most. -/
def shallowest : BinaryTree α → Nat
  | .nil => 0
  | .node _ l r => min (shallowest l) (shallowest r) + 1

/-- The sides of each node differ by one node at most. -/
def Even : BinaryTree α → Prop
  | .nil => True
  | .node _ l r => l.numNodes ≤ r.numNodes + 1 ∧ r.numNodes ≤ l.numNodes + 1 ∧ Even l ∧ Even r

theorem Even.height_le_iff {t : BinaryTree α} (h : Even t) {k : Nat} : t.height ≤ k ↔ t.numNodes < 2 ^ k := by
  induction t generalizing k with
  | nil => exact iff_of_true (Nat.zero_le k) (Nat.two_pow_pos k)
  | node a l r ihl ihr =>
    obtain ⟨hl, hr, hevenl, hevenr⟩ := h
    rw [height, numNodes]
    cases k with
    | zero => exact iff_of_false (by omega) (by omega)
    | succ k =>
      have hboth : max l.height r.height + 1 ≤ k + 1 ↔ l.numNodes < 2 ^ k ∧ r.numNodes < 2 ^ k := by
        rw [Nat.add_le_add_iff_right, Nat.max_le, ihl hevenl, ihr hevenr]
      rw [hboth, Nat.pow_succ]
      omega

theorem Even.le_shallowest_iff {t : BinaryTree α} (h : Even t) {k : Nat} : k ≤ shallowest t ↔ 2 ^ k ≤ t.numNodes + 1 := by
  induction t generalizing k with
  | nil =>
    cases k with
    | zero => exact iff_of_true (Nat.le_refl 0) (Nat.le_refl 1)
    | succ k =>
      have hpos := Nat.two_pow_pos k
      refine iff_of_false (Nat.not_succ_le_zero k) ?_
      rw [Nat.pow_succ, numNodes]
      omega
  | node a l r ihl ihr =>
    obtain ⟨hl, hr, hevenl, hevenr⟩ := h
    rw [shallowest, numNodes]
    cases k with
    | zero => exact iff_of_true (Nat.zero_le _) (by omega)
    | succ k =>
      have hboth : k + 1 ≤ min (shallowest l) (shallowest r) + 1 ↔ 2 ^ k ≤ l.numNodes + 1 ∧ 2 ^ k ≤ r.numNodes + 1 := by
        rw [Nat.add_le_add_iff_right, Nat.le_min, ihl hevenl, ihr hevenr]
      rw [hboth, Nat.pow_succ]
      omega

/-- Empty links are on two adjacent levels. -/
theorem Even.height_le_shallowest {t : BinaryTree α} (h : Even t) : t.height ≤ shallowest t + 1 := by
  rw [h.height_le_iff]
  by_contra hlarge
  have hdeep : shallowest t + 1 ≤ shallowest t := h.le_shallowest_iff.mpr (by omega)
  omega

/-! Colours. -/

/-- The nodes on the way to each empty link. -/
def paths : BinaryTree α → List (List α)
  | .nil => [[]]
  | .node a l r => (paths l ++ paths r).map (a :: ·)

section Colours
variable (red : α → Bool)

def redRoot : BinaryTree α → Bool
  | .nil => false
  | .node a _ _ => red a

/-- No red node has a red child. -/
def RedApart : BinaryTree α → Prop
  | .nil => True
  | .node a l r => (red a = true → redRoot red l = false ∧ redRoot red r = false) ∧ RedApart l ∧ RedApart r

/-- The root is black, no red node has a red child, and each way to an empty link has as many black nodes. -/
structure RedBlack (t : BinaryTree α) : Prop where
  root : redRoot red t = false
  apart : RedApart red t
  black : ∃ n, ∀ p ∈ paths t, p.countP (fun a => !red a) = n

variable {red} {other : α → Bool}

theorem mem_of_mem_paths {t : BinaryTree α} {p : List α} (hp : p ∈ paths t) {a : α} (ha : a ∈ p) : a ∈ inorder t := by
  induction t generalizing p with
  | nil =>
    rw [List.mem_singleton.mp hp] at ha
    cases ha
  | node b l r ihl ihr =>
    obtain ⟨q, hq, rfl⟩ := List.mem_map.mp hp
    refine mem_inorder_node.mpr ((List.mem_cons.mp ha).imp_right fun ha => ?_)
    exact (List.mem_append.mp hq).imp (fun hq => ihl hq ha) (fun hq => ihr hq ha)

theorem redRoot_congr {t : BinaryTree α} (hsame : ∀ a ∈ inorder t, other a = red a) : redRoot other t = redRoot red t := by
  cases t with
  | nil => rfl
  | node a l r => exact hsame a (mem_inorder_node.mpr (.inl rfl))

theorem RedApart.congr {t : BinaryTree α} (h : RedApart red t) (hsame : ∀ a ∈ inorder t, other a = red a) : RedApart other t := by
  induction t with
  | nil => trivial
  | node a l r ihl ihr =>
    have hl : ∀ b ∈ inorder l, other b = red b := fun b hb => hsame b (mem_inorder_node.mpr (.inr (.inl hb)))
    have hr : ∀ b ∈ inorder r, other b = red b := fun b hb => hsame b (mem_inorder_node.mpr (.inr (.inr hb)))
    obtain ⟨ha, hapartl, hapartr⟩ := h
    refine ⟨fun hred => ?_, ihl hapartl hl, ihr hapartr hr⟩
    rw [redRoot_congr hl, redRoot_congr hr]
    exact ha ((hsame a (mem_inorder_node.mpr (.inl rfl))).symm.trans hred)

theorem RedBlack.congr {t : BinaryTree α} (h : RedBlack red t) (hsame : ∀ a ∈ inorder t, other a = red a) : RedBlack other t := by
  obtain ⟨n, hn⟩ := h.black
  refine ⟨(redRoot_congr hsame).trans h.root, h.apart.congr hsame, n, fun p hp => ?_⟩
  rw [← hn p hp]
  exact List.countP_congr fun a ha => by rw [hsame a (mem_of_mem_paths hp ha)]

end Colours

/-! Levels. -/

/-- Each node has its level, with the root on the given one. -/
def Levelled (level : α → Nat) : Nat → BinaryTree α → Prop
  | _, .nil => True
  | k, .node a l r => level a = k ∧ Levelled level (k + 1) l ∧ Levelled level (k + 1) r

section Levels
variable {level : α → Nat} {red : α → Bool} {k H : Nat} {t : BinaryTree α}

theorem Levelled.congr {other : α → Nat} (h : Levelled level k t) (hsame : ∀ a ∈ inorder t, other a = level a) :
    Levelled other k t := by
  induction t generalizing k with
  | nil => trivial
  | node a l r ihl ihr =>
    obtain ⟨ha, hl, hr⟩ := h
    refine ⟨(hsame a (mem_inorder_node.mpr (.inl rfl))).trans ha, ihl hl fun b hb => ?_, ihr hr fun b hb => ?_⟩
    · exact hsame b (mem_inorder_node.mpr (.inr (.inl hb)))
    · exact hsame b (mem_inorder_node.mpr (.inr (.inr hb)))

theorem Levelled.lt {a : α} (h : Levelled level k t) (ha : a ∈ inorder t) : level a < k + t.height := by
  induction t generalizing k with
  | nil => cases ha
  | node b l r ihl ihr =>
    obtain ⟨hb, hl, hr⟩ := h
    rw [height]
    obtain rfl | ha | ha := mem_inorder_node.mp ha
    · omega
    · have hlt := ihl hl ha
      omega
    · have hlt := ihr hr ha
      omega

/-- Some node is on the last level. -/
theorem Levelled.deepest (h : Levelled level k t) (hne : t ≠ .nil) : ∃ a ∈ inorder t, level a + 1 = k + t.height := by
  induction t generalizing k with
  | nil => exact absurd rfl hne
  | node b l r ihl ihr =>
    obtain ⟨hb, hl, hr⟩ := h
    rw [height]
    by_cases hflat : max l.height r.height = 0
    · exact ⟨b, mem_inorder_node.mpr (.inl rfl), by omega⟩
    · obtain hle | hle := Nat.le_total l.height r.height
      · have hr' : r ≠ .nil := by
          rintro rfl
          exact hflat (by rw [Nat.max_eq_right hle]; rfl)
        obtain ⟨a, ha, hlast⟩ := ihr hr hr'
        exact ⟨a, mem_inorder_node.mpr (.inr (.inr ha)), by omega⟩
      · have hl' : l ≠ .nil := by
          rintro rfl
          exact hflat (by rw [Nat.max_eq_left hle]; rfl)
        obtain ⟨a, ha, hlast⟩ := ihl hl hl'
        exact ⟨a, mem_inorder_node.mpr (.inr (.inl ha)), by omega⟩

/-- The red nodes are those of one level, which is the last where there are any. -/
structure Painted (level : α → Nat) (red : α → Bool) (H k : Nat) (t : BinaryTree α) : Prop where
  levelled : Levelled level k t
  red : ∀ a ∈ inorder t, red a = decide (level a = H)
  shallow : H ≤ k + shallowest t
  deep : k + t.height ≤ H + 1

theorem Painted.children {a : α} {l r : BinaryTree α} (h : Painted level red H k (.node a l r)) :
    red a = decide (k = H) ∧ Painted level red H (k + 1) l ∧ Painted level red H (k + 1) r := by
  obtain ⟨⟨ha, hl, hr⟩, hred, hshallow, hdeep⟩ := h
  rw [shallowest] at hshallow
  rw [height] at hdeep
  refine ⟨?_, ⟨hl, fun b hb => ?_, by omega, by omega⟩, ⟨hr, fun b hb => ?_, by omega, by omega⟩⟩
  · rw [hred a (mem_inorder_node.mpr (.inl rfl)), ha]
  · exact hred b (mem_inorder_node.mpr (.inr (.inl hb)))
  · exact hred b (mem_inorder_node.mpr (.inr (.inr hb)))

theorem Painted.root (h : Painted level red H k t) (hk : k ≠ H) : redRoot red t = false := by
  cases t with
  | nil => rfl
  | node a l r =>
    rw [redRoot, h.children.1]
    exact decide_eq_false hk

theorem Painted.apart (h : Painted level red H k t) : RedApart red t := by
  induction t generalizing k with
  | nil => trivial
  | node a l r ihl ihr =>
    obtain ⟨ha, hl, hr⟩ := h.children
    refine ⟨fun hreda => ?_, ihl hl, ihr hr⟩
    have hk : k = H := of_decide_eq_true (ha ▸ hreda)
    exact ⟨hl.root (by omega), hr.root (by omega)⟩

/-- Each way meets one black node on every level before the painted one. -/
theorem Painted.black (h : Painted level red H k t) : ∀ p ∈ paths t, p.countP (fun a => !red a) = H - k := by
  induction t generalizing k with
  | nil =>
    intro p hp
    have hshallow : H ≤ k + 0 := h.shallow
    rw [List.mem_singleton.mp hp, List.countP_nil]
    omega
  | node a l r ihl ihr =>
    obtain ⟨ha, hl, hr⟩ := h.children
    have hdeep := h.deep
    rw [height] at hdeep
    intro p hp
    obtain ⟨q, hq, rfl⟩ := List.mem_map.mp hp
    have hrest : q.countP (fun b => !red b) = H - (k + 1) := (List.mem_append.mp hq).elim (ihl hl q) (ihr hr q)
    rw [List.countP_cons, hrest, ha]
    by_cases hk : k = H
    · simp [hk]
    · simp only [hk, decide_false, Bool.not_false, if_true]
      omega

theorem Painted.redBlack (h : Painted level red H 0 t) (hH : 0 < H) : RedBlack red t :=
  ⟨h.root (Nat.ne_of_lt hH), h.apart, H, h.black⟩

/-- An even tree is red-black where the nodes of its last level are red, unless that level is full. -/
theorem Even.redBlack (h : Even t) (hlevel : Levelled level 0 t) {deepest : Nat} (hdeepest : t.height = deepest + 1)
    (hred : ∀ a ∈ inorder t, red a = (!decide (t.numNodes = 2 ^ (deepest + 1) - 1) && decide (level a = deepest))) :
    RedBlack red t := by
  have hpos := Nat.two_pow_pos (deepest + 1)
  have hfew : t.numNodes < 2 ^ (deepest + 1) := h.height_le_iff.mp (by omega)
  have heven := h.height_le_shallowest
  by_cases hfull : t.numNodes = 2 ^ (deepest + 1) - 1
  · have hshallow : deepest + 1 ≤ shallowest t := h.le_shallowest_iff.mpr (by omega)
    refine Painted.redBlack (H := deepest + 1) ⟨hlevel, fun a ha => ?_, by omega, by omega⟩ (Nat.succ_pos deepest)
    have hlt := hlevel.lt ha
    rw [hred a ha, decide_eq_true hfull, Bool.not_true, Bool.false_and, decide_eq_false (by omega)]
  · refine Painted.redBlack (H := deepest) ⟨hlevel, fun a ha => ?_, by omega, by omega⟩ ?_
    · rw [hred a ha, decide_eq_false hfull, Bool.not_false, Bool.true_and]
    · -- a tree of one level is full
      by_contra hzero
      obtain rfl : deepest = 0 := by omega
      have hsome : ¬ t.height ≤ 0 := by omega
      rw [h.height_le_iff] at hsome
      omega

end Levels

end XgenSdk.Trees
