import XgenSdk.ControlPolicy.CfbWrite
import XgenSdk.Lib.Checks
import XgenSdk.Lib.Trees
import Mathlib.Data.Nat.Log

/-! The trees that siblings are linked in. -/
namespace XgenSdk.Cfb
open XgenSdk.Py XgenSdk.Trees XgenSdk.Sorting

/-- The links from one on are a tree. -/
def Linked (links : Links) : BinaryTree Nat → Nat → Prop
  | .nil, v => v = noStream
  | .node sid l r, v => v = sid ∧ Linked links l (links sid).left ∧ Linked links r (links sid).right

def isRed (links : Links) (sid : Nat) : Bool := (links sid).color == redColor

/-- The siblings are linked in their order in a red-black tree. Its height is the number of its levels, and the root is on level 0. -/
def Balanced (links : Links) (sids : List Nat) (root : Nat) : Prop :=
  ∃ t, Linked links t root ∧ inorder t = sids ∧ t.height ≤ Nat.log 2 sids.length + 1 ∧ RedBlack (isRed links) t

/-- The sides and the colours of these entries are the same. -/
def SameSides (links other : Links) (sids : List Nat) : Prop :=
  ∀ sid ∈ sids, (other sid).left = (links sid).left ∧ (other sid).right = (links sid).right ∧ (other sid).color = (links sid).color

theorem Linked.congr {links other : Links} {t : BinaryTree Nat} {v : Nat} (h : Linked links t v)
    (hsame : ∀ sid ∈ inorder t, (other sid).left = (links sid).left ∧ (other sid).right = (links sid).right) : Linked other t v := by
  induction t generalizing v with
  | nil => exact h
  | node sid l r ihl ihr =>
    obtain ⟨hv, hl, hr⟩ := h
    obtain ⟨hleft, hright⟩ := hsame sid (mem_inorder_node.mpr (.inl rfl))
    refine ⟨hv, ?_, ?_⟩
    · rw [hleft]
      exact ihl hl fun a ha => hsame a (mem_inorder_node.mpr (.inr (.inl ha)))
    · rw [hright]
      exact ihr hr fun a ha => hsame a (mem_inorder_node.mpr (.inr (.inr ha)))

theorem Balanced.congr {links other : Links} {sids : List Nat} {root : Nat} (h : Balanced links sids root)
    (hsame : SameSides links other sids) : Balanced other sids root := by
  obtain ⟨t, hlinked, rfl, hheight, hred⟩ := h
  refine ⟨t, hlinked.congr fun sid hsid => ?_, rfl, hheight, hred.congr fun sid hsid => ?_⟩
  · obtain ⟨hleft, hright, -⟩ := hsame sid hsid
    exact ⟨hleft, hright⟩
  · rw [isRed, isRed, (hsame sid hsid).2.2]

/-! Building. -/

/-- The depth noted of an entry. -/
def depthOf (depth : Dict Nat Nat) (sid : Nat) : Nat := (depth.get sid).getD 0

/-- What building does with the siblings, and that it leaves all others alone. -/
structure Built (level : Nat) (sids : List Nat) (s : Linking) (root : Nat) (s' : Linking) (t : BinaryTree Nat) : Prop where
  inorder : inorder t = sids
  even : Even t
  linked : Linked s'.links t root
  levelled : Levelled (depthOf s'.depth) level t
  noted : ∀ sid ∈ sids, s'.depth.get sid ≠ none
  links : ∀ sid ∉ sids, s'.links sid = s.links sid
  child : ∀ sid, (s'.links sid).child = (s.links sid).child
  depth : ∀ sid ∉ sids, s'.depth.get sid = s.depth.get sid

theorem build_nil (level : Nat) (s : Linking) : build level [] s = (noStream, s) := by
  rw [build]
  split
  · rfl
  · rename_i h
    cases h

theorem build_middle {level : Nat} {before : List Nat} {sid : Nat} {after : List Nat} {s sl sr : Linking} {v w : Nat}
    (hmiddle : before.length = (before ++ sid :: after).length / 2)
    (hl : build (level + 1) before { s with depth := s.depth.set sid level } = (v, sl))
    (hr : build (level + 1) after { sl with links := setLeft sl.links sid v } = (w, sr)) :
    build level (before ++ sid :: after) s = (sid, { sr with links := setRight sr.links sid w }) := by
  have htake : (before ++ sid :: after).take ((before ++ sid :: after).length / 2) = before := by rw [← hmiddle, List.take_left]
  have hdrop : (before ++ sid :: after).drop ((before ++ sid :: after).length / 2) = sid :: after := by
    rw [← hmiddle, List.drop_left]
  rw [build]
  split
  · rename_i hnil
    rw [hdrop] at hnil
    cases hnil
  · rename_i x xs hx
    obtain ⟨rfl, rfl⟩ := List.cons.inj (hdrop.symm.trans hx)
    dsimp only
    rw [htake, hl, hr]

/-- The middle one joins the two sides. -/
theorem Built.middle {level : Nat} {before : List Nat} {sid : Nat} {after : List Nat} {s sl sr : Linking} {v w : Nat}
    {tl tr : BinaryTree Nat} (hnodup : (before ++ sid :: after).Nodup)
    (hmiddle : before.length = (before ++ sid :: after).length / 2)
    (hl : Built (level + 1) before { s with depth := s.depth.set sid level } v sl tl)
    (hr : Built (level + 1) after { sl with links := setLeft sl.links sid v } w sr tr) :
    Built level (before ++ sid :: after) s sid { sr with links := setRight sr.links sid w } (.node sid tl tr) := by
  rw [List.length_append, List.length_cons] at hmiddle
  obtain ⟨-, hrest, hdisjoint⟩ := List.nodup_append.mp hnodup
  obtain ⟨hafter, -⟩ := List.nodup_cons.mp hrest
  have hbefore : sid ∉ before := fun hin => hdisjoint sid hin sid List.mem_cons_self rfl
  have hapart : ∀ a ∈ before, a ≠ sid ∧ a ∉ after := fun a ha =>
    ⟨fun heq => hbefore (heq ▸ ha), fun hin => hdisjoint a ha a (List.mem_cons_of_mem sid hin) rfl⟩
  have hown : sr.links sid = { sl.links sid with left := v } := (hr.links sid hafter).trans (Function.update_self ..)
  have hother : ∀ a, a ≠ sid → setRight sr.links sid w a = sr.links a := fun a ha => Function.update_of_ne ha ..
  have hearlier : ∀ a ∉ after, a ≠ sid → sr.links a = sl.links a := fun a hin ha =>
    (hr.links a hin).trans (Function.update_of_ne ha ..)
  have hnotedOwn : sr.depth.get sid = some level := by
    rw [hr.depth sid hafter, hl.depth sid hbefore, Dict.get_set, if_pos rfl]
  refine ⟨?_, ⟨?_, ?_, hl.even, hr.even⟩, ⟨rfl, ?_, ?_⟩, ⟨?_, ?_, hr.levelled⟩, ?_, ?_, ?_, ?_⟩
  · rw [Trees.inorder, hl.inorder, hr.inorder]
  · rw [← length_inorder, ← length_inorder, hl.inorder, hr.inorder]
    omega
  · rw [← length_inorder, ← length_inorder, hl.inorder, hr.inorder]
    omega
  · have hleft : (setRight sr.links sid w sid).left = v := by
      rw [setRight, Function.update_self, hown]
    rw [hleft]
    refine hl.linked.congr fun a ha => ?_
    obtain ⟨hne, hin⟩ := hapart a (hl.inorder ▸ ha)
    dsimp only
    rw [hother a hne, hearlier a hin hne]
    exact ⟨rfl, rfl⟩
  · have hright : (setRight sr.links sid w sid).right = w := by rw [setRight, Function.update_self]
    rw [hright]
    refine hr.linked.congr fun a ha => ?_
    have hin : a ∈ after := hr.inorder ▸ ha
    dsimp only
    rw [hother a fun heq => hafter (heq ▸ hin)]
    exact ⟨rfl, rfl⟩
  · rw [depthOf, hnotedOwn]
    rfl
  · refine hl.levelled.congr fun a ha => ?_
    rw [depthOf, depthOf, hr.depth a (hapart a (hl.inorder ▸ ha)).2]
  · intro a ha
    obtain ha | ha := List.mem_append.mp ha
    · rw [hr.depth a (hapart a ha).2]
      exact hl.noted a ha
    · obtain rfl | ha := List.mem_cons.mp ha
      · rw [hnotedOwn]
        exact Option.some_ne_none level
      · exact hr.noted a ha
  · intro a ha
    rw [List.mem_append, List.mem_cons, not_or, not_or] at ha
    obtain ⟨hnotl, hne, hnotr⟩ := ha
    dsimp only
    rw [hother a hne, hearlier a hnotr hne, hl.links a hnotl]
  · intro a
    have hafterwards : (setRight sr.links sid w a).child = (sr.links a).child := by
      by_cases ha : a = sid
      · rw [ha, setRight, Function.update_self]
      · rw [hother a ha]
    have hbetween : (setLeft sl.links sid v a).child = (sl.links a).child := by
      by_cases ha : a = sid
      · rw [ha, setLeft, Function.update_self]
      · rw [setLeft, Function.update_of_ne ha]
    dsimp only
    rw [hafterwards, hr.child a, hbetween, hl.child a]
  · intro a ha
    rw [List.mem_append, List.mem_cons, not_or, not_or] at ha
    obtain ⟨hnotl, hne, hnotr⟩ := ha
    rw [hr.depth a hnotr, hl.depth a hnotl, Dict.get_set, if_neg (Ne.symm hne)]

theorem build_built {sids : List Nat} (hnodup : sids.Nodup) (level : Nat) (s : Linking) :
    ∃ root s' t, build level sids s = (root, s') ∧ Built level sids s root s' t := by
  induction hn : sids.length using Nat.strong_induction_on generalizing sids level s with
  | _ n ih =>
    subst hn
    cases hdrop : sids.drop (sids.length / 2) with
    | nil =>
      have hnil : sids = [] := by
        have hlength := List.drop_eq_nil_iff.mp hdrop
        exact List.length_eq_zero_iff.mp (by omega)
      subst hnil
      exact ⟨_, _, .nil, build_nil level s, rfl, trivial, rfl, trivial, fun a ha => absurd ha List.not_mem_nil, fun _ _ => rfl,
        fun _ => rfl, fun _ _ => rfl⟩
    | cons sid after =>
      obtain ⟨before, hbefore⟩ : ∃ before, sids.take (sids.length / 2) = before := ⟨_, rfl⟩
      have hsplit : sids = before ++ sid :: after := by rw [← hbefore, ← hdrop, List.take_append_drop]
      have hmiddle : before.length = (before ++ sid :: after).length / 2 := by
        rw [← hsplit, ← hbefore, List.length_take]
        omega
      subst hsplit
      obtain ⟨hnodupl, hrest, -⟩ := List.nodup_append.mp hnodup
      have hshort : before.length < (before ++ sid :: after).length ∧ after.length < (before ++ sid :: after).length := by
        rw [List.length_append, List.length_cons]
        omega
      obtain ⟨v, sl, tl, hbuildl, hl⟩ :=
        ih _ hshort.1 hnodupl (level + 1) { s with depth := s.depth.set sid level } rfl
      obtain ⟨w, sr, tr, hbuildr, hr⟩ :=
        ih _ hshort.2 (List.nodup_cons.mp hrest).2 (level + 1) { sl with links := setLeft sl.links sid v } rfl
      exact ⟨_, _, _, build_middle hmiddle hbuildl hbuildr, hl.middle hnodup hmiddle hr⟩

/-! Painting. -/

theorem recolour (color : Nat → Nat) (sids : List Nat) (links : Links) (sid : Nat) :
    sids.foldl (fun links sid => setColor links sid (color sid)) links sid =
      if sid ∈ sids then { links sid with color := color sid } else links sid := by
  induction sids generalizing links with
  | nil => rfl
  | cons first sids ih =>
    rw [List.foldl_cons, ih]
    by_cases hfirst : sid = first
    · subst hfirst
      rw [if_pos List.mem_cons_self, setColor, Function.update_self]
      split <;> rfl
    · rw [setColor, Function.update_of_ne hfirst]
      exact if_congr (by rw [List.mem_cons, or_iff_right hfirst]) rfl rfl

/-- The deepest level that was noted is the last of the tree. -/
theorem Built.deepest {sids : List Nat} {links : Links} {root : Nat} {s' : Linking} {t : BinaryTree Nat} (hne : sids ≠ [])
    (h : Built 0 sids ⟨links, Dict.empty⟩ root s' t) : ∃ deepest, s'.depth.values.max? = some deepest ∧ t.height = deepest + 1 := by
  have htree : t ≠ .nil := by
    rintro rfl
    exact hne h.inorder.symm
  obtain ⟨last, hlast, hlevel⟩ := h.levelled.deepest htree
  refine ⟨depthOf s'.depth last, List.max?_eq_some_iff.mpr ⟨?_, ?_⟩, by omega⟩
  · obtain ⟨level, hget⟩ := Option.ne_none_iff_exists'.mp (h.noted last (h.inorder ▸ hlast))
    refine List.mem_map.mpr ⟨(last, level), s'.depth.mem_entries_iff.mpr hget, ?_⟩
    rw [depthOf, hget]
    rfl
  · intro level hmem
    obtain ⟨⟨sid, level⟩, hentry, rfl⟩ := List.mem_map.mp hmem
    have hget := s'.depth.mem_entries_iff.mp hentry
    have hin : sid ∈ sids := by
      by_contra hout
      have hnone := h.depth sid hout
      rw [hget] at hnone
      cases hnone
    have hlt := h.levelled.lt (h.inorder.symm ▸ hin)
    have hdepth : depthOf s'.depth sid = level := by
      rw [depthOf, hget]
      rfl
    dsimp only
    omega

/-- The siblings are linked in a balanced tree, and nothing else changes. -/
theorem tree_links {sids : List Nat} (hne : sids ≠ []) (hnodup : sids.Nodup) (links : Links) :
    ∃ root linked, tree sids links = .ok (root, linked) ∧ Balanced linked sids root ∧ (∀ sid ∉ sids, linked sid = links sid) ∧
      ∀ sid, (linked sid).child = (links sid).child := by
  obtain ⟨root, s', t, hbuild, hbuilt⟩ := build_built hnodup 0 ⟨links, Dict.empty⟩
  obtain ⟨deepest, hmax, hheight⟩ := hbuilt.deepest hne
  have hnumber : t.numNodes = sids.length := by rw [← length_inorder, hbuilt.inorder]
  have hpaint (sid : Nat) := recolour (fun sid =>
    if sids.length ≠ 2 ^ (deepest + 1) - 1 ∧ s'.depth.get sid = some deepest then redColor else blackColor) sids s'.links sid
  refine ⟨root, paint sids s'.depth deepest s'.links, ?_, ⟨t, ?_, hbuilt.inorder, ?_, ?_⟩, fun sid hsid => ?_, fun sid => ?_⟩
  · rw [tree, hbuild]
    dsimp only
    rw [hmax]
  · refine hbuilt.linked.congr fun sid hsid => ?_
    rw [paint, hpaint, if_pos (hbuilt.inorder ▸ hsid)]
    exact ⟨rfl, rfl⟩
  · rw [hbuilt.even.height_le_iff, hnumber]
    exact Nat.lt_pow_succ_log_self (by decide) _
  · refine hbuilt.even.redBlack hbuilt.levelled hheight fun sid hsid => ?_
    obtain ⟨level, hget⟩ := Option.ne_none_iff_exists'.mp (hbuilt.noted sid (hbuilt.inorder ▸ hsid))
    have hdepth : depthOf s'.depth sid = level := by
      rw [depthOf, hget]
      rfl
    rw [isRed, paint, hpaint, if_pos (hbuilt.inorder ▸ hsid), hnumber, hdepth, hget]
    by_cases hfull : sids.length = 2 ^ (deepest + 1) - 1
    · simp [hfull, redColor, blackColor]
    · by_cases hlast : level = deepest
      · simp [hfull, hlast]
      · simp [hlast, redColor, blackColor]
  · rw [paint, hpaint, if_neg hsid, hbuilt.links sid hsid]
  · rw [paint, hpaint]
    split
    · exact hbuilt.child sid
    · exact hbuilt.child sid

/-! All entries of a document. -/

mutual
theorem sids_nodes (n : Nat) (e : Entry) : ((e.numbered n).nodes).map Entry.sid = List.range' n e.size := by
  cases e with
  | mk sid name kind data clsid state created modified children =>
    rw [Entry.numbered, Entry.nodes, List.map_cons, sids_nodesAll, Entry.size, List.range'_succ]
    rfl

theorem sids_nodesAll (n : Nat) (es : List Entry) : (nodesAll (numberedAll n es)).map Entry.sid = List.range' n (sizeAll es) := by
  cases es with
  | nil => rfl
  | cons e es => rw [numberedAll, nodesAll, List.map_append, sids_nodes, sids_nodesAll, sizeAll, List.range'_append_1]
end

mutual
/-- Below an entry there are the children of all entries from it on. -/
theorem nodes_perm (e : Entry) : e.nodes.Perm (e :: e.nodes.flatMap Entry.children) := by
  cases e with
  | mk sid name kind data clsid state created modified children =>
    rw [Entry.nodes, List.flatMap_cons]
    exact (nodesAll_perm children).cons _

theorem nodesAll_perm (es : List Entry) : (nodesAll es).Perm (es ++ (nodesAll es).flatMap Entry.children) := by
  cases es with
  | nil => exact .nil
  | cons e es =>
    have hboth := (nodes_perm e).append (nodesAll_perm es)
    have hswap : (e.nodes.flatMap Entry.children ++ (es ++ (nodesAll es).flatMap Entry.children)).Perm
        (es ++ (e.nodes.flatMap Entry.children ++ (nodesAll es).flatMap Entry.children)) := List.perm_append_comm_assoc ..
    rw [nodesAll, List.flatMap_append]
    exact hboth.trans (hswap.cons e)
end

/-- The numbers of the children. -/
def childNumbers (node : Entry) : List Nat := node.children.map Entry.sid

/-- No entry is a child twice. -/
theorem nodup_childNumbers (n : Nat) (e : Entry) : ((e.numbered n).nodes.flatMap childNumbers).Nodup := by
  have hperm := (nodes_perm (e.numbered n)).map Entry.sid
  rw [sids_nodes, List.map_cons, List.map_flatMap] at hperm
  exact (List.nodup_cons.mp (hperm.nodup_iff.mp List.nodup_range')).2

/-- The children of a storage are linked in a balanced tree, in the order of their keys. -/
def Tied (upper : Str → Str) (links : Links) (node : Entry) : Prop :=
  holdsChildren node.kind = true → node.children ≠ [] → ∃ siblings keys, siblings.Perm node.children ∧
    List.Forall₂ (fun (c : Entry) k => key upper c.name = .ok k) siblings keys ∧ keys.Pairwise (· ≤ ·) ∧
    (siblings.map Entry.sid).Nodup ∧ Balanced links (siblings.map Entry.sid) (links node.sid).child

section Documents
variable {upper : Str → Str} {links links' : Links} {node : Entry}

theorem ordered_sorted {children siblings : List Entry} (h : ordered upper children = .ok siblings) :
    ∃ keys, siblings.Perm children ∧ List.Forall₂ (fun (c : Entry) k => key upper c.name = .ok k) siblings keys ∧
      keys.Pairwise (· ≤ ·) := by
  obtain ⟨keyed, hkeyed, h⟩ := Checks.bind_ok h
  obtain rfl := Except.ok.inj h
  have heach := Checks.mapM_eq_ok hkeyed
  have hpair : ∀ (c : Entry) (kc : (Nat ×ₗ Str) × Entry), (do let k ← key upper c.name; return (k, c)) = (.ok kc : Writing _) →
      kc.2 = c ∧ key upper kc.2.name = .ok kc.1 := by
    intro c kc hc
    obtain ⟨k, hk, hc⟩ := Checks.bind_ok hc
    obtain rfl := Except.ok.inj hc
    exact ⟨rfl, hk⟩
  have hchildren : children = keyed.map Prod.snd := by
    have hsame := List.forall₂_map_right_iff.mpr (heach.imp fun c kc hc => (hpair c kc hc).1.symm)
    rwa [List.forall₂_eq_eq_eq] at hsame
  have hkeys : ∀ kc ∈ keyed, key upper kc.2.name = .ok kc.1 := fun kc hkc =>
    (Checks.forall₂_right heach kc hkc).elim fun c hc => (hpair c kc hc.2).2
  have hperm := byKey_perm Prod.fst keyed
  refine ⟨(byKey Prod.fst keyed).map Prod.fst, ?_, ?_, ?_⟩
  · rw [hchildren]
    exact hperm.map Prod.snd
  · rw [List.forall₂_map_left_iff, List.forall₂_map_right_iff, List.forall₂_same]
    exact fun kc hkc => hkeys kc (hperm.mem_iff.mp hkc)
  · exact List.pairwise_map.mpr (pairwise_byKey Prod.fst keyed)

theorem Tied.congr (h : Tied upper links node) (hsides : SameSides links links' (childNumbers node))
    (hchild : (links' node.sid).child = (links node.sid).child) : Tied upper links' node := by
  intro hkind hchildren
  obtain ⟨siblings, keys, hperm, hkeys, hsorted, hnodup, hbalanced⟩ := h hkind hchildren
  refine ⟨siblings, keys, hperm, hkeys, hsorted, hnodup, ?_⟩
  rw [hchild]
  exact hbalanced.congr fun sid hsid => hsides sid ((hperm.map Entry.sid).mem_iff.mp hsid)

theorem setChild_sides (links : Links) (sid v : Nat) (sids : List Nat) : SameSides links (setChild links sid v) sids := by
  intro other _
  by_cases hother : other = sid
  · rw [hother, setChild, Function.update_self]
    exact ⟨rfl, rfl, rfl⟩
  · rw [setChild, Function.update_of_ne hother]
    exact ⟨rfl, rfl, rfl⟩

/-- One entry links its own children. -/
theorem linkNode_ties (h : linkNode upper links node = .ok links') (hnodup : (childNumbers node).Nodup) :
    Tied upper links' node ∧ (∀ sids, (∀ sid ∈ sids, sid ∉ childNumbers node) → SameSides links links' sids) ∧
      ∀ sid, sid ≠ node.sid → (links' sid).child = (links sid).child := by
  unfold linkNode at h
  split at h
  · rename_i hholds
    obtain ⟨siblings, hordered, h⟩ := Checks.bind_ok h
    obtain ⟨linked, htree, h⟩ := Checks.bind_ok h
    obtain rfl := Except.ok.inj h
    obtain ⟨keys, hperm, hkeys, hsorted⟩ := ordered_sorted hordered
    have hsids : (siblings.map Entry.sid).Perm (childNumbers node) := hperm.map Entry.sid
    have hne : siblings.map Entry.sid ≠ [] := by
      intro hnil
      rw [List.map_eq_nil_iff] at hnil
      rw [hnil] at hperm
      rw [← hperm.nil_eq] at hholds
      simp at hholds
    have hdistinct := hsids.nodup_iff.mpr hnodup
    obtain ⟨root, linked', htree', hbalanced, hrest, hchild⟩ := tree_links hne hdistinct links
    obtain rfl := Except.ok.inj (htree.symm.trans htree')
    refine ⟨fun _ _ => ⟨siblings, keys, hperm, hkeys, hsorted, hdistinct, ?_⟩, fun sids hout sid hsid => ?_, fun sid hsid => ?_⟩
    · dsimp only
      have hown : (setChild linked' node.sid root node.sid).child = root := by rw [setChild, Function.update_self]
      rw [hown]
      exact hbalanced.congr (setChild_sides linked' node.sid root _)
    · have hsame := setChild_sides linked' node.sid root sids sid hsid
      rwa [hrest sid fun hin => hout sid hsid (hsids.mem_iff.mp hin)] at hsame
    · dsimp only
      rw [setChild, Function.update_of_ne hsid, hchild]
  · rename_i hholds
    obtain rfl := Except.ok.inj h
    refine ⟨fun hkind hchildren => ?_, fun _ _ _ _ => ⟨rfl, rfl, rfl⟩, fun _ _ => rfl⟩
    exact absurd (by simp [hkind, hchildren]) hholds

/-- What one entry has linked, the others leave alone. -/
theorem linkNodes_tie {nodes : List Entry} (h : nodes.foldlM (linkNode upper) links = .ok links')
    (hsids : (nodes.map Entry.sid).Nodup) (hchildren : (nodes.flatMap childNumbers).Nodup) :
    (∀ node ∈ nodes, Tied upper links' node) ∧
      (∀ sids, (∀ sid ∈ sids, sid ∉ nodes.flatMap childNumbers) → SameSides links links' sids) ∧
      ∀ sid, sid ∉ nodes.map Entry.sid → (links' sid).child = (links sid).child := by
  induction nodes generalizing links with
  | nil =>
    obtain rfl := Except.ok.inj h
    exact ⟨fun _ hnode => absurd hnode List.not_mem_nil, fun _ _ _ _ => ⟨rfl, rfl, rfl⟩, fun _ _ => rfl⟩
  | cons node nodes ih =>
    rw [List.foldlM_cons] at h
    obtain ⟨middle, hfirst, hrest⟩ := Checks.bind_ok h
    rw [List.map_cons, List.nodup_cons] at hsids
    rw [List.flatMap_cons] at hchildren
    obtain ⟨hown, hothers, hapart⟩ := List.nodup_append.mp hchildren
    obtain ⟨htied, hsides, hchild⟩ := linkNode_ties hfirst hown
    obtain ⟨htiedRest, hsidesRest, hchildRest⟩ := ih hrest hsids.2 hothers
    refine ⟨fun other hother => ?_, fun sids hout sid hsid => ?_, fun sid hsid => ?_⟩
    · obtain rfl | hother := List.mem_cons.mp hother
      · exact htied.congr (hsidesRest _ fun sid hsid hin => hapart sid hsid sid hin rfl) (hchildRest _ hsids.1)
      · exact htiedRest other hother
    · have hnot := hout sid hsid
      rw [List.flatMap_cons, List.mem_append, not_or] at hnot
      obtain ⟨hleft, hright, hcolor⟩ := hsides [sid] (fun a ha => List.mem_singleton.mp ha ▸ hnot.1) sid (List.mem_singleton_self sid)
      obtain ⟨hleft', hright', hcolor'⟩ :=
        hsidesRest [sid] (fun a ha => List.mem_singleton.mp ha ▸ hnot.2) sid (List.mem_singleton_self sid)
      exact ⟨hleft'.trans hleft, hright'.trans hright, hcolor'.trans hcolor⟩
    · rw [List.map_cons, List.mem_cons, not_or] at hsid
      rw [hchildRest sid hsid.2, hchild sid hsid.1]

end Documents

/-- Siblings are linked in a balanced tree, whichever they are; and so are all siblings of a document. -/
theorem tree_balanced (upper : Str → Str) :
    (∀ (sids : List Nat) (links : Links), sids ≠ [] → sids.Nodup →
      ∃ root linked, tree sids links = .ok (root, linked) ∧ Balanced linked sids root) ∧
    ∀ (root : Entry) (links : Links), linksOf upper (root.numbered 0).nodes = .ok links →
      ∀ node ∈ (root.numbered 0).nodes, Tied upper links node := by
  constructor
  · intro sids links hne hnodup
    obtain ⟨root, linked, htree, hbalanced, -, -⟩ := tree_links hne hnodup links
    exact ⟨root, linked, htree, hbalanced⟩
  · intro root links hlinks
    exact (linkNodes_tie hlinks (by rw [sids_nodes]; exact List.nodup_range') (nodup_childNumbers 0 root)).1

theorem tree_balanced_three : ∃ root linked, tree [3, 1, 2] noLinks = .ok (root, linked) ∧ Balanced linked [3, 1, 2] root :=
  (tree_balanced id).1 [3, 1, 2] noLinks (by decide) (by decide)

end XgenSdk.Cfb
