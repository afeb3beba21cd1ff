import XgenSdk.ControlPolicy.CfbBalance
import XgenSdk.ControlPolicy.CfbOpened
import XgenSdk.ControlPolicy.CfbTree

/-! The entries of a written file, as the reader finds them: the tree it makes of
them is the one that was written, up to the order of siblings. -/
namespace XgenSdk.Cfb
open XgenSdk.Py XgenSdk.Checks XgenSdk.Trees

/-! Siblings. -/

/-- The entries that are reached in a tree of siblings, in their order: none is reached whose number means no entry. -/
def reached : BinaryTree Nat → List Nat
  | .nil => []
  | .node sid l r => if sid = noStream then [] else sid :: (reached r ++ reached l)

theorem reached_subperm (t : BinaryTree Nat) : (reached t).Subperm (inorder t) := by
  induction t with
  | nil => exact List.Subperm.refl []
  | node sid l r ihl ihr =>
    have hswap : (inorder (.node sid l r)).Perm (sid :: (inorder r ++ inorder l)) :=
      List.perm_middle.trans (List.perm_append_comm.cons sid)
    rw [reached]
    split
    · exact List.nil_subperm
    · exact ((List.subperm_cons sid).mpr (ihr.append ihl)).trans hswap.symm.subperm

theorem reached_perm {t : BinaryTree Nat} (h : noStream ∉ inorder t) : (reached t).Perm (inorder t) := by
  induction t with
  | nil => exact List.Perm.refl []
  | node sid l r ihl ihr =>
    rw [mem_inorder_node, not_or, not_or] at h
    obtain ⟨hsid, hl, hr⟩ := h
    have hswap : (inorder (.node sid l r)).Perm (sid :: (inorder r ++ inorder l)) :=
      List.perm_middle.trans (List.perm_append_comm.cons sid)
    rw [reached, if_neg (Ne.symm hsid)]
    exact (((ihr hr).append (ihl hl)).cons sid).trans hswap.symm

/-- The links of these entries are what their records say. -/
def Says (records : List Bytes) (links : Links) (sids : List Nat) : Prop :=
  ∀ sid ∈ sids, ∃ record, records[sid]? = some record ∧ u32 record 0x44 = .ok (links sid).left ∧ u32 record 0x48 = .ok (links sid).right

section Siblings
variable {records : List Bytes} {links : Links} {t : BinaryTree Nat} {v : Nat}

/-- A tree on the stack is taken off it as a whole. -/
theorem siblingsLoop_linked (hlinked : Linked links t v) (htold : Says records links (inorder t)) (hnodup : (inorder t).Nodup)
    (fuel : Nat) (stack : List Nat) {out : List Nat} (hfresh : ∀ sid ∈ inorder t, sid ∉ out) :
    siblingsLoop records (fuel + (2 * (reached t).length + 1)) (v :: stack) out =
      siblingsLoop records fuel stack (out ++ reached t) := by
  induction t generalizing v fuel stack out with
  | nil =>
    obtain rfl : v = noStream := hlinked
    rw [reached, List.length_nil, List.append_nil, siblingsLoop, if_pos rfl]
  | node sid l r ihl ihr =>
    obtain ⟨rfl, hl, hr⟩ := hlinked
    rw [reached]
    split
    · rename_i hnone
      rw [List.length_nil, List.append_nil, siblingsLoop, if_pos hnone]
    · rename_i hsome
      obtain ⟨record, hrecord, hleft, hright⟩ := htold v (mem_inorder_node.mpr (.inl rfl))
      obtain ⟨hnodupl, hrest, hapart⟩ := List.nodup_append.mp hnodup
      obtain ⟨hown, hnodupr⟩ := List.nodup_cons.mp hrest
      have hin : v < records.length := (List.getElem?_eq_some_iff.mp hrecord).1
      have hvisit : ¬ (out.contains v || decide (records.length ≤ v)) = true := by
        simp only [Bool.or_eq_true, List.contains_iff_mem, decide_eq_true_eq, not_or, not_le]
        exact ⟨hfresh v (mem_inorder_node.mpr (.inl rfl)), hin⟩
      have hitem : item records v = .ok record := by rw [item, hrecord]
      have hfuel : fuel + (2 * (v :: (reached r ++ reached l)).length + 1) =
          fuel + (2 * (reached l).length + 1) + (2 * (reached r).length + 1) + 1 := by
        rw [List.length_cons, List.length_append]
        omega
      have hsaysl : Says records links (inorder l) := fun sid hsid => htold sid (mem_inorder_node.mpr (.inr (.inl hsid)))
      have hsaysr : Says records links (inorder r) := fun sid hsid => htold sid (mem_inorder_node.mpr (.inr (.inr hsid)))
      have hfreshr : ∀ sid ∈ inorder r, sid ∉ out ++ [v] := by
        intro sid hsid hout
        obtain hout | hout := List.mem_append.mp hout
        · exact hfresh sid (mem_inorder_node.mpr (.inr (.inr hsid))) hout
        · exact hown (List.mem_singleton.mp hout ▸ hsid)
      have hfreshl : ∀ sid ∈ inorder l, sid ∉ out ++ [v] ++ reached r := by
        intro sid hsid hout
        obtain hout | hout := List.mem_append.mp hout
        · obtain hout | hout := List.mem_append.mp hout
          · exact hfresh sid (mem_inorder_node.mpr (.inr (.inl hsid))) hout
          · exact hapart sid hsid v List.mem_cons_self (List.mem_singleton.mp hout)
        · exact hapart sid hsid sid (List.mem_cons_of_mem v ((reached_subperm r).subset hout)) rfl
      rw [hfuel, siblingsLoop, if_neg hsome, if_neg hvisit, hitem, ok_bind, hleft, ok_bind, hright, ok_bind,
        ihr hr hsaysr hnodupr _ _ hfreshr, ihl hl hsaysl hnodupl _ _ hfreshl]
      simp only [List.append_assoc, List.cons_append, List.nil_append]

theorem siblings_linked (hlinked : Linked links t v) (htold : Says records links (inorder t)) (hnodup : (inorder t).Nodup)
    {depth : Nat} (hdepth : depth ≤ maxDepth) : siblings records v depth = .ok (reached t) := by
  have hbelow : (inorder t).length ≤ records.length := length_le_of_below hnodup fun sid hsid =>
    (htold sid hsid).elim fun record hrecord => (List.getElem?_eq_some_iff.mp hrecord.1).1
  have hle := (reached_subperm t).length_le
  obtain ⟨fuel, hfuel⟩ : ∃ fuel, 2 * records.length + 2 = fuel + 1 + (2 * (reached t).length + 1) :=
    ⟨2 * records.length - 2 * (reached t).length, by omega⟩
  rw [siblings, if_neg (by omega), hfuel, siblingsLoop_linked hlinked htold hnodup _ _ fun _ _ => List.not_mem_nil]
  rfl

end Siblings

section Links
variable {upper : Str → Str} {links links' : Links} {node : Entry} {nodes : List Entry}

/-- An entry without children has none linked. -/
theorem linkNodes_childless (h : nodes.foldlM (linkNode upper) links = .ok links') (hsids : (nodes.map Entry.sid).Nodup)
    (hchildren : (nodes.flatMap childNumbers).Nodup) (hnode : node ∈ nodes) (hnone : node.children = []) :
    (links' node.sid).child = (links node.sid).child := by
  induction nodes generalizing links with
  | nil => cases hnode
  | cons first nodes ih =>
    rw [List.foldlM_cons] at h
    obtain ⟨middle, hfirst, hrest⟩ := bind_ok h
    rw [List.map_cons, List.nodup_cons] at hsids
    rw [List.flatMap_cons] at hchildren
    obtain ⟨hown, hothers, -⟩ := List.nodup_append.mp hchildren
    obtain rfl | hnode := List.mem_cons.mp hnode
    · obtain rfl : links = middle := by
        rw [linkNode, hnone, if_neg (by simp)] at hfirst
        exact Except.ok.inj hfirst
      exact (linkNodes_tie hrest hsids.2 hothers).2.2 _ hsids.1
    · have hapart : node.sid ≠ first.sid := fun heq => hsids.1 (heq ▸ List.mem_map_of_mem hnode)
      exact (ih hrest hsids.2 hothers hnode).trans ((linkNode_ties hfirst hown).2.2 _ hapart)

/-- The trees of a document. -/
theorem linksOf_tree {root : Entry} (h : linksOf upper (root.numbered 0).nodes = .ok links) (hnode : node ∈ (root.numbered 0).nodes)
    (hkind : holdsChildren node.kind = true) : ∃ t, Linked links t (links node.sid).child ∧ (inorder t).Perm (childNumbers node) := by
  have hsids : ((root.numbered 0).nodes.map Entry.sid).Nodup := by
    rw [sids_nodes]
    exact List.nodup_range'
  have hchildren := nodup_childNumbers 0 root
  by_cases hnone : node.children = []
  · refine ⟨.nil, linkNodes_childless h hsids hchildren hnode hnone, ?_⟩
    rw [childNumbers, hnone]
    exact List.Perm.refl []
  · obtain ⟨siblings, keys, hperm, -, -, -, t, hlinked, hinorder, -⟩ := (linkNodes_tie h hsids hchildren).1 node hnode hkind hnone
    exact ⟨t, hlinked, hinorder ▸ hperm.map Entry.sid⟩

end Links

/-! What the reader finds of one entry. -/

section Entries
variable {upper : Str → Str} {root node : Entry} {links : Links} {fatCount difatCount : Nat} {d : Directory}

theorem Opened.found {nodes : List Entry} (h : Opened nodes links fatCount difatCount d)
    (hsids : nodes.map Entry.sid = List.range nodes.length) (hnode : node ∈ nodes) :
    ∃ record, d.records[node.sid]? = some record ∧ Recorded links (streamsOf nodes) (laid nodes fatCount difatCount) node record := by
  obtain ⟨records, empty, heach, hrecords⟩ := h.records
  obtain ⟨i, hi, rfl⟩ := List.getElem_of_mem hnode
  have hsid : nodes[i].sid = i := by
    have hat : (nodes.map Entry.sid)[i]? = some i := by
      rw [hsids]
      exact List.getElem?_range hi
    rw [List.getElem?_map, List.getElem?_eq_getElem hi] at hat
    exact Option.some.inj hat
  have hi' : i < records.length := heach.length_eq ▸ hi
  refine ⟨records[i], ?_, heach.get hi hi'⟩
  rw [hsid, hrecords, List.getElem?_append_left hi', List.getElem?_eq_getElem hi']

theorem numbered_sids (root : Entry) : (root.numbered 0).nodes.map Entry.sid = List.range (root.numbered 0).nodes.length := by
  have hlength := congrArg List.length (sids_nodes 0 root)
  rw [List.length_map, List.length_range'] at hlength
  rw [sids_nodes, hlength, List.range_eq_range']

/-- Entries that are no storage have no children. -/
def Leafy (nodes : List Entry) : Prop := ∀ node ∈ nodes, holdsChildren node.kind = false → node.children = []

/-- The numbers of the children are read, all that name an entry. -/
theorem Opened.childSids_read (h : Opened (root.numbered 0).nodes links fatCount difatCount d)
    (hlinks : linksOf upper (root.numbered 0).nodes = .ok links) (hleafy : Leafy (root.numbered 0).nodes)
    (hnode : node ∈ (root.numbered 0).nodes) {record : Bytes} {depth : Nat}
    (hdepth : holdsChildren node.kind = true → depth ≤ maxDepth) (hchild : u32 record 0x4C = .ok (links node.sid).child) :
    ∃ sids, childSids d.records record node.kind depth = .ok sids ∧ sids.Subperm (childNumbers node) ∧
      (noStream ∉ childNumbers node → sids.Perm (childNumbers node)) := by
  unfold childSids
  split
  · rename_i hkind
    obtain ⟨t, hlinked, hperm⟩ := linksOf_tree hlinks hnode hkind
    have hchildren : ∀ sid ∈ childNumbers node, ∃ child ∈ (root.numbered 0).nodes, child.sid = sid := by
      intro sid hsid
      obtain ⟨child, hchild, rfl⟩ := List.mem_map.mp hsid
      refine ⟨child, (nodes_perm (root.numbered 0)).mem_iff.mpr (List.mem_cons_of_mem _ ?_), rfl⟩
      exact List.mem_flatMap.mpr ⟨node, hnode, hchild⟩
    have htold : Says d.records links (inorder t) := by
      intro sid hsid
      obtain ⟨child, hin, rfl⟩ := hchildren sid (hperm.mem_iff.mp hsid)
      obtain ⟨record, hrecord, hrecorded⟩ := h.found (numbered_sids root) hin
      exact ⟨record, hrecord, hrecorded.left, hrecorded.right⟩
    have hnodup : (inorder t).Nodup := by
      rw [hperm.nodup_iff]
      exact (List.nodup_flatMap.mp (nodup_childNumbers 0 root)).1 node hnode
    refine ⟨reached t, ?_, (reached_subperm t).trans hperm.subperm, fun hnone => ?_⟩
    · rw [hchild, ok_bind]
      exact siblings_linked hlinked htold hnodup (hdepth hkind)
    · exact (reached_perm fun hin => hnone (hperm.mem_iff.mp hin)).trans hperm
  · rename_i hkind
    have hnone : childNumbers node = [] := by
      rw [childNumbers, hleafy node hnode (Bool.eq_false_iff.mpr hkind)]
      rfl
    exact ⟨[], rfl, List.nil_subperm, fun _ => hnone ▸ List.Perm.refl []⟩

theorem entryOf_eq {s : Streams} {l : Layout} {record data : Bytes} {sids : List Nat} {depth : Nat} (levels : Nat)
    (hfound : d.records[node.sid]? = some record) (h : Recorded links s l node record) (hdata : dataOf d record node.kind = .ok data)
    (hsids : childSids d.records record node.kind depth = .ok sids) :
    entryOf d (levels + 1) node.sid depth = (sids.mapM fun c => entryOf d levels c (depth + 1)) >>= fun children =>
      .ok (.mk node.sid node.name node.kind data (padded 16 node.clsid) node.state (timeOf node (padded 8 node.created))
        (timeOf node (padded 8 node.modified)) children) := by
  obtain ⟨nameLen, hlen, hname⟩ := h.name
  have hitem : item d.records node.sid = .ok record := by rw [item, hfound]
  rw [entryOf, hitem, ok_bind, hlen, ok_bind, h.kind, ok_bind, h.state, ok_bind, hdata, ok_bind, hsids, ok_bind, hname, h.clsid,
    h.created, h.modified]
  rfl

end Entries

/-! Trees. -/

/-- The fields that an entry of a document has. -/
structure Entry.Plain (e : Entry) : Prop where
  name : ∀ c ∈ e.name, isSurrogate c = false
  units : (Utf16.encode e.name).length ≤ 31
  clsid : e.clsid.length = 16
  state : e.state < 2 ^ 32
  created : e.created.length = 8
  modified : e.modified.length = 8

mutual
/-- A storage without data at this depth, or a stream without children. -/
def Entry.Storable (depth : Nat) : Entry → Prop
  | .mk sid name kind data clsid state created modified children =>
    (Entry.mk sid name kind data clsid state created modified children).Plain ∧
      (kind = storageKind ∧ data = [] ∧ depth ≤ maxDepth ∨ kind = streamKind ∧ children = []) ∧ allStorable (depth + 1) children

def allStorable (depth : Nat) : List Entry → Prop
  | [] => True
  | e :: es => e.Storable depth ∧ allStorable depth es
end

mutual
/-- The same entry but for the order of the children; only streams have data and only others have times. -/
def Entry.Same : Entry → Entry → Prop
  | .mk _ name kind data clsid state created modified children, t =>
    t.name = name ∧ t.kind = kind ∧ t.data = (if kind = streamKind then data else []) ∧ t.clsid = clsid ∧ t.state = state ∧
      t.created = (if kind = streamKind then List.replicate 8 0 else created) ∧
      t.modified = (if kind = streamKind then List.replicate 8 0 else modified) ∧
      ∃ found : List Entry, found.Perm t.children ∧ allSame children found

def allSame : List Entry → List Entry → Prop
  | [], found => found = []
  | e :: es, found => ∃ t ts, found = t :: ts ∧ e.Same t ∧ allSame es ts
end

theorem padded_eq {n : Nat} {bytes : Bytes} (h : bytes.length = n) : padded n bytes = bytes := by
  rw [padded, ← h, List.take_length, Nat.sub_self, List.replicate_zero, List.append_nil]

section Back
variable {upper : Str → Str} {root : Entry} {links : Links} {fatCount difatCount : Nat} {d : Directory}

/-- What lets every entry be read back. -/
structure Kept (upper : Str → Str) (root : Entry) (links : Links) (fatCount difatCount : Nat) (d : Directory) : Prop where
  opened : Opened (root.numbered 0).nodes links fatCount difatCount d
  linked : linksOf upper (root.numbered 0).nodes = .ok links
  leafy : Leafy (root.numbered 0).nodes
  named : ∀ node ∈ (root.numbered 0).nodes, noStream ∉ childNumbers node
  data : ∀ node ∈ (root.numbered 0).nodes, node.kind = streamKind → ∀ record,
    Recorded links (streamsOf (root.numbered 0).nodes) (laid (root.numbered 0).nodes fatCount difatCount) node record →
      streamData d record = .ok node.data

theorem Kept.step (h : Kept upper root links fatCount difatCount d) {e : Entry} {n depth levels : Nat} {ts : List Entry}
    (hin : e.numbered n ∈ (root.numbered 0).nodes) (hplain : e.Plain) (hdepth : holdsChildren e.kind = true → depth ≤ maxDepth)
    (hread : List.Forall₂ (fun c t => entryOf d levels (Entry.sid c) (depth + 1) = .ok t) (numberedAll (n + 1) e.children) ts)
    (hsame : allSame e.children ts) : ∃ t, entryOf d (levels + 1) n depth = .ok t ∧ e.Same t := by
  obtain ⟨record, hfound, hrecorded⟩ := h.opened.found (numbered_sids root) hin
  cases e with
  | mk sid name kind data clsid state created modified children =>
  obtain ⟨sids, hsids, -, hperm⟩ := h.opened.childSids_read h.linked h.leafy hin hdepth hrecorded.child
  have hall := hperm (h.named _ hin)
  have hnumbers : List.Forall₂ (fun c t => entryOf d levels c (depth + 1) = .ok t)
      (childNumbers (Entry.numbered n (.mk sid name kind data clsid state created modified children))) ts :=
    List.forall₂_map_left_iff.mpr hread
  obtain ⟨found, hfoundAll, hfoundPerm⟩ := List.perm_comp_forall₂ hall hnumbers
  have hdata : dataOf d record kind = .ok (if kind = streamKind then data else []) := by
    unfold dataOf
    split
    · rename_i hkind
      exact h.data _ hin hkind _ hrecorded
    · rfl
  have hentry := entryOf_eq levels hfound hrecorded hdata hsids
  rw [mapM_of_forall₂ hfoundAll, ok_bind] at hentry
  refine ⟨_, hentry, rfl, rfl, rfl, padded_eq hplain.clsid, rfl, ?_, ?_, ts, hfoundPerm.symm, hsame⟩
  · exact if_congr Iff.rfl rfl (padded_eq hplain.created)
  · exact if_congr Iff.rfl rfl (padded_eq hplain.modified)

mutual
/-- A storage or a stream is read back with all below it. -/
theorem Kept.entry (h : Kept upper root links fatCount difatCount d) (e : Entry) {n depth levels : Nat}
    (hin : ∀ m ∈ (e.numbered n).nodes, m ∈ (root.numbered 0).nodes) (he : e.Storable depth) (hlevels : levels + depth = maxDepth + 2)
    (hdepth : depth ≤ maxDepth + 1) : ∃ t, entryOf d levels n depth = .ok t ∧ e.Same t := by
  cases e with
  | mk sid name kind data clsid state created modified children =>
  obtain ⟨hplain, hshape, hchildren⟩ := he
  obtain ⟨levels, rfl⟩ : ∃ m, levels = m + 1 := ⟨levels - 1, by omega⟩
  have hstorage : holdsChildren kind = true → depth ≤ maxDepth := by
    intro hkind
    obtain ⟨-, -, hstorage⟩ | ⟨hstream, -⟩ := hshape
    · exact hstorage
    · cases hstream
      cases hkind
  have hroom : children ≠ [] → depth + 1 ≤ maxDepth + 1 := by
    intro hsome
    obtain ⟨-, -, hstorage⟩ | ⟨-, hnone⟩ := hshape
    · exact Nat.succ_le_succ hstorage
    · exact absurd hnone hsome
  obtain ⟨ts, hread, hsame⟩ := h.entries children (fun m hm => hin m (List.mem_cons_of_mem _ hm)) hchildren
    (show levels + (depth + 1) = maxDepth + 2 by omega) hroom
  exact h.step (hin _ List.mem_cons_self) hplain hstorage hread hsame

theorem Kept.entries (h : Kept upper root links fatCount difatCount d) (es : List Entry) {n depth levels : Nat}
    (hin : ∀ m ∈ nodesAll (numberedAll n es), m ∈ (root.numbered 0).nodes) (hes : allStorable depth es)
    (hlevels : levels + depth = maxDepth + 2) (hdepth : es ≠ [] → depth ≤ maxDepth + 1) :
    ∃ ts, List.Forall₂ (fun c t => entryOf d levels (Entry.sid c) depth = .ok t) (numberedAll n es) ts ∧ allSame es ts := by
  cases es with
  | nil => exact ⟨[], .nil, rfl⟩
  | cons e es =>
    obtain ⟨t, hread, hsame⟩ := h.entry e (fun m hm => hin m (List.mem_append_left _ hm)) hes.1 hlevels (hdepth (by simp))
    obtain ⟨ts, hreads, hsames⟩ := h.entries es (fun m hm => hin m (List.mem_append_right _ hm)) hes.2 hlevels fun _ => hdepth (by simp)
    refine ⟨t :: ts, .cons ?_ hreads, t, ts, rfl, hsame, hsames⟩
    have hsid : (e.numbered n).sid = n := by
      cases e
      rfl
    rwa [hsid]
end

end Back

/-! Documents. -/

/-- A root over storages and streams. -/
structure Entry.IsDocument (root : Entry) : Prop where
  plain : root.Plain
  kind : root.kind = rootKind
  children : allStorable 1 root.children

/-- What a file of version 3 has room for: sizes of streams and of the mini stream, and numbers of entries. -/
structure Fits (nodes : List Entry) : Prop where
  streams : ∀ node ∈ nodes, node.kind = streamKind → node.data.length < 2 ^ 32
  mini : 64 * ((nodes.filter isShort).map miniSectors).sum < 2 ^ 32
  entries : nodes.length < 2 ^ 32

/-- The fields of an entry of a document, and that a stream has no children. -/
def Sound (node : Entry) : Prop :=
  node.Plain ∧ (holdsChildren node.kind = true ∨ node.kind = streamKind ∧ node.children = [])

theorem Entry.Plain.numbered {e : Entry} (h : e.Plain) (n : Nat) : (e.numbered n).Plain := by
  cases e with
  | mk sid name kind data clsid state created modified children => exact ⟨h.name, h.units, h.clsid, h.state, h.created, h.modified⟩

mutual
theorem Entry.Storable.sound {depth : Nat} (e : Entry) (h : e.Storable depth) (n : Nat) : ∀ m ∈ (e.numbered n).nodes, Sound m := by
  cases e with
  | mk sid name kind data clsid state created modified children =>
  obtain ⟨hplain, hshape, hchildren⟩ := h
  intro m hm
  obtain rfl | hm := List.mem_cons.mp hm
  · refine ⟨hplain.numbered n, ?_⟩
    obtain ⟨rfl, -, -⟩ | ⟨rfl, rfl⟩ := hshape
    · exact .inl rfl
    · exact .inr ⟨rfl, rfl⟩
  · exact allStorable_sound children hchildren (n + 1) m hm

theorem allStorable_sound {depth : Nat} (es : List Entry) (h : allStorable depth es) (n : Nat) :
    ∀ m ∈ nodesAll (numberedAll n es), Sound m := by
  cases es with
  | nil => exact fun m hm => absurd hm List.not_mem_nil
  | cons e es =>
    intro m hm
    obtain hm | hm := List.mem_append.mp hm
    · exact Entry.Storable.sound e h.1 n m hm
    · exact allStorable_sound es h.2 (n + e.size) m hm
end

theorem Entry.IsDocument.sound {root : Entry} (h : root.IsDocument) : ∀ m ∈ (root.numbered 0).nodes, Sound m := by
  cases root with
  | mk sid name kind data clsid state created modified children =>
  obtain ⟨hplain, rfl, hchildren⟩ := h
  intro m hm
  obtain rfl | hm := List.mem_cons.mp hm
  · exact ⟨hplain.numbered 0, .inl rfl⟩
  · exact allStorable_sound children hchildren 1 m hm

theorem leafy_of_sound {nodes : List Entry} (h : ∀ m ∈ nodes, Sound m) : Leafy nodes := by
  intro node hnode hkind
  obtain ⟨-, hholds | ⟨-, hnone⟩⟩ := h node hnode
  · exact absurd hholds (by simp [hkind])
  · exact hnone

end XgenSdk.Cfb
