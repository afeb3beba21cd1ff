import XgenSdk.ControlPolicy.CfbWriting

/-! A document is read back as it was written, and just where there is room for it. -/
namespace XgenSdk.Cfb
open XgenSdk.Py XgenSdk.Checks XgenSdk.Trees
open XgenSdk.Splice (slice)

/-! Reading. -/

theorem nodes_eq (e : Entry) : e.nodes = e :: nodesAll e.children := by
  cases e
  rfl

theorem sid_lt {root node : Entry} (hnode : node ∈ (root.numbered 0).nodes) : node.sid < (root.numbered 0).nodes.length := by
  have hin : node.sid ∈ List.range (root.numbered 0).nodes.length := numbered_sids root ▸ List.mem_map_of_mem hnode
  exact List.mem_range.mp hin

/-- The numbers of all entries mean one. -/
theorem named_of_few {root : Entry} (h : (root.numbered 0).nodes.length < 2 ^ 32) :
    ∀ node ∈ (root.numbered 0).nodes, noStream ∉ childNumbers node := by
  intro node hnode hin
  obtain ⟨child, hchild, hsid⟩ := List.mem_map.mp hin
  have hless := sid_lt (child_mem hnode hchild)
  have hlast : noStream + 1 = 2 ^ 32 := by decide
  omega

/-- The document is opened, and its root is the first of its entries. -/
theorem write_opened {upper : Str → Str} {root : Entry} {raw : Bytes} (hdoc : root.IsDocument)
    (hrange : InRange (root.numbered 0).nodes) (h : write upper root = .ok raw) : ∃ links fatCount difatCount d,
      linksOf upper (root.numbered 0).nodes = .ok links ∧
      (countsOf (root.numbered 0).nodes (streamsOf (root.numbered 0).nodes)).data + fatCount + difatCount ≤ maxRegSect + 1 ∧
      Opened (root.numbered 0).nodes links fatCount difatCount d ∧ read raw = entryOf d (maxDepth + 2) 0 0 := by
  obtain ⟨links, fatCount, difatCount, hlinks, hlayout, hwritten⟩ := write_written h
  have hregular : (countsOf (root.numbered 0).nodes (streamsOf (root.numbered 0).nodes)).data + fatCount + difatCount ≤ maxRegSect + 1 :=
    hrange (laid _ fatCount difatCount) hlayout
  have hkind : (root.numbered 0).kind = rootKind := by
    cases root
    exact hdoc.kind
  obtain ⟨d, hread, hopened⟩ := hwritten.opened hregular (nodes_eq _) hkind
  have hroot : root.numbered 0 ∈ (root.numbered 0).nodes := nodes_eq (root.numbered 0) ▸ List.mem_cons_self
  obtain ⟨record, hfound, hrecorded⟩ := hopened.found (numbered_sids root) hroot
  have hzero : (root.numbered 0).sid = 0 := by
    cases root
    rfl
  have hitem : item d.records 0 = .ok record := by rw [item, ← hzero, hfound]
  refine ⟨links, fatCount, difatCount, d, hlinks, hregular, hopened, ?_⟩
  rw [read, hread, ok_bind, hitem, ok_bind, hrecorded.kind, ok_bind, if_neg (not_not.mpr hkind)]

theorem read_same {upper : Str → Str} {root : Entry} {raw : Bytes} (hdoc : root.IsDocument)
    (hrange : InRange (root.numbered 0).nodes) (hfits : Fits (root.numbered 0).nodes) (h : write upper root = .ok raw) :
    ∃ tree, read raw = .ok tree ∧ root.Same tree := by
  obtain ⟨links, fatCount, difatCount, d, hlinks, hregular, hopened, hread⟩ := write_opened hdoc hrange h
  have hnodup : ((root.numbered 0).nodes.map Entry.sid).Nodup := by
    rw [sids_nodes]
    exact List.nodup_range'
  have hmini : (streamsOf (root.numbered 0).nodes).mini.length < 2 ^ 32 := by
    rw [(placed_streamsOf hnodup).mini, length_flatMap_shortBytes]
    exact hfits.mini
  have hkept : Kept upper root links fatCount difatCount d := by
    refine ⟨hopened, hlinks, leafy_of_sound hdoc.sound, named_of_few hfits.entries, fun node hnode hkind record hrecorded => ?_⟩
    exact hopened.streamData_eq hnodup hregular hnode hkind (hfits.streams node hnode hkind) hmini hrecorded
  have hdepth : holdsChildren root.kind = true → 0 ≤ maxDepth := fun _ => Nat.zero_le _
  have hroot : root.numbered 0 ∈ (root.numbered 0).nodes := nodes_eq (root.numbered 0) ▸ List.mem_cons_self
  have hbelow : ∀ m ∈ nodesAll (numberedAll 1 root.children), m ∈ (root.numbered 0).nodes := by
    intro m hm
    rw [nodes_eq]
    cases root
    exact List.mem_cons_of_mem _ hm
  obtain ⟨ts, hreads, hsame⟩ := hkept.entries root.children hbelow hdoc.children (show maxDepth + 1 + 1 = maxDepth + 2 from rfl)
    fun _ => by decide
  obtain ⟨tree, htree, hback⟩ := hkept.step hroot hdoc.plain hdepth hreads hsame
  exact ⟨tree, hread.trans htree, hback⟩

/-! What is lost where there is no room. -/

section Sizes

theorem sizeAll_eq (es : List Entry) : sizeAll es = (es.map Entry.size).sum := by
  induction es with
  | nil => rfl
  | cons e es ih => rw [sizeAll, ih, List.map_cons, List.sum_cons]

mutual
theorem same_size (e : Entry) {t : Entry} (h : e.Same t) : t.size = e.size := by
  cases e with
  | mk sid name kind data clsid state created modified children =>
  obtain ⟨-, -, -, -, -, -, -, found, hperm, hsame⟩ := h
  have hfound := allSame_size children hsame
  cases t
  rw [sizeAll_eq, (hperm.map Entry.size).sum_eq, ← sizeAll_eq] at hfound
  exact congrArg (· + 1) hfound

theorem allSame_size (es : List Entry) {ts : List Entry} (h : allSame es ts) : sizeAll ts = sizeAll es := by
  cases es with
  | nil => exact congrArg sizeAll h
  | cons e es =>
    obtain ⟨t, ts, rfl, hsame, hsames⟩ := h
    rw [sizeAll, sizeAll, same_size e hsame, allSame_size es hsames]
end

mutual
theorem length_sids (e : Entry) : e.sids.length = e.size := by
  cases e with
  | mk sid name kind data clsid state created modified children =>
    rw [Entry.sids, Entry.size, List.length_cons, length_allSids]

theorem length_allSids (es : List Entry) : (allSids es).length = sizeAll es := by
  cases es with
  | nil => rfl
  | cons e es => rw [allSids, sizeAll, List.length_append, length_sids, length_allSids]
end

end Sizes

theorem siblingsLoop_some {records : List Bytes} {fuel : Nat} {stack out sids : List Nat}
    (h : siblingsLoop records fuel stack out = .ok sids) (hout : noStream ∉ out) : noStream ∉ sids := by
  induction fuel generalizing stack out with
  | zero => cases h
  | succ fuel ih =>
    cases stack with
    | nil => exact Except.ok.inj h ▸ hout
    | cons current stack =>
      rw [siblingsLoop] at h
      split at h
      · exact ih h hout
      · rename_i hcurrent
        split at h
        · cases h
        · obtain ⟨record, -, h⟩ := bind_ok h
          obtain ⟨left, -, h⟩ := bind_ok h
          obtain ⟨right, -, h⟩ := bind_ok h
          refine ih h fun hin => ?_
          obtain hin | hin := List.mem_append.mp hin
          · exact hout hin
          · exact hcurrent (List.mem_singleton.mp hin).symm

theorem childSids_some {records : List Bytes} {record : Bytes} {kind : UInt8} {depth : Nat} {sids : List Nat}
    (h : childSids records record kind depth = .ok sids) : noStream ∉ sids ∧ (holdsChildren kind = true → depth ≤ maxDepth) := by
  unfold childSids at h
  split at h
  · obtain ⟨first, -, h⟩ := bind_ok h
    unfold siblings at h
    split at h
    · cases h
    · exact ⟨siblingsLoop_some h List.not_mem_nil, fun _ => by omega⟩
  · rename_i hkind
    exact ⟨Except.ok.inj h ▸ List.not_mem_nil, fun hholds => absurd hholds hkind⟩

/-- No entry below has the number that means none. -/
theorem entryOf_some {d : Directory} {levels sid depth : Nat} {tree : Entry} (h : entryOf d levels sid depth = .ok tree)
    (hsid : sid ≠ noStream) : noStream ∉ tree.sids := by
  induction levels generalizing sid depth tree with
  | zero => cases h
  | succ levels ih =>
    obtain ⟨record, kind, data, sids, children, -, -, -, hsids, hchildren, _, _, _, _, _, rfl⟩ := entryOf_parts h
    rw [Entry.sids, List.mem_cons, not_or]
    refine ⟨hsid.symm, fun hin => ?_⟩
    obtain ⟨e, he, hin⟩ := mem_allSids.mp hin
    obtain ⟨c, hc, hread⟩ := mapM_ok hchildren e he
    exact ih hread (fun heq => (childSids_some hsids).1 (heq ▸ hc)) hin

section Lost
variable {upper : Str → Str} {root : Entry} {links : Links} {fatCount difatCount : Nat} {d : Directory}

/-- The numbers of the children that were read. -/
theorem Opened.childSids_found (h : Opened (root.numbered 0).nodes links fatCount difatCount d)
    (hlinks : linksOf upper (root.numbered 0).nodes = .ok links) (hleafy : Leafy (root.numbered 0).nodes) {node : Entry}
    (hnode : node ∈ (root.numbered 0).nodes) {levels depth : Nat} {tree : Entry}
    (hread : entryOf d (levels + 1) node.sid depth = .ok tree) : ∃ sids children, sids.Subperm (childNumbers node) ∧
      (noStream ∉ childNumbers node → sids.Perm (childNumbers node)) ∧
      List.Forall₂ (fun c t => entryOf d levels c (depth + 1) = .ok t) sids children ∧ tree.sids = node.sid :: allSids children := by
  obtain ⟨record, kind, data, sids, children, hrecord, hkind, -, hsids, hchildren, _, _, _, _, _, rfl⟩ := entryOf_parts hread
  obtain ⟨record', hfound, hrecorded⟩ := h.found (numbered_sids root) hnode
  obtain rfl : record = record' := Option.some.inj ((item_eq hrecord).symm.trans hfound)
  obtain rfl : kind = node.kind := Except.ok.inj (hkind.symm.trans hrecorded.kind)
  obtain ⟨sids', hsids', hsub, hperm⟩ := h.childSids_read hlinks hleafy hnode (childSids_some hsids).2 hrecorded.child
  obtain rfl : sids = sids' := Except.ok.inj (hsids.symm.trans hsids')
  exact ⟨sids, children, hsub, hperm, mapM_eq_ok hchildren, rfl⟩

/-- The numbers in what was read from a record. -/
def readSids (d : Directory) (levels depth sid : Nat) : List Nat :=
  match entryOf d levels sid depth with
  | .ok tree => tree.sids
  | .error _ => []

mutual
theorem Opened.readSids_entry (h : Opened (root.numbered 0).nodes links fatCount difatCount d)
    (hlinks : linksOf upper (root.numbered 0).nodes = .ok links) (hleafy : Leafy (root.numbered 0).nodes) (e : Entry) (n levels depth : Nat)
    (hin : ∀ m ∈ (e.numbered n).nodes, m ∈ (root.numbered 0).nodes) :
    (readSids d levels depth n).Subperm (List.range' n e.size) := by
  cases e with
  | mk sid name kind data clsid state created modified children =>
  unfold readSids
  split
  · rename_i tree hread
    cases levels with
    | zero => cases hread
    | succ levels =>
      obtain ⟨sids, found, hsub, -, heach, hsids⟩ := h.childSids_found hlinks hleafy (hin _ List.mem_cons_self) hread
      have hall := allSids_eq heach (g := readSids d levels (depth + 1)) fun c t hc => by rw [readSids, hc]
      have hbelow := h.readSids_entries hlinks hleafy children (n + 1) levels (depth + 1) fun m hm => hin m (List.mem_cons_of_mem _ hm)
      obtain ⟨kept, hperm, hsublist⟩ := hsub
      have hflat : (sids.flatMap (readSids d levels (depth + 1))).Subperm
          ((childNumbers ((Entry.mk sid name kind data clsid state created modified children).numbered n)).flatMap
            (readSids d levels (depth + 1))) :=
        ⟨_, hperm.flatMap_right _, hsublist.flatMap _⟩
      rw [hsids, hall, Entry.size, List.range'_succ]
      exact (List.subperm_cons n).mpr (hflat.trans hbelow)
  · exact List.nil_subperm

theorem Opened.readSids_entries (h : Opened (root.numbered 0).nodes links fatCount difatCount d)
    (hlinks : linksOf upper (root.numbered 0).nodes = .ok links) (hleafy : Leafy (root.numbered 0).nodes) (es : List Entry)
    (n levels depth : Nat) (hin : ∀ m ∈ nodesAll (numberedAll n es), m ∈ (root.numbered 0).nodes) :
    (((numberedAll n es).map Entry.sid).flatMap (readSids d levels depth)).Subperm (List.range' n (sizeAll es)) := by
  cases es with
  | nil => exact List.nil_subperm
  | cons e es =>
    have hfirst := h.readSids_entry hlinks hleafy e n levels depth fun m hm => hin m (List.mem_append_left _ hm)
    have hrest := h.readSids_entries hlinks hleafy es (n + e.size) levels depth fun m hm => hin m (List.mem_append_right _ hm)
    have hsid : (e.numbered n).sid = n := by
      cases e
      rfl
    rw [numberedAll, List.map_cons, List.flatMap_cons, hsid, sizeAll, ← List.range'_append_1]
    exact hfirst.append hrest
end

theorem entries_lt {tree : Entry} (h : Opened (root.numbered 0).nodes links fatCount difatCount d)
    (hlinks : linksOf upper (root.numbered 0).nodes = .ok links) (hleafy : Leafy (root.numbered 0).nodes)
    (hread : entryOf d (maxDepth + 2) 0 0 = .ok tree) (hsame : root.Same tree) : (root.numbered 0).nodes.length < 2 ^ 32 := by
  have hlength := congrArg List.length (sids_nodes 0 root)
  rw [List.length_map, List.length_range'] at hlength
  have hsub := h.readSids_entry hlinks hleafy root 0 (maxDepth + 2) 0 fun m hm => hm
  rw [readSids, hread] at hsub
  dsimp only at hsub
  by_contra hmany
  have hlast : noStream < 2 ^ 32 := by decide
  have hin : noStream ∈ List.range' 0 root.size := List.mem_range'_1.mpr (by omega)
  have hmore := (List.cons_subperm_of_not_mem_of_mem (entryOf_some hread (by decide)) hin hsub).length_le
  rw [List.length_cons, length_sids, same_size root hsame, List.length_range'] at hmore
  omega

mutual
/-- Where all numbers mean an entry, all entries are read. -/
theorem Opened.reads_entry (h : Opened (root.numbered 0).nodes links fatCount difatCount d)
    (hlinks : linksOf upper (root.numbered 0).nodes = .ok links) (hleafy : Leafy (root.numbered 0).nodes)
    (hnamed : ∀ node ∈ (root.numbered 0).nodes, noStream ∉ childNumbers node) (e : Entry) {n levels depth : Nat} {tree : Entry}
    (hin : ∀ m ∈ (e.numbered n).nodes, m ∈ (root.numbered 0).nodes) (hread : entryOf d levels n depth = .ok tree) :
    ∀ m ∈ (e.numbered n).nodes, ∃ levels depth tree, entryOf d levels m.sid depth = .ok tree := by
  cases e with
  | mk sid name kind data clsid state created modified children =>
  intro m hm
  obtain rfl | hm := List.mem_cons.mp hm
  · exact ⟨levels, depth, tree, hread⟩
  · cases levels with
    | zero => cases hread
    | succ levels =>
      have hown := hin _ List.mem_cons_self
      obtain ⟨sids, found, -, hperm, heach, -⟩ := h.childSids_found hlinks hleafy hown hread
      have hreads : ∀ c ∈ numberedAll (n + 1) children, ∃ t, entryOf d levels c.sid (depth + 1) = .ok t := by
        intro c hc
        have hsid := (hperm (hnamed _ hown)).mem_iff.mpr (List.mem_map_of_mem hc)
        obtain ⟨t, -, ht⟩ := forall₂_right heach.flip _ hsid
        exact ⟨t, ht⟩
      exact h.reads_entries hlinks hleafy hnamed children (fun m hm => hin m (List.mem_cons_of_mem _ hm)) hreads m hm

theorem Opened.reads_entries (h : Opened (root.numbered 0).nodes links fatCount difatCount d)
    (hlinks : linksOf upper (root.numbered 0).nodes = .ok links) (hleafy : Leafy (root.numbered 0).nodes)
    (hnamed : ∀ node ∈ (root.numbered 0).nodes, noStream ∉ childNumbers node) (es : List Entry) {n levels depth : Nat}
    (hin : ∀ m ∈ nodesAll (numberedAll n es), m ∈ (root.numbered 0).nodes)
    (hreads : ∀ c ∈ numberedAll n es, ∃ tree, entryOf d levels c.sid depth = .ok tree) :
    ∀ m ∈ nodesAll (numberedAll n es), ∃ levels depth tree, entryOf d levels m.sid depth = .ok tree := by
  cases es with
  | nil => exact fun m hm => absurd hm List.not_mem_nil
  | cons e es =>
    have hsid : (e.numbered n).sid = n := by
      cases e
      rfl
    rw [numberedAll, List.forall_mem_cons, hsid] at hreads
    obtain ⟨⟨tree, hread⟩, hreads⟩ := hreads
    intro m hm
    obtain hm | hm := List.mem_append.mp hm
    · exact h.reads_entry hlinks hleafy hnamed e (fun m hm => hin m (List.mem_append_left _ hm)) hread m hm
    · exact h.reads_entries hlinks hleafy hnamed es (fun m hm => hin m (List.mem_append_right _ hm)) hreads m hm
end

end Lost

section Streams
variable {d : Directory}

theorem mem_nodesAll {m : Entry} {es : List Entry} : m ∈ nodesAll es ↔ ∃ e ∈ es, m ∈ e.nodes := by
  induction es with
  | nil => simp [nodesAll]
  | cons e es ih => rw [nodesAll, List.mem_append, ih, List.exists_mem_cons_iff]

theorem u32_lt {data : Bytes} {at_ v : Nat} (h : u32 data at_ = .ok v) : v < 2 ^ 32 := by
  unfold u32 unpackFrom Struct.unpack at h
  split at h
  · rename_i v' hv
    obtain ⟨-, hv⟩ := Option.ite_none_right_eq_some.mp hv
    rw [← Except.ok.inj h, ← Option.some.inj hv]
    refine (Struct.leNat_lt _).trans_le ?_
    exact Nat.pow_le_pow_right (by decide : 0 < 256) (List.length_take_le 4 _)
  · cases h

theorem streamData_lt (hmajor : d.file.major = 3) {record data : Bytes} (h : streamData d record = .ok data) : data.length < 2 ^ 32 := by
  obtain ⟨size, hsize, h⟩ := bind_ok h
  obtain ⟨start, -, h⟩ := bind_ok h
  obtain ⟨low, hlow, hsize⟩ := bind_ok hsize
  obtain ⟨high, -, hsize⟩ := bind_ok hsize
  obtain rfl : low = size := by
    rw [if_pos hmajor] at hsize
    exact Except.ok.inj hsize
  have hlt := u32_lt hlow
  split at h
  · obtain rfl := Except.ok.inj h
    exact Nat.two_pow_pos 32
  · obtain ⟨bytes, -, h⟩ := bind_ok h
    split at h
    · cases h
    · rw [← Except.ok.inj h]
      exact (List.length_take_le _ _).trans_lt hlt

/-- A file of version 3 has no larger streams for the reader. -/
theorem entryOf_streams_lt (hmajor : d.file.major = 3) {levels sid depth : Nat} {tree : Entry}
    (h : entryOf d levels sid depth = .ok tree) : ∀ m ∈ tree.nodes, m.kind = streamKind → m.data.length < 2 ^ 32 := by
  induction levels generalizing sid depth tree with
  | zero => cases h
  | succ levels ih =>
    obtain ⟨record, kind, data, sids, children, -, -, hdata, -, hchildren, _, _, _, _, _, rfl⟩ := entryOf_parts h
    intro m hm hkind
    obtain rfl | hm := List.mem_cons.mp hm
    · have hstream : kind = streamKind := hkind
      rw [dataOf, if_pos hstream] at hdata
      exact streamData_lt hmajor hdata
    · obtain ⟨e, he, hm⟩ := mem_nodesAll.mp hm
      obtain ⟨c, -, hread⟩ := mapM_ok hchildren e he
      exact ih hread m hm hkind

mutual
theorem same_streams (e : Entry) {t : Entry} (n : Nat) (h : e.Same t) :
    ∀ m ∈ (e.numbered n).nodes, m.kind = streamKind → ∃ m' ∈ t.nodes, m'.kind = streamKind ∧ m'.data = m.data := by
  cases e with
  | mk sid name kind data clsid state created modified children =>
  obtain ⟨-, hkind, hdata, -, -, -, -, found, hperm, hsame⟩ := h
  intro m hm hstream
  rw [nodes_eq t]
  obtain rfl | hm := List.mem_cons.mp hm
  · have hown : kind = streamKind := hstream
    rw [if_pos hown] at hdata
    exact ⟨t, List.mem_cons_self, hkind.trans hown, hdata⟩
  · obtain ⟨x, hx, m', hm', hback⟩ := allSame_streams children (n + 1) hsame m hm hstream
    exact ⟨m', List.mem_cons_of_mem _ (mem_nodesAll.mpr ⟨x, hperm.mem_iff.mp hx, hm'⟩), hback⟩

theorem allSame_streams (es : List Entry) {ts : List Entry} (n : Nat) (h : allSame es ts) : ∀ m ∈ nodesAll (numberedAll n es),
    m.kind = streamKind → ∃ x ∈ ts, ∃ m' ∈ x.nodes, m'.kind = streamKind ∧ m'.data = m.data := by
  cases es with
  | nil => exact fun m hm => absurd hm List.not_mem_nil
  | cons e es =>
    obtain ⟨t, ts, rfl, hsame, hsames⟩ := h
    intro m hm hstream
    obtain hm | hm := List.mem_append.mp hm
    · exact ⟨t, List.mem_cons_self, same_streams e n hsame m hm hstream⟩
    · obtain ⟨x, hx, hback⟩ := allSame_streams es (n + e.size) hsames m hm hstream
      exact ⟨x, List.mem_cons_of_mem t hx, hback⟩
end

theorem exists_run {α : Type} (count : α → Nat) (xs : List α) {j : Nat} (h : j < (xs.map count).sum) :
    ∃ before x after, xs = before ++ x :: after ∧ (before.map count).sum ≤ j ∧ j < (before.map count).sum + count x := by
  induction xs generalizing j with
  | nil => exact absurd h (Nat.not_lt_zero j)
  | cons y ys ih =>
    rw [List.map_cons, List.sum_cons] at h
    by_cases hj : j < count y
    · exact ⟨[], y, ys, rfl, Nat.zero_le j, by simpa using hj⟩
    · obtain ⟨before, x, after, rfl, hfrom, hto⟩ := ih (j := j - count y) (by omega)
      refine ⟨y :: before, x, after, rfl, ?_, ?_⟩ <;> rw [List.map_cons, List.sum_cons] <;> omega

end Streams

/-- A short stream is read from the mini stream as far as it was read. -/
theorem Opened.short_le {nodes : List Entry} {links : Links} {fatCount difatCount : Nat} {d : Directory} {node : Entry}
    {record data : Bytes} (h : Opened nodes links fatCount difatCount d) (hnodup : (nodes.map Entry.sid).Nodup)
    {before after : List Entry} (hsplit : nodes.filter isShort = before ++ node :: after)
    (hroom : (before.map miniSectors).sum + miniSectors node ≤ maxRegSect + 1)
    (hrecorded : Recorded links (streamsOf nodes) (laid nodes fatCount difatCount) node record)
    (hread : streamData d record = .ok data) : node.data.length ≤
      (streamsOf nodes).mini.length % 2 ^ 32 - (before.map miniSectors).sum * miniSector := by
  have hshort := List.of_mem_filter (hsplit ▸ List.mem_append_right before List.mem_cons_self : node ∈ nodes.filter isShort)
  simp only [isShort, Bool.and_eq_true, decide_eq_true_eq] at hshort
  obtain ⟨⟨hkind, hsome⟩, hsmall⟩ := hshort
  have hcutoff : miniCutoffSize = 4096 := rfl
  have hextent : extent (streamsOf nodes) (laid nodes fatCount difatCount) node =
      ((laid nodes fatCount difatCount).start node.sid, node.data.length) := if_pos hkind
  have hsize := hrecorded.size d.file h.major
  have hstart := hrecorded.start
  rw [hextent] at hsize hstart
  dsimp only at hsize hstart
  rw [Nat.mod_eq_of_lt (by omega)] at hsize
  rw [streamData, hsize, ok_bind, hstart, ok_bind, if_neg (by omega), h.chainData_short hnodup hsplit hroom, ok_bind] at hread
  split at hread
  · cases hread
  · rename_i hwhole
    have hslice : (slice d.miniStream ((before.map miniSectors).sum * miniSector)
        (((before.map miniSectors).sum + miniSectors node) * miniSector)).length ≤
          (streamsOf nodes).mini.length % 2 ^ 32 - (before.map miniSectors).sum * miniSector := by
      rw [slice, List.length_drop, h.mini]
      refine Nat.sub_le_sub_right ((List.length_take_le' _ _).trans (List.length_take_le _ _)) _
    omega

/-- The size of the mini stream has room. -/
theorem mini_lt {nodes : List Entry} {links : Links} {fatCount difatCount : Nat} {d : Directory}
    (h : Opened nodes links fatCount difatCount d) (hsids : nodes.map Entry.sid = List.range nodes.length)
    (hread : ∀ node ∈ nodes, node.kind = streamKind → ∀ record, d.records[node.sid]? = some record →
      ∃ data, streamData d record = .ok data) : 64 * ((nodes.filter isShort).map miniSectors).sum < 2 ^ 32 := by
  have hnodup : (nodes.map Entry.sid).Nodup := hsids ▸ List.nodup_range
  by_contra hmany
  obtain ⟨before, node, after, hsplit, hfrom, hto⟩ := exists_run miniSectors (nodes.filter isShort) (j := 2 ^ 26 - 1) (by omega)
  have hin : node ∈ nodes.filter isShort := hsplit ▸ List.mem_append_right before List.mem_cons_self
  have hshort := List.of_mem_filter hin
  simp only [isShort, Bool.and_eq_true, decide_eq_true_eq] at hshort
  obtain ⟨⟨hkind, hsome⟩, hsmall⟩ := hshort
  have hcutoff : miniCutoffSize = 4096 := rfl
  have hcount : miniSectors node ≤ 64 := miniSectors_le.mpr (by omega)
  have hlimit : maxRegSect = 0xFFFFFFFA := rfl
  obtain ⟨record, hfound, hrecorded⟩ := h.found hsids (List.mem_of_mem_filter hin)
  obtain ⟨data, hdata⟩ := hread node (List.mem_of_mem_filter hin) hkind record hfound
  have hle := h.short_le hnodup hsplit (by omega) hrecorded hdata
  have hlarge : ¬ miniSectors node ≤ 2 ^ 26 - 1 - (before.map miniSectors).sum := by omega
  rw [miniSectors_le] at hlarge
  rw [(placed_streamsOf hnodup).mini, length_flatMap_shortBytes, miniSector] at hle
  omega

/-- What was read back had room. -/
theorem fits_of_same {upper : Str → Str} {root tree : Entry} {raw : Bytes} (hdoc : root.IsDocument)
    (hrange : InRange (root.numbered 0).nodes) (hwrite : write upper root = .ok raw) (hread : read raw = .ok tree)
    (hsame : root.Same tree) : Fits (root.numbered 0).nodes := by
  obtain ⟨links, fatCount, difatCount, d, hlinks, -, hopened, hentry⟩ := write_opened hdoc hrange hwrite
  rw [hentry] at hread
  have hleafy := leafy_of_sound hdoc.sound
  have hentries := entries_lt hopened hlinks hleafy hread hsame
  refine ⟨fun node hnode hkind => ?_, mini_lt hopened (numbered_sids root) fun node hnode hkind record hfound => ?_, hentries⟩
  · obtain ⟨found, hin, hstream, hdata⟩ := same_streams root 0 hsame node hnode hkind
    rw [← hdata]
    exact entryOf_streams_lt hopened.major hread found hin hstream
  · obtain ⟨levels, depth, t, ht⟩ := hopened.reads_entry hlinks hleafy (named_of_few hentries) root (fun m hm => hm) hread node hnode
    cases levels with
    | zero => cases ht
    | succ levels =>
      obtain ⟨record', kind, data, -, -, hrecord, hkind', hdata, -⟩ := entryOf_parts ht
      obtain rfl : record' = record := Option.some.inj ((item_eq hrecord).symm.trans hfound)
      obtain ⟨_, hfound', hrecorded⟩ := hopened.found (numbered_sids root) hnode
      obtain rfl := Option.some.inj (hfound.symm.trans hfound')
      obtain rfl : kind = node.kind := Except.ok.inj (hkind'.symm.trans hrecorded.kind)
      rw [dataOf, if_pos hkind] at hdata
      exact ⟨data, hdata⟩

/-- A document is read back as it was written just where a file of version 3 has room for it. -/
theorem read_written_iff (upper : Str → Str) {root : Entry} (hdoc : root.IsDocument) (hrange : InRange (root.numbered 0).nodes) :
    (∃ raw tree, write upper root = .ok raw ∧ read raw = .ok tree ∧ root.Same tree) ↔ Fits (root.numbered 0).nodes := by
  constructor
  · rintro ⟨raw, tree, hwrite, hread, hsame⟩
    exact fits_of_same hdoc hrange hwrite hread hsame
  · intro hfits
    obtain ⟨raw, hwrite⟩ := write_ok upper hdoc hrange hfits
    obtain ⟨tree, hread, hsame⟩ := read_same hdoc hrange hfits hwrite
    exact ⟨raw, tree, hwrite, hread, hsame⟩

/-! A document with one stream. -/

def blank (n : Nat) : Bytes := List.replicate n 0

def oneStream (n : Nat) : Entry :=
  .mk 0 [] rootKind [] (blank 16) 0 (blank 8) (blank 8) [.mk 0 [] streamKind (blank n) (blank 16) 0 (blank 8) (blank 8) []]

theorem oneStream_document (n : Nat) : (oneStream n).IsDocument := by
  have hplain (e : Entry) (hname : e.name = []) (hclsid : e.clsid = blank 16) (hstate : e.state = 0) (hcreated : e.created = blank 8)
      (hmodified : e.modified = blank 8) : e.Plain := by
    refine ⟨?_, ?_, ?_, ?_, ?_, ?_⟩
    · rw [hname]
      exact fun c hc => absurd hc List.not_mem_nil
    · rw [hname]
      decide
    · rw [hclsid]
      rfl
    · rw [hstate]
      decide
    · rw [hcreated]
      rfl
    · rw [hmodified]
      rfl
  exact ⟨hplain _ rfl rfl rfl rfl rfl, rfl, ⟨hplain _ rfl rfl rfl rfl rfl, .inr ⟨rfl, rfl⟩, trivial⟩, trivial⟩

theorem inRange_of_data {nodes : List Entry} (h : (countsOf nodes (streamsOf nodes)).data ≤ 2 ^ 30) : InRange nodes := by
  intro l hl
  obtain ⟨fatCount, difatCount, hends, hfixed, hleast⟩ := sizing_ends (countsOf nodes (streamsOf nodes)).data
  obtain ⟨htable, -⟩ := needed_fixed hfixed
  obtain rfl := Except.ok.inj (hl.symm.trans (layout_eq rfl (hends _ le_rfl) htable))
  obtain ⟨hfat, hdifat⟩ := Prod.le_def.mp (hleast _ needed_enough)
  have hlimit : maxRegSect = 0xFFFFFFFA := rfl
  change (countsOf nodes (streamsOf nodes)).data + fatCount + difatCount ≤ maxRegSect + 1
  dsimp only at hfat hdifat
  omega

section OneStream
variable {n : Nat}

/-- The entries of the document. -/
def firstEntry (n : Nat) : Entry := (oneStream n).numbered 0

def streamEntry (n : Nat) : Entry := .mk 1 [] streamKind (blank n) (blank 16) 0 (blank 8) (blank 8) []

theorem oneStream_nodes (n : Nat) : ((oneStream n).numbered 0).nodes = [firstEntry n, streamEntry n] := rfl

theorem length_streamEntry (n : Nat) : (streamEntry n).data.length = n := List.length_replicate

theorem oneStream_streams (h : miniCutoffSize ≤ n) : streamsOf [firstEntry n, streamEntry n] = ⟨[], [], fun _ => 0, [streamEntry n]⟩ := by
  have hlong : isLong (streamEntry n) = true := by
    rw [isLong, length_streamEntry, decide_eq_true h]
    rfl
  have hfirst : addStream ⟨[], [], fun _ => 0, []⟩ (firstEntry n) = ⟨[], [], fun _ => 0, []⟩ := by
    rw [addStream]
    exact if_pos (by decide : ¬ rootKind = streamKind)
  rw [streamsOf, List.foldl_cons, List.foldl_cons, List.foldl_nil, hfirst, addStream_long _ hlong]
  rfl

theorem oneStream_inRange (h : miniCutoffSize ≤ n) (hn : n ≤ 2 ^ 32) : InRange ((oneStream n).numbered 0).nodes := by
  have hsectors {size count : Nat} (h : size ≤ 512 * count) : sectorsFor size ≤ count := (ceilDiv_le_iff_le_mul (by decide)).mpr h
  have hstream : sectorsFor n ≤ 2 ^ 23 := hsectors (hn.trans (by decide))
  have hempty : sectorsFor 0 ≤ 0 := hsectors le_rfl
  have hdir : sectorsFor 256 ≤ 1 := hsectors (by decide)
  refine inRange_of_data ?_
  rw [oneStream_nodes, oneStream_streams h]
  have hcounts : countsOf [firstEntry n, streamEntry n] ⟨[], [], fun _ => 0, [streamEntry n]⟩ =
      ⟨[sectorsFor n], sectorsFor 0, sectorsFor 0, sectorsFor 256⟩ := by
    simp only [countsOf, List.map_singleton, length_streamEntry, List.length_nil, List.length_cons, Nat.zero_mul, Nat.zero_add,
      Nat.reduceAdd, Nat.reduceMul]
  rw [hcounts, Counts.data, List.sum_singleton]
  dsimp only
  omega

theorem oneStream_fits (h : miniCutoffSize ≤ n) (hn : n < 2 ^ 32) : Fits ((oneStream n).numbered 0).nodes := by
  rw [oneStream_nodes]
  refine ⟨fun node hnode hkind => ?_, ?_, (by decide : 2 < 2 ^ 32)⟩
  · obtain rfl | hnode := List.mem_cons.mp hnode
    · cases hkind
    · rwa [List.mem_singleton.mp hnode, length_streamEntry]
  · have hshort : [firstEntry n, streamEntry n].filter isShort = [] := by
      have hstream : ¬ isShort (streamEntry n) = true := by
        rw [isShort, length_streamEntry]
        simp [h]
      rw [List.filter_cons_of_neg (by simp [isShort, firstEntry, oneStream, Entry.numbered, Entry.kind, rootKind, streamKind]),
        List.filter_cons_of_neg hstream, List.filter_nil]
    rw [hshort]
    decide

end OneStream

theorem read_written_one : ∃ raw tree, write id (oneStream 5000) = .ok raw ∧ read raw = .ok tree ∧ (oneStream 5000).Same tree :=
  (read_written_iff id (oneStream_document 5000) (oneStream_inRange (by decide) (by decide))).mpr
    (oneStream_fits (by decide) (by decide))

/-- Of a stream of `2 ^ 32` bytes nothing is read back. -/
theorem read_written_false : ¬ ∀ (upper : Str → Str) (root : Entry), root.IsDocument → InRange (root.numbered 0).nodes →
    ∃ raw tree, write upper root = .ok raw ∧ read raw = .ok tree ∧ root.Same tree := by
  intro h
  have hdoc := oneStream_document (2 ^ 32)
  have hrange : InRange ((oneStream (2 ^ 32)).numbered 0).nodes := oneStream_inRange (by decide) le_rfl
  obtain ⟨raw, tree, hwrite, hread, hsame⟩ := h id (oneStream (2 ^ 32)) hdoc hrange
  have hfits := (fits_of_same hdoc hrange hwrite hread hsame).streams (streamEntry (2 ^ 32)) (List.mem_cons_of_mem _ List.mem_cons_self) rfl
  rw [length_streamEntry] at hfits
  exact Nat.lt_irrefl _ hfits

end XgenSdk.Cfb
