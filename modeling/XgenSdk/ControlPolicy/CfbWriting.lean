import XgenSdk.ControlPolicy.CfbEntries

/-! A document is written where a file of version 3 has room for it. -/
namespace XgenSdk.Cfb
open XgenSdk.Py XgenSdk.Checks XgenSdk.Trees

section Writes
variable {upper : Str → Str} {nodes : List Entry} {links links' : Links}

theorem build_color (level : Nat) (sids : List Nat) (s : Linking) (sid : Nat) :
    ((build level sids s).2.links sid).color = (s.links sid).color := by
  induction hn : sids.length using Nat.strong_induction_on generalizing sids level s with
  | _ n ih =>
    rw [build]
    split
    · rfl
    · rename_i first after hdrop
      have hlength := congrArg List.length hdrop
      rw [List.length_drop, List.length_cons] at hlength
      have hside : ∀ (links : Links) (other v : Nat), (setLeft links other v sid).color = (links sid).color ∧
          (setRight links other v sid).color = (links sid).color := by
        intro links other v
        by_cases hother : sid = other
        · rw [hother, setLeft, setRight, Function.update_self, Function.update_self]
          exact ⟨rfl, rfl⟩
        · rw [setLeft, setRight, Function.update_of_ne hother, Function.update_of_ne hother]
          exact ⟨rfl, rfl⟩
      dsimp only
      rw [(hside _ _ _).2, ih after.length (by omega) _ _ _ rfl]
      dsimp only
      rw [(hside _ _ _).1, ih (sids.take (sids.length / 2)).length (by rw [List.length_take]; omega) _ _ _ rfl]

/-- Every colour is red or black. -/
def Coloured (links : Links) : Prop := ∀ sid, (links sid).color < 256

theorem tree_coloured {sids : List Nat} {built : Nat × Links} (hlinks : Coloured links) (h : tree sids links = .ok built) :
    Coloured built.2 := by
  unfold tree at h
  dsimp only at h
  split at h
  · cases h
  · obtain rfl := Except.ok.inj h
    intro sid
    dsimp only
    rw [paint, recolour]
    split
    · dsimp only
      split <;> decide
    · rw [build_color]
      exact hlinks sid

theorem linkNode_coloured {node : Entry} (hlinks : Coloured links) (h : linkNode upper links node = .ok links') : Coloured links' := by
  unfold linkNode at h
  split at h
  · obtain ⟨siblings, -, h⟩ := bind_ok h
    obtain ⟨linked, htree, h⟩ := bind_ok h
    obtain rfl := Except.ok.inj h
    intro sid
    have hchild : (setChild linked.2 node.sid linked.1 sid).color = (linked.2 sid).color := by
      by_cases hsid : sid = node.sid
      · rw [hsid, setChild, Function.update_self]
      · rw [setChild, Function.update_of_ne hsid]
    rw [hchild]
    exact tree_coloured hlinks htree sid
  · exact Except.ok.inj h ▸ hlinks

theorem encodeName_plain {name : Str} (h : ∀ c ∈ name, isSurrogate c = false) : encodeName name = .ok (Utf16.encoded name) := by
  have hnone : ¬ name.any isSurrogate = true := by
    rw [List.any_eq_true]
    rintro ⟨c, hc, hbad⟩
    rw [h c hc] at hbad
    cases hbad
  rw [encodeName, if_neg hnone]

theorem ordered_ok (upper : Str → Str) {children : List Entry} (h : ∀ c ∈ children, c.Plain) : ∃ siblings, ordered upper children = .ok siblings := by
  have hkeys : ∀ c ∈ children, ∃ kc, (do let k ← key upper c.name; return (k, c)) = (.ok kc : Writing ((Nat ×ₗ Str) × Entry)) := by
    intro c hc
    have hkey : key upper c.name = .ok (toLex ((Utf16.encoded c.name).length, upper c.name)) := by
      rw [key, encodeName_plain (h c hc).name, ok_bind]
      rfl
    exact ⟨_, by rw [hkey, ok_bind]; rfl⟩
  obtain ⟨keyed, hkeyed⟩ := mapM_ok_iff.mpr hkeys
  exact ⟨_, by rw [ordered, hkeyed, ok_bind]; rfl⟩

theorem linkNode_ok {node : Entry} (hnames : ∀ c ∈ node.children, c.Plain) (hnodup : (childNumbers node).Nodup) (links : Links) :
    ∃ links', linkNode upper links node = .ok links' := by
  unfold linkNode
  split
  · rename_i hholds
    obtain ⟨siblings, hordered⟩ := ordered_ok upper hnames
    obtain ⟨keys, hperm, -, -⟩ := ordered_sorted hordered
    have hne : siblings.map Entry.sid ≠ [] := by
      intro hnil
      rw [List.map_eq_nil_iff] at hnil
      rw [hnil] at hperm
      rw [← hperm.nil_eq] at hholds
      simp at hholds
    obtain ⟨first, linked, htree, -, -, -⟩ := tree_links hne ((hperm.map Entry.sid).nodup_iff.mpr hnodup) links
    exact ⟨_, by rw [hordered, ok_bind, htree, ok_bind]; rfl⟩
  · exact ⟨links, rfl⟩

theorem child_mem {root parent child : Entry} (hparent : parent ∈ (root.numbered 0).nodes) (hchild : child ∈ parent.children) :
    child ∈ (root.numbered 0).nodes :=
  (nodes_perm (root.numbered 0)).mem_iff.mpr (List.mem_cons_of_mem _ (List.mem_flatMap.mpr ⟨parent, hparent, hchild⟩))

theorem linksOf_ok (upper : Str → Str) {root : Entry} (h : ∀ m ∈ (root.numbered 0).nodes, Sound m) :
    ∃ links, linksOf upper (root.numbered 0).nodes = .ok links :=
  foldlM_ok (fun node hnode links => linkNode_ok (fun c hc => (h c (child_mem hnode hc)).1)
    ((List.nodup_flatMap.mp (nodup_childNumbers 0 root)).1 node hnode) links) noLinks

/-- Numbers of entries and of none fit where those of the entries do. -/
theorem Linked.low {t : BinaryTree Nat} {v : Nat} (h : Linked links t v) (hlow : ∀ sid ∈ inorder t, sid < 2 ^ 32) :
    v < 2 ^ 32 ∧ ∀ sid ∈ inorder t, (links sid).left < 2 ^ 32 ∧ (links sid).right < 2 ^ 32 := by
  induction t generalizing v with
  | nil =>
    obtain rfl : v = noStream := h
    exact ⟨by decide, fun sid hsid => absurd hsid List.not_mem_nil⟩
  | node first l r ihl ihr =>
    obtain ⟨rfl, hl, hr⟩ := h
    obtain ⟨hleft, hlefts⟩ := ihl hl fun sid hsid => hlow sid (mem_inorder_node.mpr (.inr (.inl hsid)))
    obtain ⟨hright, hrights⟩ := ihr hr fun sid hsid => hlow sid (mem_inorder_node.mpr (.inr (.inr hsid)))
    refine ⟨hlow v (mem_inorder_node.mpr (.inl rfl)), fun sid hsid => ?_⟩
    obtain rfl | hsid | hsid := mem_inorder_node.mp hsid
    · exact ⟨hleft, hright⟩
    · exact hlefts sid hsid
    · exact hrights sid hsid

theorem linksOf_low {root node : Entry} (h : linksOf upper (root.numbered 0).nodes = .ok links)
    (hsound : ∀ m ∈ (root.numbered 0).nodes, Sound m) (hfew : (root.numbered 0).nodes.length < 2 ^ 32)
    (hnode : node ∈ (root.numbered 0).nodes) :
    (links node.sid).left < 2 ^ 32 ∧ (links node.sid).right < 2 ^ 32 ∧ (links node.sid).child < 2 ^ 32 := by
  have hlow : ∀ m ∈ (root.numbered 0).nodes, m.sid < 2 ^ 32 := by
    intro m hm
    have hin : m.sid ∈ List.range (root.numbered 0).nodes.length := numbered_sids root ▸ List.mem_map_of_mem hm
    exact (List.mem_range.mp hin).trans hfew
  have htree : ∀ parent ∈ (root.numbered 0).nodes, holdsChildren parent.kind = true → (links parent.sid).child < 2 ^ 32 ∧
      ∀ sid ∈ childNumbers parent, (links sid).left < 2 ^ 32 ∧ (links sid).right < 2 ^ 32 := by
    intro parent hparent hkind
    obtain ⟨t, hlinked, hperm⟩ := linksOf_tree h hparent hkind
    obtain ⟨hchild, hsides⟩ := hlinked.low fun sid hsid => by
      obtain ⟨child, hin, rfl⟩ := List.mem_map.mp (hperm.mem_iff.mp hsid)
      exact hlow child (child_mem hparent hin)
    exact ⟨hchild, fun sid hsid => hsides sid (hperm.mem_iff.mpr hsid)⟩
  have hsids : ((root.numbered 0).nodes.map Entry.sid).Nodup := by
    rw [sids_nodes]
    exact List.nodup_range'
  have hties := linkNodes_tie h hsids (nodup_childNumbers 0 root)
  have hchild : (links node.sid).child < 2 ^ 32 := by
    obtain ⟨-, hholds | ⟨-, hnone⟩⟩ := hsound node hnode
    · exact (htree node hnode hholds).1
    · rw [linkNodes_childless h hsids (nodup_childNumbers 0 root) hnode hnone]
      exact (by decide : noStream < 2 ^ 32)
  have hsides : (links node.sid).left < 2 ^ 32 ∧ (links node.sid).right < 2 ^ 32 := by
    obtain rfl | hbelow := List.mem_cons.mp ((nodes_perm (root.numbered 0)).mem_iff.mp hnode)
    · have hapart : (root.numbered 0).sid ∉ (root.numbered 0).nodes.flatMap childNumbers := by
        have hnodup := ((nodes_perm (root.numbered 0)).map Entry.sid).nodup_iff.mp hsids
        rw [List.map_cons, List.map_flatMap] at hnodup
        exact (List.nodup_cons.mp hnodup).1
      obtain ⟨hleft, hright, -⟩ := hties.2.1 [(root.numbered 0).sid] (fun sid hsid => List.mem_singleton.mp hsid ▸ hapart) _
        (List.mem_singleton_self _)
      rw [hleft, hright]
      exact ⟨(by decide : noStream < 2 ^ 32), (by decide : noStream < 2 ^ 32)⟩
    · obtain ⟨parent, hparent, hin⟩ := List.mem_flatMap.mp hbelow
      obtain ⟨-, hholds | ⟨-, hnone⟩⟩ := hsound parent hparent
      · exact (htree parent hparent hholds).2 _ (List.mem_map_of_mem hin)
      · rw [hnone] at hin
        cases hin
  exact ⟨hsides.1, hsides.2, hchild⟩

end Writes

section Room
variable {nodes : List Entry} {fatCount difatCount : Nat}

theorem startAt_low {first count : Nat} (h : first ≤ maxRegSect + 1) : startAt first count < 256 ^ 4 := by
  unfold startAt
  split
  · decide
  · exact h.trans_lt (by decide)

theorem chainsEntries_low {first v : Nat} {counts : List Nat} (h : first + counts.sum ≤ maxRegSect + 1)
    (hv : v ∈ chainsEntries first counts) : v < 256 ^ 4 := by
  obtain ⟨i, hi, rfl⟩ := List.getElem_of_mem hv
  rw [length_chainsEntries] at hi
  have hlimit : maxRegSect + 1 < 256 ^ 4 := by decide
  obtain hleads | hleads := chainsEntries_leads first hi
  · rw [List.getElem?_eq_some_iff] at hleads
    rw [hleads.2]
    decide
  · rw [List.getElem?_eq_some_iff] at hleads
    rw [hleads.2]
    omega

theorem nextDifat_low {first i : Nat} (h : first + difatCount ≤ maxRegSect + 1) : nextDifat first difatCount i < 256 ^ 4 := by
  have hlimit : maxRegSect + 1 < 256 ^ 4 := by decide
  unfold nextDifat
  split
  · omega
  · decide

theorem fatSectors_low (h : (countsOf nodes (streamsOf nodes)).data + fatCount + difatCount ≤ maxRegSect + 1) {v : Nat}
    (hv : v ∈ (laid nodes fatCount difatCount).fatSectors) : v < 256 ^ 4 := by
  have hlimit : maxRegSect + 1 < 256 ^ 4 := by decide
  have hin := List.mem_range'_1.mp hv
  omega

theorem header_ok (h : (countsOf nodes (streamsOf nodes)).data + fatCount + difatCount ≤ maxRegSect + 1) :
    ∃ head, header (laid nodes fatCount difatCount) = .ok head := by
  have hlimit : maxRegSect + 1 < 256 ^ 4 := by decide
  have hdata : (countsOf nodes (streamsOf nodes)).data = (countsOf nodes (streamsOf nodes)).bigs.sum +
    (countsOf nodes (streamsOf nodes)).mini + (countsOf nodes (streamsOf nodes)).minifat + (countsOf nodes (streamsOf nodes)).dir := rfl
  have hdifat : (laid nodes fatCount difatCount).difatSectors.head?.getD endOfChain < 256 ^ 4 := by
    rw [List.head?_eq_getElem?, getElem?_difatSectors]
    exact nextDifat_low h
  have hdir : (laid nodes fatCount difatCount).dirStart < 256 ^ 4 := startAt_low (by omega)
  have hminifat : (if (laid nodes fatCount difatCount).counts.minifat ≠ 0 then (laid nodes fatCount difatCount).minifatStart
      else endOfChain) < 256 ^ 4 := by
    split
    · exact startAt_low (by omega)
    · decide
  have hfields : ∀ v ∈ [(laid nodes fatCount difatCount).fatCount, (laid nodes fatCount difatCount).dirStart, 0, miniCutoffSize,
      if (laid nodes fatCount difatCount).counts.minifat ≠ 0 then (laid nodes fatCount difatCount).minifatStart else endOfChain,
      (laid nodes fatCount difatCount).counts.minifat, (laid nodes fatCount difatCount).difatSectors.head?.getD endOfChain,
      (laid nodes fatCount difatCount).difatCount], v < 256 ^ 4 := by
    simp only [List.forall_mem_cons]
    refine ⟨?_, hdir, by decide, by decide, hminifat, ?_, hdifat, ?_, fun v hv => absurd hv List.not_mem_nil⟩
    · change fatCount < 256 ^ 4
      omega
    · rw [counts_laid]
      omega
    · change difatCount < 256 ^ 4
      omega
  have hslots : ∀ v ∈ headDifat (laid nodes fatCount difatCount), v < 256 ^ 4 := by
    intro v hv
    obtain hv | hv := List.mem_append.mp hv
    · exact fatSectors_low h (List.mem_of_mem_take hv)
    · rw [List.eq_of_mem_replicate hv]
      decide
  have hversions : ∀ v ∈ [0x003E, 0x0003, 0xFFFE, 9, 6], v < 256 ^ 2 := by decide
  exact ⟨_, by rw [header, pack_eq hversions, ok_bind, pack_eq hfields, ok_bind, pack_eq hslots, ok_bind]; rfl⟩

theorem fat_ok (h : (countsOf nodes (streamsOf nodes)).data + fatCount + difatCount ≤ maxRegSect + 1) :
    ∃ fat, pack 4 (laid nodes fatCount difatCount).fat = .ok fat := by
  refine ⟨_, pack_eq fun v hv => ?_⟩
  have hsum : 0 + ((countsOf nodes (streamsOf nodes)).bigs ++ [(countsOf nodes (streamsOf nodes)).mini,
      (countsOf nodes (streamsOf nodes)).minifat, (countsOf nodes (streamsOf nodes)).dir]).sum ≤ maxRegSect + 1 := by
    simp only [List.sum_append, List.sum_cons, List.sum_nil]
    rw [Counts.data] at h
    omega
  simp only [laidOut, List.mem_append, List.mem_replicate] at hv
  obtain ((hv | ⟨-, rfl⟩) | ⟨-, rfl⟩) | ⟨-, rfl⟩ := hv
  · exact chainsEntries_low hsum hv
  · decide
  · decide
  · decide

theorem difat_ok (h : (countsOf nodes (streamsOf nodes)).data + fatCount + difatCount ≤ maxRegSect + 1) :
    ∃ difat, difatBytes (laid nodes fatCount difatCount) = .ok difat := by
  have hsectors : ∀ e ∈ (laid nodes fatCount difatCount).difatSectors.zipIdx, ∃ piece,
      pack 4 (difatChunk (laid nodes fatCount difatCount) e.2 ++
        [(laid nodes fatCount difatCount).difatSectors[e.2 + 1]?.getD endOfChain]) = .ok piece := by
    refine fun e _ => ⟨_, pack_eq fun v hv => ?_⟩
    obtain hv | hv := List.mem_append.mp hv
    · obtain hv | hv := List.mem_append.mp hv
      · exact fatSectors_low h (List.mem_of_mem_drop (List.mem_of_mem_drop (List.mem_of_mem_take hv)))
      · rw [List.eq_of_mem_replicate hv]
        decide
    · rw [List.mem_singleton.mp hv, getElem?_difatSectors]
      exact nextDifat_low h
  obtain ⟨pieces, hpieces⟩ := mapM_ok_iff.mpr hsectors
  exact ⟨_, by rw [difatBytes, hpieces, ok_bind]; rfl⟩

/-- Where the streams start. -/
theorem starts_low (hmini : (streamsOf nodes).mini.length < 2 ^ 32)
    (h : (countsOf nodes (streamsOf nodes)).data + fatCount + difatCount ≤ maxRegSect + 1) (sid : Nat) :
    (laid nodes fatCount difatCount).start sid < 256 ^ 4 := by
  have hlimit : maxRegSect + 1 < 256 ^ 4 := by decide
  have hbigs : ((streamsOf nodes).big.zip (countsOf nodes (streamsOf nodes)).bigs).map Prod.snd = (countsOf nodes (streamsOf nodes)).bigs := by
    rw [zip_bigs, List.map_map]
    rfl
  have hstart := bigStarts_start ((streamsOf nodes).big.zip (countsOf nodes (streamsOf nodes)).bigs) 0 (streamsOf nodes).start sid
  rw [hbigs, Nat.zero_add] at hstart
  change bigStarts 0 ((streamsOf nodes).big.zip (countsOf nodes (streamsOf nodes)).bigs) (streamsOf nodes).start sid < 256 ^ 4
  obtain hsame | hend | hle := hstart
  · rw [hsame]
    obtain hend | hle := streamsOf_start nodes sid
    · rw [hend]
      decide
    · omega
  · rw [hend]
    decide
  · rw [Counts.data] at h
    omega

theorem extent_low {node : Entry} (hmini : (streamsOf nodes).mini.length < 2 ^ 32)
    (h : (countsOf nodes (streamsOf nodes)).data + fatCount + difatCount ≤ maxRegSect + 1)
    (hsize : node.kind = streamKind → node.data.length < 2 ^ 32) :
    (extent (streamsOf nodes) (laid nodes fatCount difatCount) node).1 < 256 ^ 4 ∧
      (extent (streamsOf nodes) (laid nodes fatCount difatCount) node).2 < 256 ^ 8 := by
  have hpow : 2 ^ 32 ≤ 256 ^ 8 := by decide
  unfold extent
  split
  · rename_i hkind
    have hfit := (hsize hkind).trans_le hpow
    exact ⟨starts_low hmini h _, hfit⟩
  · split
    · have hfit := hmini.trans_le hpow
      refine ⟨?_, hfit⟩
      dsimp only
      split
      · exact startAt_low (by rw [Counts.data] at h; omega)
      · decide
    · exact ⟨by decide, by decide⟩

theorem record_ok {links : Links} {s : Streams} {l : Layout} {node : Entry} (hplain : node.Plain)
    (hlinks : (links node.sid).left < 2 ^ 32 ∧ (links node.sid).right < 2 ^ 32 ∧ (links node.sid).child < 2 ^ 32)
    (hcolor : (links node.sid).color < 256) (hextent : (extent s l node).1 < 256 ^ 4 ∧ (extent s l node).2 < 256 ^ 8) :
    ∃ bytes, record links s l node = .ok bytes := by
  have hunits := hplain.units
  have hencoded : (Utf16.encoded node.name).length = 2 * (Utf16.encode node.name).length := Utf16.length_bytesOf _
  have hsize : ∀ v ∈ [(Utf16.encoded node.name).length + 2], v < 256 ^ 2 := by
    rw [List.forall_mem_singleton]
    omega
  have hkinds : ∀ v ∈ [node.kind.toNat, (links node.sid).color], v < 256 ^ 1 := by
    simp only [List.forall_mem_cons]
    exact ⟨node.kind.toNat_lt, hcolor, fun v hv => absurd hv List.not_mem_nil⟩
  have hpointers : ∀ v ∈ [(links node.sid).left, (links node.sid).right, (links node.sid).child], v < 256 ^ 4 := by
    simp only [List.forall_mem_cons]
    exact ⟨hlinks.1, hlinks.2.1, hlinks.2.2, fun v hv => absurd hv List.not_mem_nil⟩
  have hstate : ∀ v ∈ [node.state], v < 256 ^ 4 := List.forall_mem_singleton.mpr hplain.state
  obtain ⟨⟨start, size⟩, hext⟩ : ∃ e, extent s l node = e := ⟨_, rfl⟩
  rw [hext] at hextent
  have hstart : ∀ v ∈ [start], v < 256 ^ 4 := List.forall_mem_singleton.mpr hextent.1
  have hsizes : ∀ v ∈ [size], v < 256 ^ 8 := List.forall_mem_singleton.mpr hextent.2
  have hshort : ¬ 62 < (Utf16.encoded node.name).length := by omega
  exact ⟨_, by
    rw [record, encodeName_plain hplain.name, ok_bind, if_neg hshort, hext]
    dsimp only
    rw [pack_eq hsize, ok_bind, pack_eq hkinds, ok_bind, pack_eq hpointers, ok_bind, pack_eq hstate, ok_bind, pack_eq hstart, ok_bind,
      pack_eq hsizes, ok_bind]
    rfl⟩

end Room

theorem write_ok (upper : Str → Str) {root : Entry} (hdoc : root.IsDocument) (hrange : InRange (root.numbered 0).nodes)
    (hfits : Fits (root.numbered 0).nodes) : ∃ raw, write upper root = .ok raw := by
  have hsound := hdoc.sound
  have hnodup : ((root.numbered 0).nodes.map Entry.sid).Nodup := by
    rw [sids_nodes]
    exact List.nodup_range'
  have hplaced := placed_streamsOf hnodup
  obtain ⟨links, hlinks⟩ := linksOf_ok upper hsound
  have hcolors : Coloured links := foldlM_keeps (fun _ _ _ => linkNode_coloured) (fun _ => (by decide : blackColor < 256)) hlinks
  obtain ⟨fatCount, difatCount, hlayout, -, -⟩ := layout_laid (root.numbered 0).nodes
  have hregular : (countsOf (root.numbered 0).nodes (streamsOf (root.numbered 0).nodes)).data + fatCount + difatCount ≤ maxRegSect + 1 :=
    hrange (laid _ fatCount difatCount) hlayout
  have hmini : (streamsOf (root.numbered 0).nodes).mini.length < 2 ^ 32 := by
    rw [hplaced.mini, length_flatMap_shortBytes]
    exact hfits.mini
  obtain ⟨head, hhead⟩ := header_ok hregular
  obtain ⟨fat, hfat⟩ := fat_ok hregular
  obtain ⟨difat, hdifat⟩ := difat_ok hregular
  have hminifat : ∀ v ∈ (streamsOf (root.numbered 0).nodes).minifat, v < 256 ^ 4 := by
    intro v hv
    rw [hplaced.minifat] at hv
    have hroom := hfits.mini
    have hlimit : maxRegSect = 0xFFFFFFFA := rfl
    exact chainsEntries_low (by omega) hv
  have hrecords : ∀ node ∈ (root.numbered 0).nodes, ∃ bytes,
      record links (streamsOf (root.numbered 0).nodes) (laid (root.numbered 0).nodes fatCount difatCount) node = .ok bytes := by
    intro node hnode
    exact record_ok (hsound node hnode).1 (linksOf_low hlinks hsound hfits.entries hnode) (hcolors _)
      (extent_low hmini hregular (hfits.streams node hnode))
  obtain ⟨records, hrecords⟩ := mapM_ok_iff.mpr hrecords
  exact ⟨_, by
    rw [write]
    dsimp only
    rw [hlinks, ok_bind, hlayout, ok_bind, hhead, ok_bind, pack_eq hminifat, ok_bind, directoryBytes, hrecords]
    simp only [ok_bind, hfat, hdifat]
    rfl⟩

end XgenSdk.Cfb
