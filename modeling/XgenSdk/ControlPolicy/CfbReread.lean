import XgenSdk.ControlPolicy.CfbRoundTrip

/-! Reading, writing and reading again: what the reader returns has the fields of a
document, so only kinds and sizes can keep it from being written and read back. -/
namespace XgenSdk.Cfb
open XgenSdk.Py XgenSdk.Checks
open XgenSdk.Splice (slice)

section Names
open Utf16

theorem isSurrogate_iff {c : CodePoint} : isSurrogate c = false ↔ IsScalar c := by
  simp only [isSurrogate, IsScalar, Bool.and_eq_false_iff, decide_eq_false_iff_not]
  omega

theorem scalar_replacement : IsScalar replacement := .inr (by decide)

theorem scalar_single {w : Word} (hhigh : isHigh w = false) (hlow : isLow w = false) : IsScalar (single w) := by
  simp only [isHigh, isLow, Bool.and_eq_false_iff, decide_eq_false_iff_not] at hhigh hlow
  change w.val < 0xD800 ∨ 0xDFFF < w.val
  omega

theorem scalar_paired (high low : Word) : IsScalar (paired high low) := by
  refine .inr ?_
  change 0xDFFF < 0x10000 + (high.val - 0xD800) % 1024 * 1024 + (low.val - 0xDC00) % 1024
  omega

/-- A word outside the low surrogates, or the mark in its place. -/
theorem scalar_mark {w : Word} (hhigh : isHigh w = false) : IsScalar (if isLow w then replacement else single w) := by
  split
  · exact scalar_replacement
  · rename_i hlow
    exact scalar_single hhigh (by simpa using hlow)

theorem length_encode_mark (w : Word) (b : Bool) : (encodeOne (if b then replacement else single w)).length = 1 := by
  cases b
  · exact congrArg List.length (encodeOne_single w)
  · rfl

theorem length_encode_paired (high low : Word) : (encodeOne (paired high low)).length ≤ 2 := by
  rw [length_encodeOne]
  split <;> omega

/-- Characters that are read with marks take no more words than their bytes. -/
theorem decodeReplaced_units (bytes : Bytes) :
    (∀ c ∈ decodeReplaced bytes, IsScalar c) ∧ 2 * (encode (decodeReplaced bytes)).length ≤ bytes.length + 1 := by
  induction bytes using decodeReplaced.induct with
  | case1 lo hi lo' hi' rest hhigh hlow ih =>
    rw [decodeReplaced, if_pos hhigh, if_pos hlow, encode_cons, List.length_append]
    have hpair := length_encode_paired (word lo hi) (word lo' hi')
    refine ⟨List.forall_mem_cons.mpr ⟨scalar_paired _ _, ih.1⟩, ?_⟩
    simp only [List.length_cons] at ih ⊢
    omega
  | case2 lo hi lo' hi' rest hhigh hlow ih =>
    rw [decodeReplaced, if_pos hhigh, if_neg hlow, encode_cons, List.length_append]
    have hmark : (encodeOne replacement).length = 1 := rfl
    refine ⟨List.forall_mem_cons.mpr ⟨scalar_replacement, ih.1⟩, ?_⟩
    simp only [List.length_cons] at ih ⊢
    omega
  | case3 lo hi lo' hi' rest hhigh ih =>
    rw [decodeReplaced, if_neg hhigh, encode_cons, List.length_append, length_encode_mark]
    refine ⟨List.forall_mem_cons.mpr ⟨scalar_mark (by simpa using hhigh), ih.1⟩, ?_⟩
    simp only [List.length_cons] at ih ⊢
    omega
  | case4 lo hi last hhigh =>
    rw [decodeReplaced, if_pos hhigh]
    exact ⟨List.forall_mem_singleton.mpr scalar_replacement, by change 2 * 1 ≤ 4; decide⟩
  | case5 lo hi last hhigh =>
    rw [decodeReplaced, if_neg hhigh, encode_cons, List.length_append, length_encode_mark]
    have hmark : (encode [replacement]).length = 1 := rfl
    refine ⟨List.forall_mem_cons.mpr ⟨scalar_mark (by simpa using hhigh), List.forall_mem_singleton.mpr scalar_replacement⟩, ?_⟩
    simp only [List.length_cons, List.length_nil]
    omega
  | case6 lo hi =>
    rw [decodeReplaced, encode_cons, List.length_append, length_encode_mark]
    refine ⟨List.forall_mem_singleton.mpr ?_, by change 2 * (1 + 0) ≤ 3; decide⟩
    split
    · exact scalar_replacement
    · rename_i hneither
      simp only [Bool.or_eq_true, not_or, Bool.not_eq_true] at hneither
      exact scalar_single hneither.1 hneither.2
  | case7 b =>
    rw [decodeReplaced]
    exact ⟨List.forall_mem_singleton.mpr scalar_replacement, by change 2 * 1 ≤ 2; decide⟩
  | case8 => exact ⟨fun c hc => absurd hc List.not_mem_nil, by decide⟩

end Names

/-! The entries of a tree that was read. -/

theorem nameOf_plain (record : Bytes) (nameLen : Nat) :
    (∀ c ∈ nameOf record nameLen, isSurrogate c = false) ∧ (Utf16.encode (nameOf record nameLen)).length ≤ 31 := by
  obtain ⟨hscalar, hunits⟩ := decodeReplaced_units (record.take (min 64 nameLen - 2))
  refine ⟨fun c hc => isSurrogate_iff.mpr (hscalar c hc), ?_⟩
  have htake := List.length_take_le (min 64 nameLen - 2) record
  change 2 * (Utf16.encode (nameOf record nameLen)).length ≤ _ at hunits
  omega

/-- An entry and its children, with the fields that the record gave. -/
structure ReadFrom (d : Directory) (levels depth : Nat) (tree : Entry) : Prop where
  plain : tree.Plain
  data : tree.kind ≠ streamKind → tree.data = []
  storage : holdsChildren tree.kind = true → depth ≤ maxDepth
  leaf : holdsChildren tree.kind = false → tree.children = []
  children : ∀ c ∈ tree.children, ∃ sid, entryOf d levels sid (depth + 1) = .ok c

theorem childSids_depth {records : List Bytes} {record : Bytes} {kind : UInt8} {depth : Nat} {sids : List Nat}
    (h : childSids records record kind depth = .ok sids) (hkind : holdsChildren kind = true) : depth ≤ maxDepth := by
  rw [childSids, if_pos hkind] at h
  obtain ⟨first, -, h⟩ := bind_ok h
  unfold siblings at h
  split at h
  · cases h
  · omega

theorem entryOf_read {d : Directory} (hd : ∀ record ∈ d.records, record.length = 128) {levels sid depth : Nat} {tree : Entry}
    (h : entryOf d (levels + 1) sid depth = .ok tree) : ReadFrom d levels depth tree := by
  rw [entryOf] at h
  obtain ⟨record, hrecord, h⟩ := bind_ok h
  obtain ⟨nameLen, -, h⟩ := bind_ok h
  obtain ⟨kind, -, h⟩ := bind_ok h
  obtain ⟨state, hstate, h⟩ := bind_ok h
  obtain ⟨data, hdata, h⟩ := bind_ok h
  obtain ⟨sids, hsids, h⟩ := bind_ok h
  obtain ⟨children, hchildren, h⟩ := bind_ok h
  obtain rfl := Except.ok.inj h
  have hlength : record.length = 128 := hd record (List.mem_of_getElem? (item_eq hrecord))
  have hslice {a b : Nat} (hb : b ≤ 128) : (slice record a b).length = b - a := Splice.length_slice record (by omega)
  obtain ⟨hscalar, hunits⟩ := nameOf_plain record nameLen
  refine ⟨⟨hscalar, hunits, hslice (by decide), u32_lt hstate, hslice (by decide), hslice (by decide)⟩, ?_, ?_, ?_, ?_⟩
  · intro (hkind : kind ≠ streamKind)
    rw [dataOf, if_neg hkind] at hdata
    exact (Except.ok.inj hdata).symm
  · exact childSids_depth hsids
  · intro (hkind : holdsChildren kind = false)
    rw [childSids, hkind] at hsids
    rw [← Except.ok.inj hsids] at hchildren
    exact (Except.ok.inj hchildren).symm
  · intro c hc
    obtain ⟨sid, -, hread⟩ := mapM_ok hchildren c hc
    exact ⟨sid, hread⟩

/-- The entries below the root are storages and streams. -/
def Entry.TwoKinds (root : Entry) : Prop := ∀ m ∈ nodesAll root.children, m.kind = storageKind ∨ m.kind = streamKind

theorem allStorable_iff {depth : Nat} {es : List Entry} : allStorable depth es ↔ ∀ e ∈ es, e.Storable depth := by
  induction es with
  | nil => simp [allStorable]
  | cons e es ih => rw [allStorable, ih, List.forall_mem_cons]

theorem storable_iff {depth : Nat} {e : Entry} : e.Storable depth ↔ e.Plain ∧
    (e.kind = storageKind ∧ e.data = [] ∧ depth ≤ maxDepth ∨ e.kind = streamKind ∧ e.children = []) ∧
      ∀ c ∈ e.children, c.Storable (depth + 1) := by
  cases e with
  | mk sid name kind data clsid state created modified children =>
    rw [Entry.Storable, allStorable_iff]
    rfl

theorem entryOf_storable {d : Directory} (hd : ∀ record ∈ d.records, record.length = 128) {levels sid depth : Nat} {tree : Entry}
    (h : entryOf d levels sid depth = .ok tree) (hkinds : ∀ m ∈ tree.nodes, m.kind = storageKind ∨ m.kind = streamKind) :
    tree.Storable depth := by
  induction levels generalizing sid depth tree with
  | zero => cases h
  | succ levels ih =>
    have hread := entryOf_read hd h
    rw [nodes_eq] at hkinds
    obtain ⟨hown, hbelow⟩ := List.forall_mem_cons.mp hkinds
    refine storable_iff.mpr ⟨hread.plain, ?_, fun c hc => ?_⟩
    · obtain hstorage | hstream := hown
      · exact .inl ⟨hstorage, hread.data (by rw [hstorage]; decide), hread.storage (by rw [hstorage]; decide)⟩
      · exact .inr ⟨hstream, hread.leaf (by rw [hstream]; decide)⟩
    · obtain ⟨sid, hc'⟩ := hread.children c hc
      exact ih hc' fun m hm => hbelow m (mem_nodesAll.mpr ⟨c, hc, hm⟩)

/-- What the reader returns is a document, where below the root only storages and streams are. -/
theorem read_document {raw : Bytes} {root : Entry} (h : read raw = .ok root) (hkinds : root.TwoKinds) :
    root.IsDocument ∧ root.data = [] := by
  obtain ⟨d, hd, h⟩ := bind_ok h
  obtain ⟨rootRecord, hrecord, h⟩ := bind_ok h
  obtain ⟨kind, hkind, h⟩ := bind_ok h
  have hfits := (readDirectory_ends raw).of_ok hd
  split at h
  · cases h
  rename_i hroot
  have hread := entryOf_read hfits.records h
  obtain ⟨record, kind', data, sids, children, hrecord', hkind', -, -, -, _, _, _, _, _, rfl⟩ := entryOf_parts h
  obtain rfl := Except.ok.inj (hrecord.symm.trans hrecord')
  obtain rfl := Except.ok.inj (hkind.symm.trans hkind')
  have hkind : kind = rootKind := not_not.mp hroot
  refine ⟨⟨hread.plain, hkind, allStorable_iff.mpr fun c hc => ?_⟩, hread.data ?_⟩
  · obtain ⟨sid, hc'⟩ := hread.children c hc
    exact entryOf_storable hfits.records hc' fun m hm => hkinds m (mem_nodesAll.mpr ⟨c, hc, hm⟩)
  · change kind ≠ streamKind
    rw [hkind]
    decide

/-- A tree has room in a file of version 3. -/
structure Entry.Room (root : Entry) : Prop where
  range : InRange (root.numbered 0).nodes
  fits : Fits (root.numbered 0).nodes

set_option maxRecDepth 100000 in
/-- The entries of two storages and an empty stream, and what they take. -/
theorem read_plain_sizes : (read plain).map (fun t => ((nodesAll t.children).map Entry.kind,
    (countsOf (t.numbered 0).nodes (streamsOf (t.numbered 0).nodes)).data, ((t.numbered 0).nodes.filter isShort).length,
    (t.numbered 0).nodes.length, (t.numbered 0).nodes.map fun m => m.data.length)) =
      .ok ([storageKind, streamKind, storageKind], 1, 0, 4, [0, 0, 0, 0]) := by decide

end XgenSdk.Cfb
