import XgenSdk.ControlPolicy.CfbWritten
import Mathlib.Data.List.Induction

/-! Where the streams of a document are, and what reading finds there. -/
namespace XgenSdk.Cfb
open XgenSdk.Py XgenSdk.Checks
open XgenSdk.Splice (slice)

/-- A stream in the mini stream, and one in sectors of its own. -/
def isShort (node : Entry) : Bool := node.kind = streamKind && 0 < node.data.length && node.data.length < miniCutoffSize

def isLong (node : Entry) : Bool := node.kind = streamKind && miniCutoffSize ≤ node.data.length

def miniSectors (node : Entry) : Nat := node.data.length ⌈/⌉ miniSector

def shortBytes (node : Entry) : Bytes := node.data ++ List.replicate (miniSectors node * miniSector - node.data.length) 0

theorem le_miniSectors (node : Entry) : node.data.length ≤ 64 * miniSectors node :=
  (ceilDiv_le_iff_le_mul (by decide)).mp le_rfl

theorem miniSectors_le {node : Entry} {n : Nat} : miniSectors node ≤ n ↔ node.data.length ≤ 64 * n :=
  ceilDiv_le_iff_le_mul (by decide)

theorem length_shortBytes (node : Entry) : (shortBytes node).length = 64 * miniSectors node := by
  have hle := le_miniSectors node
  rw [shortBytes, List.length_append, List.length_replicate, miniSector]
  omega

theorem length_flatMap_shortBytes (nodes : List Entry) : (nodes.flatMap shortBytes).length = 64 * (nodes.map miniSectors).sum := by
  induction nodes with
  | nil => rfl
  | cons node nodes ih =>
    rw [List.flatMap_cons, List.length_append, length_shortBytes, ih, List.map_cons, List.sum_cons]
    omega

section Placing
variable {nodes : List Entry} {node : Entry}

/-- What the streams of a document are placed as. -/
structure Placed (nodes : List Entry) (s : Streams) : Prop where
  mini : s.mini = (nodes.filter isShort).flatMap shortBytes
  minifat : s.minifat = chainsEntries 0 ((nodes.filter isShort).map miniSectors)
  big : s.big = nodes.filter isLong
  start : ∀ before node after, nodes.filter isShort = before ++ node :: after → s.start node.sid = (before.map miniSectors).sum

theorem addStream_short (s : Streams) (h : isShort node = true) : addStream s node =
    { s with
      mini := s.mini ++ shortBytes node
      minifat := s.minifat ++ chainEntries (s.mini.length / miniSector) (miniSectors node)
      start := Function.update s.start node.sid (s.mini.length / miniSector) } := by
  simp only [isShort, Bool.and_eq_true, decide_eq_true_eq] at h
  obtain ⟨⟨hkind, hsome⟩, hsmall⟩ := h
  have hpos : miniSectors node ≠ 0 := by
    have hle := le_miniSectors node
    omega
  rw [addStream, if_neg (not_not.mpr hkind), if_neg (by omega), if_pos hsmall, chainEntries, if_neg hpos, shortBytes, miniSectors]
  dsimp only
  rw [List.append_assoc, List.append_assoc]

theorem addStream_long (s : Streams) (h : isLong node = true) : addStream s node = { s with big := s.big ++ [node] } := by
  simp only [isLong, Bool.and_eq_true, decide_eq_true_eq] at h
  obtain ⟨hkind, hlarge⟩ := h
  have hcutoff : miniCutoffSize = 4096 := rfl
  rw [addStream, if_neg (not_not.mpr hkind), if_neg (by omega), if_neg (by omega)]

/-- All else only has its start noted. -/
theorem addStream_other (s : Streams) (hshort : ¬ isShort node = true) (hlong : ¬ isLong node = true) :
    (addStream s node).mini = s.mini ∧ (addStream s node).minifat = s.minifat ∧ (addStream s node).big = s.big ∧
      ∀ sid, sid ≠ node.sid → (addStream s node).start sid = s.start sid := by
  unfold addStream
  dsimp only
  split
  · exact ⟨rfl, rfl, rfl, fun _ _ => rfl⟩
  · rename_i hkind
    split
    · exact ⟨rfl, rfl, rfl, fun sid hsid => Function.update_of_ne hsid ..⟩
    · rename_i hsome
      simp only [isShort, isLong, Bool.and_eq_true, decide_eq_true_eq] at hshort hlong
      have hkind' : node.kind = streamKind := not_not.mp hkind
      exact absurd ⟨hkind', by omega⟩ (fun hc => (Nat.lt_or_ge node.data.length miniCutoffSize).elim
        (fun hlt => hshort ⟨hc, hlt⟩) (fun hge => hlong ⟨hkind', hge⟩))

theorem Placed.length_mini {s : Streams} (h : Placed nodes s) : s.mini.length = 64 * s.minifat.length := by
  rw [h.mini, h.minifat, length_chainsEntries, length_flatMap_shortBytes]

theorem Placed.add {s : Streams} (h : Placed nodes s) (hsid : node.sid ∉ nodes.map Entry.sid) :
    Placed (nodes ++ [node]) (addStream s node) := by
  have hother : ∀ before (other : Entry) after, nodes.filter isShort = before ++ other :: after → other.sid ≠ node.sid := by
    intro before other after hsplit heq
    have hin : other ∈ nodes.filter isShort := hsplit ▸ List.mem_append_right before List.mem_cons_self
    exact hsid (heq ▸ List.mem_map_of_mem (List.mem_of_mem_filter hin))
  by_cases hshort : isShort node = true
  · have hlong : ¬ isLong node = true := by
      simp only [isShort, isLong, Bool.and_eq_true, decide_eq_true_eq] at hshort ⊢
      omega
    have hfirst : s.mini.length / miniSector = ((nodes.filter isShort).map miniSectors).sum := by
      rw [h.length_mini, h.minifat, length_chainsEntries]
      exact Nat.mul_div_cancel_left _ (by decide)
    rw [addStream_short s hshort]
    refine ⟨?_, ?_, ?_, fun before other after hsplit => ?_⟩
    · rw [List.filter_append, List.filter_cons_of_pos hshort, List.filter_nil, List.flatMap_append, List.flatMap_singleton, h.mini]
    · rw [List.filter_append, List.filter_cons_of_pos hshort, List.filter_nil, List.map_append, List.map_singleton,
        chainsEntries_append, hfirst, h.minifat]
      simp [chainsEntries]
    · rw [List.filter_append, List.filter_cons_of_neg hlong, List.filter_nil, List.append_nil, h.big]
    · rw [List.filter_append, List.filter_cons_of_pos hshort, List.filter_nil] at hsplit
      obtain rfl | ⟨rest, last, rfl⟩ := List.eq_nil_or_concat' after
      · obtain ⟨rfl, hlast⟩ := List.append_inj' hsplit rfl
        obtain rfl := List.singleton_inj.mp hlast
        exact (Function.update_self ..).trans hfirst
      · rw [← List.cons_append, ← List.append_assoc] at hsplit
        have hearlier := (List.append_inj' hsplit rfl).1
        exact (Function.update_of_ne (hother _ _ _ hearlier) ..).trans (h.start _ _ _ hearlier)
  · have hkept : (nodes ++ [node]).filter isShort = nodes.filter isShort := by
      rw [List.filter_append, List.filter_cons_of_neg hshort, List.filter_nil, List.append_nil]
    by_cases hlong : isLong node = true
    · rw [addStream_long s hlong]
      refine ⟨hkept ▸ h.mini, hkept ▸ h.minifat, ?_, hkept ▸ h.start⟩
      rw [List.filter_append, List.filter_cons_of_pos hlong, List.filter_nil, h.big]
    · obtain ⟨hmini, hminifat, hbig, hstart⟩ := addStream_other s hshort hlong
      refine ⟨hmini.trans (hkept ▸ h.mini), hminifat.trans (hkept ▸ h.minifat), hbig.trans ?_, fun before other after hsplit => ?_⟩
      · rw [List.filter_append, List.filter_cons_of_neg hlong, List.filter_nil, List.append_nil, h.big]
      · rw [hkept] at hsplit
        exact (hstart _ (hother _ _ _ hsplit)).trans (h.start _ _ _ hsplit)

theorem placed_streamsOf (hnodup : (nodes.map Entry.sid).Nodup) : Placed nodes (streamsOf nodes) := by
  induction nodes using List.reverseRecOn with
  | nil => exact ⟨rfl, rfl, rfl, fun before other after hsplit => by cases before <;> cases hsplit⟩
  | append_singleton nodes node ih =>
    rw [List.map_append, List.nodup_append] at hnodup
    obtain ⟨hnodup, -, hapart⟩ := hnodup
    have hsid : node.sid ∉ nodes.map Entry.sid := fun hin => hapart _ hin _ (List.mem_singleton_self _) rfl
    rw [streamsOf, List.foldl_append]
    exact (ih hnodup).add hsid

/-- A start is no more than the length of the mini stream, but for that of a stream without data. -/
theorem addStream_start {s : Streams} (h : ∀ sid, s.start sid = endOfChain ∨ s.start sid ≤ s.mini.length) (node : Entry) (sid : Nat) :
    (addStream s node).start sid = endOfChain ∨ (addStream s node).start sid ≤ (addStream s node).mini.length := by
  unfold addStream
  dsimp only
  split
  · exact h sid
  · split
    · by_cases hsid : sid = node.sid
      · exact .inl (hsid ▸ Function.update_self ..)
      · dsimp only
        rw [Function.update_of_ne hsid]
        exact h sid
    · split
      · dsimp only
        rw [List.length_append, List.length_append]
        by_cases hsid : sid = node.sid
        · rw [hsid, Function.update_self]
          exact .inr ((Nat.div_le_self _ _).trans (by omega))
        · rw [Function.update_of_ne hsid]
          exact (h sid).imp_right fun hle => by omega
      · exact h sid

theorem streamsOf_start (nodes : List Entry) : ∀ sid, (streamsOf nodes).start sid = endOfChain ∨
    (streamsOf nodes).start sid ≤ (streamsOf nodes).mini.length := by
  induction nodes using List.reverseRecOn with
  | nil => exact fun sid => .inr (Nat.le_refl 0)
  | append_singleton nodes node ih =>
    rw [streamsOf, List.foldl_append]
    exact addStream_start ih node

end Placing

/-! Where the long streams start. -/

theorem bigStarts_start (bigs : List (Entry × Nat)) (first : Nat) (start : Nat → Nat) (sid : Nat) : bigStarts first bigs start sid = start sid ∨
    bigStarts first bigs start sid = endOfChain ∨ bigStarts first bigs start sid ≤ first + (bigs.map Prod.snd).sum := by
  induction bigs generalizing first start with
  | nil => exact .inl rfl
  | cons big bigs ih =>
    rw [bigStarts, List.map_cons, List.sum_cons, ← Nat.add_assoc]
    obtain hsame | hlater := ih (first + big.2) (Function.update start big.1.sid (if big.2 = 0 then endOfChain else first))
    · rw [hsame]
      by_cases hsid : sid = big.1.sid
      · rw [hsid, Function.update_self]
        split
        · exact .inr (.inl rfl)
        · exact .inr (.inr (by omega))
      · exact .inl (Function.update_of_ne hsid ..)
    · exact .inr hlater

theorem bigStarts_other {bigs : List (Entry × Nat)} {sid : Nat} (h : sid ∉ bigs.map fun big => big.1.sid) (first : Nat) (start : Nat → Nat) :
    bigStarts first bigs start sid = start sid := by
  induction bigs generalizing first start with
  | nil => rfl
  | cons big bigs ih =>
    rw [List.map_cons, List.mem_cons, not_or] at h
    rw [bigStarts, ih h.2, Function.update_of_ne h.1]

theorem bigStarts_split {big : Entry × Nat} {after : List (Entry × Nat)} (h : big.1.sid ∉ after.map fun big => big.1.sid)
    (before : List (Entry × Nat)) (first : Nat) (start : Nat → Nat) :
    bigStarts first (before ++ big :: after) start big.1.sid = startAt (first + (before.map Prod.snd).sum) big.2 := by
  induction before generalizing first start with
  | nil =>
    rw [List.nil_append, bigStarts, bigStarts_other h, Function.update_self]
    rfl
  | cons other before ih =>
    rw [List.cons_append, bigStarts, ih, List.map_cons, List.sum_cons, Nat.add_assoc]

/-! What the chains of short streams read. -/

section MiniStream
variable {nodes : List Entry} {node : Entry} {before after : List Entry} {s : Streams} {d : Directory}

/-- Sectors in a row are one piece. -/
theorem miniBytes_run (d : Directory) (first count : Nat) :
    ((List.range' first count).map (miniBytes d)).flatten = slice d.miniStream (first * miniSector) ((first + count) * miniSector) := by
  induction count with
  | zero => exact (Splice.slice_self _ _).symm
  | succ count ih =>
    rw [List.range'_concat, List.map_append, List.flatten_append, ih, List.map_singleton, List.flatten_singleton, miniBytes,
      Nat.one_mul, Splice.slice_append]
    · rw [Nat.add_assoc]
    · exact Nat.mul_le_mul_right _ (by omega)
    · exact Nat.mul_le_mul_right _ (by omega)

theorem Placed.chainData (h : Placed nodes s) (hsplit : nodes.filter isShort = before ++ node :: after)
    (hcutoff : d.miniCutoff = miniCutoffSize) (htable : ∃ rest, d.minifat = s.minifat ++ rest)
    (hregular : (before.map miniSectors).sum + miniSectors node ≤ maxRegSect + 1) :
    chainData d node.data.length (s.start node.sid) = .ok (slice d.miniStream ((before.map miniSectors).sum * miniSector)
      (((before.map miniSectors).sum + miniSectors node) * miniSector)) := by
  obtain ⟨rest, hminifat⟩ := htable
  have hin : node ∈ nodes.filter isShort := hsplit ▸ List.mem_append_right before List.mem_cons_self
  have hshort := List.of_mem_filter hin
  simp only [isShort, Bool.and_eq_true, decide_eq_true_eq] at hshort
  have hpos : miniSectors node ≠ 0 := by
    have hle := le_miniSectors node
    omega
  have hstart : s.start node.sid = startAt (before.map miniSectors).sum (miniSectors node) := by
    rw [h.start _ _ _ hsplit, startAt, if_neg hpos]
  have hruns : d.minifat = chainsEntries 0 (before.map miniSectors) ++
      chainEntries (before.map miniSectors).sum (miniSectors node) ++
      (chainsEntries ((before.map miniSectors).sum + miniSectors node) (after.map miniSectors) ++ rest) := by
    rw [hminifat, h.minifat, hsplit, List.map_append, List.map_cons, chainsEntries_append, chainsEntries, Nat.zero_add]
    simp only [List.append_assoc]
  rw [Cfb.chainData, hcutoff, if_pos hshort.2, hstart, hruns, chain_startAt (leads_append (length_chainsEntries 0 _)) hregular,
    ok_bind, miniBytes_run]
  rfl

/-- Where a short stream is in the mini stream. -/
theorem Placed.slice_mini (h : Placed nodes s) (hsplit : nodes.filter isShort = before ++ node :: after) :
    slice s.mini ((before.map miniSectors).sum * miniSector) (((before.map miniSectors).sum + miniSectors node) * miniSector) =
      shortBytes node := by
  rw [h.mini, hsplit, List.flatMap_append, List.flatMap_cons]
  refine slice_at (before.flatMap shortBytes) (after.flatMap shortBytes) rfl ?_ ?_
  · rw [length_flatMap_shortBytes, Nat.mul_comm, miniSector]
  · rw [length_flatMap_shortBytes, length_shortBytes, miniSector]
    omega

end MiniStream
/-! Records. -/

section Records
variable {links : Links} {s : Streams} {l : Layout} {node : Entry} {record : Bytes}

/-- The time that is kept of an entry. -/
def timeOf (node : Entry) (time : Bytes) : Bytes := if node.kind = streamKind then List.replicate 8 0 else time

/-- What the reader finds in the record of an entry. -/
structure Recorded (links : Links) (s : Streams) (l : Layout) (node : Entry) (record : Bytes) : Prop where
  length : record.length = 128
  name : ∃ nameLen, unpackFrom 2 record 0x40 = .ok nameLen ∧ nameOf record nameLen = node.name
  kind : item record 0x42 = .ok node.kind
  left : u32 record 0x44 = .ok (links node.sid).left
  right : u32 record 0x48 = .ok (links node.sid).right
  child : u32 record 0x4C = .ok (links node.sid).child
  clsid : slice record 0x50 0x60 = padded 16 node.clsid
  state : u32 record 0x60 = .ok node.state
  created : slice record 0x64 0x6C = timeOf node (padded 8 node.created)
  modified : slice record 0x6C 0x74 = timeOf node (padded 8 node.modified)
  start : u32 record 0x74 = .ok (extent s l node).1
  size : ∀ f : File, f.major = 3 → sizeOf f record = .ok ((extent s l node).2 % 2 ^ 32)

theorem length_padded (n : Nat) (bytes : Bytes) : (padded n bytes).length = n := by
  rw [padded, List.length_append, List.length_take, List.length_replicate]
  omega

theorem encodeName_ok {name : Str} {encoded : Bytes} (h : encodeName name = .ok encoded) :
    encoded = Utf16.encoded name ∧ ∀ c ∈ name, Utf16.IsScalar c := by
  unfold encodeName at h
  split at h
  · cases h
  · rename_i hplain
    refine ⟨(Except.ok.inj h).symm, fun c hc => ?_⟩
    have hone : isSurrogate c = false := by
      simp only [List.any_eq_true, not_exists, not_and, Bool.not_eq_true] at hplain
      exact hplain c hc
    simp only [isSurrogate, Bool.and_eq_false_iff, decide_eq_false_iff_not] at hone
    unfold Utf16.IsScalar
    omega

theorem times_eq (node : Entry) :
    (if node.kind = streamKind then List.replicate 16 0 else padded 8 node.created ++ padded 8 node.modified) =
      timeOf node (padded 8 node.created) ++ timeOf node (padded 8 node.modified) := by
  unfold timeOf
  split <;> rfl

theorem length_timeOf (node : Entry) (time : Bytes) : (timeOf node (padded 8 time)).length = 8 := by
  unfold timeOf
  split
  · rfl
  · exact length_padded 8 time

theorem record_recorded (h : Cfb.record links s l node = .ok record) : Recorded links s l node record := by
  obtain ⟨encoded, hencoded, h⟩ := bind_ok h
  split at h
  · cases h
  rename_i hshort
  obtain ⟨⟨start, size⟩, hextent⟩ : ∃ e, extent s l node = e := ⟨_, rfl⟩
  rw [hextent] at h
  obtain ⟨nameSize, hnameSize, h⟩ := bind_ok h
  obtain ⟨kinds, hkinds, h⟩ := bind_ok h
  obtain ⟨pointers, hpointers, h⟩ := bind_ok h
  obtain ⟨state, hstate, h⟩ := bind_ok h
  obtain ⟨first, hfirst, h⟩ := bind_ok h
  obtain ⟨sizeBytes, hsize, h⟩ := bind_ok h
  obtain ⟨hnameLow, hnameSize⟩ := pack_ok hnameSize
  obtain ⟨-, hkinds⟩ := pack_ok hkinds
  obtain ⟨hpointersLow, hpointers⟩ := pack_ok hpointers
  obtain ⟨hstateLow, hstate⟩ := pack_ok hstate
  obtain ⟨hfirstLow, hfirst⟩ := pack_ok hfirst
  obtain ⟨-, hsize⟩ := pack_ok hsize
  obtain ⟨name, hname⟩ : ∃ name, name = padded 64 encoded := ⟨_, rfl⟩
  obtain ⟨clsid, hclsid⟩ : ∃ clsid, clsid = padded 16 node.clsid := ⟨_, rfl⟩
  obtain ⟨created, hcreated⟩ : ∃ created, created = timeOf node (padded 8 node.created) := ⟨_, rfl⟩
  obtain ⟨modified, hmodified⟩ : ∃ modified, modified = timeOf node (padded 8 node.modified) := ⟨_, rfl⟩
  have hraw : record = name ++ (nameSize ++ (kinds ++ (pointers ++ (clsid ++ (state ++ (created ++ (modified ++ (first ++ sizeBytes)))))))) := by
    rw [← Except.ok.inj h, times_eq, hname, hclsid, hcreated, hmodified]
    simp only [List.append_assoc]
  have hn : name.length = 64 := by rw [hname, length_padded]
  have ha : nameSize.length = 2 := by rw [← hnameSize, length_flatMap_leBytes]; rfl
  have hk : kinds.length = 2 := by rw [← hkinds, length_flatMap_leBytes]; rfl
  have hp : pointers.length = 12 := by rw [← hpointers, length_flatMap_leBytes]; rfl
  have hc : clsid.length = 16 := by rw [hclsid, length_padded]
  have hs : state.length = 4 := by rw [← hstate, length_flatMap_leBytes]; rfl
  have hcr : created.length = 8 := by rw [hcreated, length_timeOf]
  have hmo : modified.length = 8 := by rw [hmodified, length_timeOf]
  have hf : first.length = 4 := by rw [← hfirst, length_flatMap_leBytes]; rfl
  have hz : sizeBytes.length = 8 := by rw [← hsize, length_flatMap_leBytes]; rfl
  have hpointer {i v : Nat} (hi : [(links node.sid).left, (links node.sid).right, (links node.sid).child][i]? = some v) :
      u32 record (0x44 + 4 * i) = .ok v :=
    unpackFrom_field (name ++ (nameSize ++ kinds)) (clsid ++ (state ++ (created ++ (modified ++ (first ++ sizeBytes)))))
      hpointersLow (by rw [hraw, hpointers]; simp only [List.append_assoc]) (by simp only [List.length_append, hn, ha, hk]) hi
  have hsizes : sizeBytes = [size % 256 ^ 4, size / 256 ^ 4 % 256 ^ 4].flatMap (Struct.leBytes 4) := by
    have htwo := Struct.leBytes_add 4 4 size
    rw [← Struct.leBytes_mod 4, ← Struct.leBytes_mod 4 (size / _)] at htwo
    rw [← hsize, List.flatMap_singleton, htwo]
    simp
  have hsizesLow : ∀ v ∈ [size % 256 ^ 4, size / 256 ^ 4 % 256 ^ 4], v < 256 ^ 4 := by
    simp [Nat.mod_lt]
  have hword {i v : Nat} (hi : [size % 256 ^ 4, size / 256 ^ 4 % 256 ^ 4][i]? = some v) :
      u32 record (0x78 + 4 * i) = .ok v :=
    unpackFrom_field (name ++ (nameSize ++ (kinds ++ (pointers ++ (clsid ++ (state ++ (created ++ (modified ++ first))))))))
      [] hsizesLow (by rw [hraw, hsizes]; simp only [List.append_assoc, List.append_nil])
      (by simp only [List.length_append, hn, ha, hk, hp, hc, hs, hcr, hmo, hf]) hi
  refine ⟨?_, ⟨encoded.length + 2, ?_, ?_⟩, ?_, hpointer (i := 0) rfl, hpointer (i := 1) rfl, hpointer (i := 2) rfl, ?_, ?_, ?_, ?_, ?_,
    fun f hmajor => ?_⟩
  · rw [hraw]
    simp only [List.length_append, hn, ha, hk, hp, hc, hs, hcr, hmo, hf, hz]
  · exact unpackFrom_field (i := 0) name (kinds ++ (pointers ++ (clsid ++ (state ++ (created ++ (modified ++ (first ++ sizeBytes)))))))
      hnameLow (by rw [hraw, hnameSize]) (by rw [hn]) rfl
  · obtain ⟨rfl, hplain⟩ := encodeName_ok hencoded
    have hwhole : (Utf16.encoded node.name).take 64 = Utf16.encoded node.name := List.take_of_length_le (by omega)
    have hkept : record.take (Utf16.encoded node.name).length = Utf16.encoded node.name := by
      rw [hraw, hname, padded, hwhole, List.append_assoc, List.take_left]
    rw [nameOf, show min 64 ((Utf16.encoded node.name).length + 2) - 2 = (Utf16.encoded node.name).length by omega, hkept,
      Utf16.decodeReplaced_encoded hplain]
  · have hat : record[0x42]? = some (UInt8.ofNat (node.kind.toNat % 256)) := by
      rw [hraw, List.getElem?_append_right (by omega), List.getElem?_append_right (by omega), hn, ha, ← hkinds]
      rfl
    have hbyte : node.kind.toNat % 256 = node.kind.toNat := Nat.mod_eq_of_lt node.kind.toNat_lt
    rw [item, hat, hbyte, UInt8.ofNat_toNat]
  · rw [← hclsid]
    exact slice_at (name ++ (nameSize ++ (kinds ++ pointers))) (state ++ (created ++ (modified ++ (first ++ sizeBytes))))
      (by rw [hraw]; simp only [List.append_assoc]) (by simp only [List.length_append, hn, ha, hk, hp])
      (by simp only [List.length_append, hn, ha, hk, hp, hc])
  · exact unpackFrom_field (i := 0) (name ++ (nameSize ++ (kinds ++ (pointers ++ clsid)))) (created ++ (modified ++ (first ++ sizeBytes)))
      hstateLow (by rw [hraw, hstate]; simp only [List.append_assoc]) (by simp only [List.length_append, hn, ha, hk, hp, hc]) rfl
  · rw [← hcreated]
    exact slice_at (name ++ (nameSize ++ (kinds ++ (pointers ++ (clsid ++ state))))) (modified ++ (first ++ sizeBytes))
      (by rw [hraw]; simp only [List.append_assoc]) (by simp only [List.length_append, hn, ha, hk, hp, hc, hs])
      (by simp only [List.length_append, hn, ha, hk, hp, hc, hs, hcr])
  · rw [← hmodified]
    exact slice_at (name ++ (nameSize ++ (kinds ++ (pointers ++ (clsid ++ (state ++ created)))))) (first ++ sizeBytes)
      (by rw [hraw]; simp only [List.append_assoc]) (by simp only [List.length_append, hn, ha, hk, hp, hc, hs, hcr])
      (by simp only [List.length_append, hn, ha, hk, hp, hc, hs, hcr, hmo])
  · rw [hextent]
    exact unpackFrom_field (i := 0) (name ++ (nameSize ++ (kinds ++ (pointers ++ (clsid ++ (state ++ (created ++ modified))))))) sizeBytes
      hfirstLow (by rw [hraw, hfirst]; simp only [List.append_assoc])
      (by simp only [List.length_append, hn, ha, hk, hp, hc, hs, hcr, hmo]) rfl
  · have hlow := hword (i := 0) rfl
    have hhigh := hword (i := 1) rfl
    rw [sizeOf, hlow, ok_bind, hhigh, ok_bind, if_pos hmajor, hextent]
    rfl

end Records
end XgenSdk.Cfb
