import XgenSdk.ControlPolicy.CfbBalance
import XgenSdk.ControlPolicy.CfbStreams

/-! What the reader has of a written document before it reads the entries, and what it
finds in their streams. -/
namespace XgenSdk.Cfb
open XgenSdk.Py XgenSdk.Checks XgenSdk.Trees
open XgenSdk.Splice (slice)

/-! The parts of a written document. -/

theorem le_sectorsFor (size : Nat) : size ≤ 512 * sectorsFor size := (ceilDiv_le_iff_le_mul (by decide)).mp le_rfl

theorem length_bigBytes (node : Entry) : (bigBytes node).length = 512 * sectorsFor node.data.length := by
  have hle := le_sectorsFor node.data.length
  rw [bigBytes, List.length_append, List.length_replicate, sectorSize]
  omega

theorem length_flatMap_bigBytes (nodes : List Entry) :
    (nodes.flatMap bigBytes).length = 512 * (nodes.map fun node => sectorsFor node.data.length).sum := by
  induction nodes with
  | nil => rfl
  | cons node nodes ih =>
    rw [List.flatMap_cons, List.length_append, length_bigBytes, ih, List.map_cons, List.sum_cons]
    omega

/-- The layout with so many FAT and DIFAT sectors. -/
abbrev laid (nodes : List Entry) (fatCount difatCount : Nat) : Layout :=
  laidOut (countsOf nodes (streamsOf nodes)) (streamsOf nodes) fatCount difatCount

/-- The mini stream up to the end of its last sector. -/
def miniRegion (nodes : List Entry) : Bytes :=
  (streamsOf nodes).mini ++
    List.replicate ((countsOf nodes (streamsOf nodes)).mini * sectorSize - (streamsOf nodes).mini.length) 0

/-- The table of the mini stream up to the end of its last sector. -/
def minifatRegion (nodes : List Entry) : List Nat :=
  (streamsOf nodes).minifat ++
    List.replicate ((countsOf nodes (streamsOf nodes)).minifat * (sectorSize / 4) - (streamsOf nodes).minifat.length) freeSect

/-- What `write` has put together. -/
structure Written (nodes : List Entry) (links : Links) (fatCount difatCount : Nat) (raw : Bytes) : Prop where
  table : (countsOf nodes (streamsOf nodes)).data + fatCount + difatCount ≤ 128 * fatCount
  slots : fatCount ≤ 109 + 127 * difatCount
  parts : ∃ head directory fat difat, header (laid nodes fatCount difatCount) = .ok head ∧
    (∀ v ∈ (streamsOf nodes).minifat, v < 256 ^ 4) ∧
    directoryBytes links (streamsOf nodes) (laid nodes fatCount difatCount) nodes = .ok directory ∧
    pack 4 (laid nodes fatCount difatCount).fat = .ok fat ∧ difatBytes (laid nodes fatCount difatCount) = .ok difat ∧
    raw = head ++ ((streamsOf nodes).big.flatMap bigBytes ++ (miniRegion nodes ++
      ((minifatRegion nodes).flatMap (Struct.leBytes 4) ++ (directory ++ (fat ++ difat)))))

/-- The sectors of the document have regular numbers. -/
def InRange (nodes : List Entry) : Prop :=
  ∀ l, layout nodes (streamsOf nodes) = .ok l → l.counts.data + l.fatCount + l.difatCount ≤ maxRegSect + 1

section Parts
variable {nodes : List Entry} {links : Links} {fatCount difatCount : Nat} {raw : Bytes}

theorem layout_laid (nodes : List Entry) : ∃ fatCount difatCount, layout nodes (streamsOf nodes) = .ok (laid nodes fatCount difatCount) ∧
    (countsOf nodes (streamsOf nodes)).data + fatCount + difatCount ≤ 128 * fatCount ∧ fatCount ≤ 109 + 127 * difatCount := by
  obtain ⟨fatCount, difatCount, hends, hfixed, -⟩ := sizing_ends (countsOf nodes (streamsOf nodes)).data
  obtain ⟨htable, hslots⟩ := needed_fixed hfixed
  exact ⟨fatCount, difatCount, layout_eq rfl (hends _ le_rfl) htable, htable, hslots⟩

theorem write_written {upper : Str → Str} {root : Entry} (h : write upper root = .ok raw) : ∃ links fatCount difatCount,
    linksOf upper (root.numbered 0).nodes = .ok links ∧
    layout (root.numbered 0).nodes (streamsOf (root.numbered 0).nodes) = .ok (laid (root.numbered 0).nodes fatCount difatCount) ∧
    Written (root.numbered 0).nodes links fatCount difatCount raw := by
  obtain ⟨links, hlinks, h⟩ := bind_ok h
  obtain ⟨l, hl, h⟩ := bind_ok h
  obtain ⟨head, hhead, h⟩ := bind_ok h
  obtain ⟨minifat, hminifat, h⟩ := bind_ok h
  obtain ⟨directory, hdirectory, h⟩ := bind_ok h
  obtain ⟨fat, hfat, h⟩ := bind_ok h
  obtain ⟨difat, hdifat, h⟩ := bind_ok h
  obtain ⟨fatCount, difatCount, hlaid, htable, hslots⟩ := layout_laid (root.numbered 0).nodes
  obtain rfl := Except.ok.inj (hl.symm.trans hlaid)
  obtain ⟨hlow, rfl⟩ := pack_ok hminifat
  refine ⟨links, fatCount, difatCount, hlinks, hlaid, htable, hslots, head, directory, fat, difat, hhead, hlow, hdirectory, hfat, hdifat, ?_⟩
  rw [← Except.ok.inj h, miniRegion, minifatRegion, List.flatMap_append]
  simp only [List.append_assoc]
  rfl

theorem counts_laid (nodes : List Entry) (fatCount difatCount : Nat) :
    (laid nodes fatCount difatCount).counts = countsOf nodes (streamsOf nodes) := rfl

/-- Where the parts are in the file. -/
structure Regions (nodes : List Entry) (links : Links) (fatCount difatCount : Nat) (raw bytes : Bytes) : Prop where
  headed : Headed (laid nodes fatCount difatCount) raw
  big : Lies ⟨raw, 512, 3⟩ 0 ((streamsOf nodes).big.flatMap bigBytes)
  mini : Lies ⟨raw, 512, 3⟩ (countsOf nodes (streamsOf nodes)).bigs.sum (miniRegion nodes)
  minifat : Lies ⟨raw, 512, 3⟩ ((countsOf nodes (streamsOf nodes)).bigs.sum + (countsOf nodes (streamsOf nodes)).mini)
    ((minifatRegion nodes).flatMap (Struct.leBytes 4))
  minifatLow : ∀ v ∈ minifatRegion nodes, v < 256 ^ 4
  directory : Lies ⟨raw, 512, 3⟩ ((countsOf nodes (streamsOf nodes)).bigs.sum + (countsOf nodes (streamsOf nodes)).mini +
    (countsOf nodes (streamsOf nodes)).minifat) bytes
  records : directoryBytes links (streamsOf nodes) (laid nodes fatCount difatCount) nodes = .ok bytes
  fat : readFat ⟨raw, 512, 3⟩ = .ok (laid nodes fatCount difatCount).fat

theorem length_miniRegion (nodes : List Entry) : (miniRegion nodes).length = 512 * (countsOf nodes (streamsOf nodes)).mini := by
  have hle : (streamsOf nodes).mini.length ≤ 512 * (countsOf nodes (streamsOf nodes)).mini := le_sectorsFor _
  rw [miniRegion, List.length_append, List.length_replicate, sectorSize]
  omega

theorem length_minifatRegion (nodes : List Entry) :
    (minifatRegion nodes).length = 128 * (countsOf nodes (streamsOf nodes)).minifat := by
  have hle : (streamsOf nodes).minifat.length * 4 ≤ 512 * (countsOf nodes (streamsOf nodes)).minifat := le_sectorsFor _
  rw [minifatRegion, List.length_append, List.length_replicate, show sectorSize / 4 = 128 from rfl]
  omega

theorem mapM_length {α β : Type} {f : α → Writing β} {xs : List α} {ys : List β} (h : xs.mapM f = .ok ys) : ys.length = xs.length :=
  (mapM_eq_ok h).length_eq.symm

/-- The directory is records up to the end of its last sector. -/
theorem directory_records {directory : Bytes}
    (h : directoryBytes links (streamsOf nodes) (laid nodes fatCount difatCount) nodes = .ok directory) :
    ∃ records empty, List.Forall₂ (Recorded links (streamsOf nodes) (laid nodes fatCount difatCount)) nodes records ∧
      directory = (records ++ List.replicate empty emptyRecord).flatten ∧
      128 * (records.length + empty) = 512 * (countsOf nodes (streamsOf nodes)).dir ∧
      ∀ record ∈ records ++ List.replicate empty emptyRecord, record.length = 128 := by
  obtain ⟨records, hrecords, h⟩ := bind_ok h
  have heach := (mapM_eq_ok hrecords).imp fun node record hrecord => record_recorded hrecord
  have hlong : ∀ record ∈ records, record.length = 128 := fun record hrecord =>
    (forall₂_right heach record hrecord).elim fun node hnode => hnode.2.length
  have hempty : emptyRecord.length = 128 := rfl
  have hflat := length_flatten_pieces hlong
  have hcount : nodes.length * 128 ≤ 512 * (countsOf nodes (streamsOf nodes)).dir := le_sectorsFor _
  have hnumber := mapM_length hrecords
  set empty := ((laid nodes fatCount difatCount).counts.dir * sectorSize - records.flatten.length) ⌈/⌉ emptyRecord.length with hdef
  have hexact : empty = 4 * (countsOf nodes (streamsOf nodes)).dir - records.length := by
    have hdirCount : (laid nodes fatCount difatCount).counts.dir = (countsOf nodes (streamsOf nodes)).dir := rfl
    have hsize : sectorSize = 512 := rfl
    have hwhole : (countsOf nodes (streamsOf nodes)).dir * 512 - 128 * nodes.length =
        128 • (4 * (countsOf nodes (streamsOf nodes)).dir - nodes.length) := by
      rw [smul_eq_mul]
      omega
    rw [hdef, hflat, hempty, hdirCount, hsize, hnumber, hwhole]
    exact smul_ceilDiv (by decide) _
  refine ⟨records, empty, heach, ?_, ?_, ?_⟩
  · rw [← Except.ok.inj h, List.flatten_append]
  · omega
  · intro record hrecord
    obtain hrecord | hrecord := List.mem_append.mp hrecord
    · exact hlong record hrecord
    · rw [List.eq_of_mem_replicate hrecord, hempty]

theorem Written.regions (h : Written nodes links fatCount difatCount raw)
    (hregular : (countsOf nodes (streamsOf nodes)).data + fatCount + difatCount ≤ maxRegSect + 1) :
    ∃ directory, Regions nodes links fatCount difatCount raw directory := by
  obtain ⟨htable, hslots, head, directory, fat, difat, hhead, hlow, hdirectory, hfat, hdifat, hraw⟩ := h
  have hcovered : Covered (laid nodes fatCount difatCount) := covered_laidOut htable hslots
  have hheader := header_headed hhead hcovered.head ((streamsOf nodes).big.flatMap bigBytes ++ (miniRegion nodes ++
      ((minifatRegion nodes).flatMap (Struct.leBytes 4) ++ (directory ++ (fat ++ difat)))))
  rw [← hraw] at hheader
  obtain ⟨hlength, hheaded⟩ := hheader
  have hall : Lies ⟨raw, 512, 3⟩ 0 ((streamsOf nodes).big.flatMap bigBytes ++ (miniRegion nodes ++
      ((minifatRegion nodes).flatMap (Struct.leBytes 4) ++ (directory ++ (fat ++ difat))))) :=
    ⟨rfl, head, [], hlength, by rw [List.append_nil]; exact hraw⟩
  have hmini := hall.right (length_flatMap_bigBytes _)
  rw [Nat.zero_add] at hmini
  have hminifat := hmini.right (length_miniRegion nodes)
  have hdir := hminifat.right (n := (countsOf nodes (streamsOf nodes)).minifat)
    (by rw [length_flatMap_leBytes, length_minifatRegion]; omega)
  have hdirLength : directory.length = 512 * (countsOf nodes (streamsOf nodes)).dir := by
    obtain ⟨records, empty, -, rfl, hcount, hlong⟩ := directory_records hdirectory
    rw [length_flatten_pieces hlong, List.length_append, List.length_replicate, hcount]
  have htables := hdir.right hdirLength
  refine ⟨directory, hheaded, hall.left, hmini.left, hminifat.left, ?_, hdir.left, hdirectory, ?_⟩
  · intro v hv
    obtain hv | hv := List.mem_append.mp hv
    · exact hlow v hv
    · rw [List.eq_of_mem_replicate hv]
      decide
  · exact readFat_eq hheaded hfat hdifat htables htable hslots hregular

/-! What the reader has before it reads the entries. -/

theorem recordsOf_flatten {records : List Bytes} (h : ∀ record ∈ records, record.length = 128) : recordsOf records.flatten = records := by
  have hcount : records.flatten.length / 128 = records.length := by
    rw [length_flatten_pieces h]
    omega
  rw [recordsOf, hcount]
  refine List.ext_getElem ?_ fun i hi hi' => ?_
  · rw [List.length_map, List.length_range]
  · rw [List.getElem_map, List.getElem_range]
    have hbefore : (records.take i).flatten.length = 128 * i := by
      rw [length_flatten_pieces fun record hrecord => h record (List.mem_of_mem_take hrecord), List.length_take]
      congr 1
      omega
    have hsplit : records.flatten = (records.take i).flatten ++ (records[i] ++ (records.drop (i + 1)).flatten) := by
      conv_lhs => rw [← List.take_append_drop i records, List.drop_eq_getElem_cons hi', List.flatten_append, List.flatten_cons]
    exact slice_at _ _ hsplit hbefore.symm (by rw [hbefore, h _ (List.getElem_mem hi')])

/-- What the entries are read from. -/
structure Opened (nodes : List Entry) (links : Links) (fatCount difatCount : Nat) (d : Directory) : Prop where
  records : ∃ records empty, List.Forall₂ (Recorded links (streamsOf nodes) (laid nodes fatCount difatCount)) nodes records ∧
    d.records = records ++ List.replicate empty emptyRecord
  major : d.file.major = 3
  big : Lies d.file 0 ((streamsOf nodes).big.flatMap bigBytes)
  fat : d.fat = (laid nodes fatCount difatCount).fat
  cutoff : d.miniCutoff = miniCutoffSize
  mini : d.miniStream = (streamsOf nodes).mini.take ((streamsOf nodes).mini.length % 2 ^ 32)
  minifat : ∃ rest, d.minifat = (streamsOf nodes).minifat ++ rest

theorem regular_laid {f : File} (before after : List Nat) {count first : Nat} {bytes : Bytes}
    (hregular : (countsOf nodes (streamsOf nodes)).data + fatCount + difatCount ≤ maxRegSect + 1)
    (hruns : (countsOf nodes (streamsOf nodes)).bigs ++ [(countsOf nodes (streamsOf nodes)).mini,
      (countsOf nodes (streamsOf nodes)).minifat, (countsOf nodes (streamsOf nodes)).dir] = before ++ count :: after)
    (hfirst : before.sum = first) (hlies : Lies f first bytes) (hbytes : bytes.length = 512 * count) :
    regular f (laid nodes fatCount difatCount).fat (startAt first count) = .ok bytes := by
  subst hfirst
  exact hlies.regular hbytes (chain_laidOut before after hruns hregular)

section Reading
variable {bytes : Bytes}

theorem Regions.read_directory (h : Regions nodes links fatCount difatCount raw bytes)
    (hregular : (countsOf nodes (streamsOf nodes)).data + fatCount + difatCount ≤ maxRegSect + 1)
    (hbytes : bytes.length = 512 * (countsOf nodes (streamsOf nodes)).dir) :
    regular ⟨raw, 512, 3⟩ (laid nodes fatCount difatCount).fat (laid nodes fatCount difatCount).dirStart = .ok bytes := by
  refine regular_laid ((countsOf nodes (streamsOf nodes)).bigs ++ [(countsOf nodes (streamsOf nodes)).mini,
    (countsOf nodes (streamsOf nodes)).minifat]) [] hregular (by rw [List.append_assoc]; rfl) ?_ h.directory hbytes
  rw [List.sum_append, List.sum_cons, List.sum_singleton, Nat.add_assoc]

theorem Regions.read_minifat (h : Regions nodes links fatCount difatCount raw bytes)
    (hregular : (countsOf nodes (streamsOf nodes)).data + fatCount + difatCount ≤ maxRegSect + 1) :
    ∃ minifat, readMinifat ⟨raw, 512, 3⟩ (laid nodes fatCount difatCount).fat = .ok minifat ∧
      ∃ rest, minifat = (streamsOf nodes).minifat ++ rest := by
  have hcount : u32 raw 0x40 = .ok (countsOf nodes (streamsOf nodes)).minifat := h.headed.minifat
  have hstart := h.headed.minifatStart
  rw [readMinifat, hcount, ok_bind]
  by_cases hnone : (countsOf nodes (streamsOf nodes)).minifat = 0
  · have hle : (streamsOf nodes).minifat.length * 4 ≤ 512 * (countsOf nodes (streamsOf nodes)).minifat := le_sectorsFor _
    have hempty : (streamsOf nodes).minifat = [] := List.length_eq_zero_iff.mp (by omega)
    exact ⟨[], by rw [if_pos hnone]; rfl, [], by rw [hempty]; rfl⟩
  · have hbytes : ((minifatRegion nodes).flatMap (Struct.leBytes 4)).length = 512 * (countsOf nodes (streamsOf nodes)).minifat := by
      rw [length_flatMap_leBytes, length_minifatRegion]
      omega
    have hread := regular_laid ((countsOf nodes (streamsOf nodes)).bigs ++ [(countsOf nodes (streamsOf nodes)).mini])
      [(countsOf nodes (streamsOf nodes)).dir] hregular (by rw [List.append_assoc]; rfl)
      (by rw [List.sum_append, List.sum_singleton]) h.minifat hbytes
    have hnumber : ((minifatRegion nodes).flatMap (Struct.leBytes 4)).length / 4 = (minifatRegion nodes).length := by
      rw [length_flatMap_leBytes]
      omega
    rw [counts_laid, if_pos hnone] at hstart
    refine ⟨minifatRegion nodes, ?_, _, rfl⟩
    rw [if_neg hnone, hstart, ok_bind]
    refine (congrArg (· >>= _) hread).trans ?_
    rw [ok_bind, hnumber, unpackAll_flatMap h.minifatLow]

theorem Regions.read_mini (h : Regions nodes links fatCount difatCount raw bytes)
    (hregular : (countsOf nodes (streamsOf nodes)).data + fatCount + difatCount ≤ maxRegSect + 1)
    {first : Entry} {rootRecord : Bytes} (hfirst : first.kind = rootKind)
    (hrecorded : Recorded links (streamsOf nodes) (laid nodes fatCount difatCount) first rootRecord) :
    readMiniStream ⟨raw, 512, 3⟩ (laid nodes fatCount difatCount).fat rootRecord =
      .ok ((streamsOf nodes).mini.take ((streamsOf nodes).mini.length % 2 ^ 32)) := by
  have hextent : extent (streamsOf nodes) (laid nodes fatCount difatCount) first =
      (startAt (countsOf nodes (streamsOf nodes)).bigs.sum (countsOf nodes (streamsOf nodes)).mini, (streamsOf nodes).mini.length) := by
    rw [extent, hfirst, if_neg (by decide), if_pos rfl, counts_laid]
    by_cases hnone : (countsOf nodes (streamsOf nodes)).mini = 0
    · rw [if_neg (not_not.mpr hnone), startAt, if_pos hnone]
    · rw [if_pos hnone]
      rfl
  have hsize := hrecorded.size ⟨raw, 512, 3⟩ rfl
  have hstart := hrecorded.start
  rw [hextent] at hsize hstart
  rw [readMiniStream, hsize, ok_bind]
  by_cases hnone : (streamsOf nodes).mini.length % 2 ^ 32 = 0
  · rw [if_pos hnone, hnone, List.take_zero]
    rfl
  · have hread := regular_laid (countsOf nodes (streamsOf nodes)).bigs [(countsOf nodes (streamsOf nodes)).minifat,
      (countsOf nodes (streamsOf nodes)).dir] hregular rfl rfl h.mini (length_miniRegion nodes)
    have htake : (miniRegion nodes).take ((streamsOf nodes).mini.length % 2 ^ 32) =
        (streamsOf nodes).mini.take ((streamsOf nodes).mini.length % 2 ^ 32) :=
      List.take_append_of_le_length (Nat.mod_le _ _)
    rw [if_neg hnone, hstart, ok_bind, hread, ok_bind, htake]
    rfl

end Reading

theorem Written.opened {first : Entry} {rest : List Entry} (h : Written nodes links fatCount difatCount raw)
    (hregular : (countsOf nodes (streamsOf nodes)).data + fatCount + difatCount ≤ maxRegSect + 1)
    (hnodes : nodes = first :: rest) (hfirst : first.kind = rootKind) :
    ∃ d, readDirectory raw = .ok d ∧ Opened nodes links fatCount difatCount d := by
  obtain ⟨bytes, hregions⟩ := h.regions hregular
  obtain ⟨records, empty, heach, rfl, hcount, hlong⟩ := directory_records hregions.records
  have hroot : ∃ rootRecord others, records = rootRecord :: others ∧ Recorded links (streamsOf nodes) (laid nodes fatCount difatCount) first rootRecord := by
    rw [hnodes] at heach
    obtain ⟨rootRecord, others, hrecorded, -, rfl⟩ := List.forall₂_cons_left_iff.mp heach
    exact ⟨rootRecord, others, rfl, hnodes ▸ hrecorded⟩
  obtain ⟨rootRecord, others, rfl, hrecorded⟩ := hroot
  obtain ⟨minifat, hminifat, hrest⟩ := hregions.read_minifat hregular
  refine ⟨⟨⟨raw, 512, 3⟩, (laid nodes fatCount difatCount).fat, rootRecord :: others ++ List.replicate empty emptyRecord, miniCutoffSize,
    (streamsOf nodes).mini.take ((streamsOf nodes).mini.length % 2 ^ 32), minifat⟩, ?_, ⟨_, _, heach, rfl⟩, rfl, hregions.big, rfl, rfl, rfl, hrest⟩
  have hbytes : (rootRecord :: others ++ List.replicate empty emptyRecord).flatten.length = 512 * (countsOf nodes (streamsOf nodes)).dir := by
    rw [length_flatten_pieces hlong, List.length_append, List.length_replicate, hcount]
  rw [readDirectory, hregions.headed.readable, ok_bind, hregions.fat, ok_bind, hregions.headed.dirStart, ok_bind,
    hregions.read_directory hregular hbytes, ok_bind, recordsOf_flatten hlong, if_neg (by simp), hregions.headed.cutoff, ok_bind]
  have hitem : item (rootRecord :: others ++ List.replicate empty emptyRecord) 0 = .ok rootRecord := rfl
  rw [hitem, ok_bind, hregions.read_mini hregular hfirst hrecorded, ok_bind, hminifat, ok_bind]
  rfl

/-! The data of the streams. -/

theorem zip_bigs (nodes : List Entry) : (streamsOf nodes).big.zip (countsOf nodes (streamsOf nodes)).bigs =
    (streamsOf nodes).big.map fun node => (node, sectorsFor node.data.length) := by
  have hzip := List.zip_map' (f := id) (g := fun node : Entry => sectorsFor node.data.length) (l := (streamsOf nodes).big)
  rwa [List.map_id] at hzip

section Data
variable {node : Entry}

theorem start_short (hnodup : (nodes.map Entry.sid).Nodup) (hnode : node ∈ nodes) (hlong : ¬ isLong node = true) :
    (laid nodes fatCount difatCount).start node.sid = (streamsOf nodes).start node.sid := by
  change bigStarts 0 _ _ _ = _
  rw [zip_bigs]
  refine bigStarts_other (fun hin => ?_) 0 _
  rw [List.map_map, (placed_streamsOf hnodup).big] at hin
  obtain ⟨other, hother, hsid⟩ := List.mem_map.mp hin
  obtain rfl := List.inj_on_of_nodup_map hnodup (List.mem_of_mem_filter hother) hnode hsid
  exact hlong (List.of_mem_filter hother)

theorem start_long {before after : List Entry} (hnodup : (nodes.map Entry.sid).Nodup)
    (hsplit : nodes.filter isLong = before ++ node :: after) : (laid nodes fatCount difatCount).start node.sid =
      startAt (before.map fun node => sectorsFor node.data.length).sum (sectorsFor node.data.length) := by
  change bigStarts 0 _ _ _ = _
  have hlater : node.sid ∉ after.map Entry.sid := by
    have hsub := (hnodup.sublist ((List.filter_sublist (p := isLong) (l := nodes)).map Entry.sid))
    rw [hsplit, List.map_append, List.map_cons] at hsub
    exact (List.nodup_cons.mp (List.nodup_append.mp hsub).2.1).1
  rw [zip_bigs, (placed_streamsOf hnodup).big, hsplit, List.map_append, List.map_cons]
  have hother : (node, sectorsFor node.data.length).1.sid ∉
      (after.map fun node => (node, sectorsFor node.data.length)).map fun big => big.1.sid := by rwa [List.map_map]
  have hstart := bigStarts_split hother (before.map fun node => (node, sectorsFor node.data.length)) 0 (streamsOf nodes).start
  rw [List.map_map, Nat.zero_add] at hstart
  exact hstart

section Streams
variable {d : Directory} {record : Bytes} (h : Opened nodes links fatCount difatCount d) (hnodup : (nodes.map Entry.sid).Nodup)
include h hnodup

theorem Opened.chainData_long (hregular : (countsOf nodes (streamsOf nodes)).data + fatCount + difatCount ≤ maxRegSect + 1)
    (hnode : node ∈ nodes) (hlong : isLong node = true) :
    chainData d node.data.length ((laid nodes fatCount difatCount).start node.sid) = .ok (bigBytes node) := by
  obtain ⟨before, after, hsplit⟩ := List.append_of_mem (List.mem_filter.mpr ⟨hnode, hlong⟩)
  have hbig : (streamsOf nodes).big = before ++ node :: after := (placed_streamsOf hnodup).big.trans hsplit
  have hlies := h.big
  rw [hbig, List.flatMap_append, List.flatMap_cons] at hlies
  have hown := (hlies.right (length_flatMap_bigBytes before)).left
  rw [Nat.zero_add] at hown
  have hlarge : ¬ node.data.length < d.miniCutoff := by
    simp only [isLong, Bool.and_eq_true, decide_eq_true_eq] at hlong
    rw [h.cutoff]
    omega
  rw [chainData, if_neg hlarge, start_long hnodup hsplit, h.fat]
  refine regular_laid (before.map fun node => sectorsFor node.data.length) ((after.map fun node => sectorsFor node.data.length) ++
    [(countsOf nodes (streamsOf nodes)).mini, (countsOf nodes (streamsOf nodes)).minifat, (countsOf nodes (streamsOf nodes)).dir])
    hregular ?_ rfl hown (length_bigBytes node)
  change (streamsOf nodes).big.map _ ++ _ = _
  rw [hbig, List.map_append, List.map_cons, List.append_assoc]
  rfl

theorem Opened.chainData_short {before after : List Entry} (hsplit : nodes.filter isShort = before ++ node :: after)
    (hroom : (before.map miniSectors).sum + miniSectors node ≤ maxRegSect + 1) :
    chainData d node.data.length ((laid nodes fatCount difatCount).start node.sid) = .ok (slice d.miniStream
      ((before.map miniSectors).sum * miniSector) (((before.map miniSectors).sum + miniSectors node) * miniSector)) := by
  have hin : node ∈ nodes.filter isShort := hsplit ▸ List.mem_append_right before List.mem_cons_self
  have hlong : ¬ isLong node = true := by
    have hshort := List.of_mem_filter hin
    simp only [isShort, isLong, Bool.and_eq_true, decide_eq_true_eq] at hshort ⊢
    omega
  rw [start_short hnodup (List.mem_of_mem_filter hin) hlong]
  exact (placed_streamsOf hnodup).chainData hsplit h.cutoff h.minifat hroom

/-- A stream is read back, where there is room for its size and for that of the mini stream. -/
theorem Opened.streamData_eq (hregular : (countsOf nodes (streamsOf nodes)).data + fatCount + difatCount ≤ maxRegSect + 1)
    (hnode : node ∈ nodes) (hkind : node.kind = streamKind) (hsize : node.data.length < 2 ^ 32)
    (hmini : (streamsOf nodes).mini.length < 2 ^ 32)
    (hrecorded : Recorded links (streamsOf nodes) (laid nodes fatCount difatCount) node record) :
    streamData d record = .ok node.data := by
  have hextent : extent (streamsOf nodes) (laid nodes fatCount difatCount) node =
      ((laid nodes fatCount difatCount).start node.sid, node.data.length) := if_pos hkind
  have hread := hrecorded.size d.file h.major
  have hstart := hrecorded.start
  rw [hextent] at hread hstart
  dsimp only at hread hstart
  rw [Nat.mod_eq_of_lt hsize] at hread
  have hback {bytes : Bytes} (hbytes : chainData d node.data.length ((laid nodes fatCount difatCount).start node.sid) = .ok bytes)
      (hfront : ∃ rest, bytes = node.data ++ rest) (hsome : node.data.length ≠ 0) : streamData d record = .ok node.data := by
    obtain ⟨rest, rfl⟩ := hfront
    rw [streamData, hread, ok_bind, hstart, ok_bind, if_neg hsome, hbytes, ok_bind,
      if_neg (by rw [List.length_append]; omega), List.take_left]
    rfl
  by_cases hnone : node.data.length = 0
  · rw [streamData, hread, ok_bind, hstart, ok_bind, if_pos hnone, List.length_eq_zero_iff.mp hnone]
    rfl
  · by_cases hlarge : miniCutoffSize ≤ node.data.length
    · exact hback (h.chainData_long hnodup hregular hnode (by simp [isLong, hkind, hlarge])) ⟨_, rfl⟩ hnone
    · have hshort : isShort node = true := by
        simp [isShort, hkind, Nat.pos_of_ne_zero hnone, Nat.lt_of_not_le hlarge]
      obtain ⟨before, after, hsplit⟩ := List.append_of_mem (List.mem_filter.mpr ⟨hnode, hshort⟩)
      have hplaced := placed_streamsOf hnodup
      have hwhole : d.miniStream = (streamsOf nodes).mini := by
        rw [h.mini, Nat.mod_eq_of_lt hmini, List.take_length]
      have hroom : (before.map miniSectors).sum + miniSectors node ≤ maxRegSect + 1 := by
        rw [hplaced.mini, length_flatMap_shortBytes, hsplit, List.map_append, List.sum_append, List.map_cons, List.sum_cons] at hmini
        have hlimit : maxRegSect = 0xFFFFFFFA := rfl
        omega
      have hchain := h.chainData_short hnodup hsplit hroom
      rw [hwhole, hplaced.slice_mini hsplit] at hchain
      exact hback hchain ⟨_, rfl⟩ hnone

end Streams

end Data

end Parts
end XgenSdk.Cfb
