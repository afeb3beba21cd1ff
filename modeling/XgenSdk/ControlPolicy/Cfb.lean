import XgenSdk.Lib.Splice
import XgenSdk.Py.Struct
import XgenSdk.Py.Utf16
import XgenSdk.Lib.Outcomes
import Mathlib.Data.List.Perm.Subperm

/-! Reading a compound file: sectors in chains, directory records, and the tree of
storages and streams. -/
namespace XgenSdk.Cfb
open XgenSdk.Py
open XgenSdk.Splice (slice)

abbrev Bytes := List UInt8
abbrev Str := Utf16.Str

def signature : Bytes := [0xd0, 0xcf, 0x11, 0xe0, 0xa1, 0xb1, 0x1a, 0xe1]
def maxRegSect : Nat := 0xFFFFFFFA
def noStream : Nat := 0xFFFFFFFF
def storageKind : UInt8 := 1
def streamKind : UInt8 := 2
def rootKind : UInt8 := 5
def miniSector : Nat := 64
def headerDifat : Nat := 109
def maxDepth : Nat := 64

/-- `CfbError`; what Python raises itself where bytes or elements are missing or calls nest
too deep; and a loop that did not end. -/
inductive Failure where
  | cfbError (message : String)
  | structError
  | indexError
  | recursionError
  | endless
  deriving DecidableEq, Repr

abbrev Reading := Except Failure

/-- A storage or a stream. The record it was read from is noted, never read. -/
inductive Entry where
  | mk (sid : Nat) (name : Str) (kind : UInt8) (data clsid : Bytes) (state : Nat) (created modified : Bytes)
    (children : List Entry)

/-! Bytes and elements that may be missing. -/

def item {α : Type} (xs : List α) (i : Nat) : Reading α :=
  match xs[i]? with
  | some x => .ok x
  | none => .error .indexError

/-- `struct.unpack_from` of one number of `n` bytes. -/
def unpackFrom (n : Nat) (data : Bytes) (at_ : Nat) : Reading Nat :=
  match Struct.unpack n data at_ with
  | some v => .ok v
  | none => .error .structError

/-- `_u32`. -/
def u32 (data : Bytes) (at_ : Nat) : Reading Nat := unpackFrom 4 data at_

/-- The numbers that four bytes each stand for. -/
def words : Bytes → List Nat
  | a :: b :: c :: d :: rest => Struct.leNat [a, b, c, d] :: words rest
  | _ => []

/-- `struct.unpack(f"<{n}I", data)`. -/
def unpackAll (n : Nat) (data : Bytes) : Reading (List Nat) :=
  if data.length = 4 * n then .ok (words data) else .error .structError

/-! Sectors. -/

/-- The bytes with the sector size; the sectors behind the header are numbered from zero. -/
structure File where
  raw : Bytes
  sector : Nat
  major : Nat

/-- Where the file ends before its header sector does there is none, as with Python's negative count. -/
def File.count (f : File) : Nat := (f.raw.length - f.sector) / f.sector

def File.perSector (f : File) : Nat := f.sector / 4

def sectorBytes (f : File) (index : Nat) : Reading Bytes :=
  if f.count ≤ index then .error (.cfbError "섹터 번호가 파일 밖")
  else .ok (slice f.raw ((index + 1) * f.sector) ((index + 1) * f.sector + f.sector))

def sectorWords (f : File) (index : Nat) : Reading (List Nat) := do
  let data ← sectorBytes f index
  unpackAll f.perSector data

/-- The loop over the DIFAT sectors, at most `fuel` rounds. -/
def difatLoop (f : File) : Nat → Nat → List Nat → List Nat → Reading (List Nat)
  | 0, _, _, _ => .error .endless
  | fuel + 1, difat, seen, fatSectors =>
    if maxRegSect < difat then .ok fatSectors
    else if seen.contains difat then .error (.cfbError "DIFAT 고리")
    else do
      let values ← sectorWords f difat
      let next ← item values (values.length - 1)
      difatLoop f fuel next (seen ++ [difat]) (fatSectors ++ values.dropLast.filter (· ≤ maxRegSect))

/-- The sectors that hold the FAT, and then the FAT. -/
def readFat (f : File) : Reading (List Nat) := do
  let head ← unpackAll headerDifat (slice f.raw 0x4C (0x4C + 4 * headerDifat))
  let difat ← u32 f.raw 0x44
  let fatSectors ← difatLoop f (f.count + 1) difat [] (head.filter (· ≤ maxRegSect))
  let parts ← fatSectors.mapM (sectorWords f)
  return parts.flatten

/-- The sectors of a chain, in at most `fuel` rounds; `out` is also what was visited. -/
def chainLoop (table : List Nat) : Nat → Nat → List Nat → Reading (List Nat)
  | 0, _, _ => .error .endless
  | fuel + 1, start, out =>
    if maxRegSect < start then .ok out
    else if out.contains start || table.length ≤ start then .error (.cfbError "섹터 사슬이 깨짐")
    else do
      let next ← item table start
      chainLoop table fuel next (out ++ [start])

def chain (start : Nat) (table : List Nat) : Reading (List Nat) := chainLoop table (table.length + 1) start []

def regular (f : File) (fat : List Nat) (start : Nat) : Reading Bytes := do
  let sectors ← chain start fat
  let parts ← sectors.mapM (sectorBytes f)
  return parts.flatten

/-! Directory records. -/

/-- `[directory[i:i + 128] for i in range(0, len(directory) - 127, 128)]`. -/
def recordsOf (directory : Bytes) : List Bytes :=
  (List.range (directory.length / 128)).map fun i => slice directory (128 * i) (128 * i + 128)

def sizeOf (f : File) (record : Bytes) : Reading Nat := do
  let low ← u32 record 0x78
  let high ← u32 record 0x7C
  return if f.major = 3 then low else high * 2 ^ 32 + low

/-- What the entries are read from. -/
structure Directory where
  file : File
  fat : List Nat
  records : List Bytes
  miniCutoff : Nat
  miniStream : Bytes
  minifat : List Nat

def miniBytes (d : Directory) (s : Nat) : Bytes := slice d.miniStream (s * miniSector) ((s + 1) * miniSector)

/-- The chain of a stream, in the mini stream where it is short. -/
def chainData (d : Directory) (size start : Nat) : Reading Bytes :=
  if size < d.miniCutoff then do
    let sectors ← chain start d.minifat
    return (sectors.map (miniBytes d)).flatten
  else regular d.file d.fat start

def streamData (d : Directory) (record : Bytes) : Reading Bytes := do
  let size ← sizeOf d.file record
  let start ← u32 record 0x74
  if size = 0 then return []
  else do
    let data ← chainData d size start
    if data.length < size then .error (.cfbError "스트림이 잘림") else return data.take size

/-- The siblings in the tree of left and right pointers, from a stack, in at most `fuel` rounds; `out` is also
what was visited. -/
def siblingsLoop (records : List Bytes) : Nat → List Nat → List Nat → Reading (List Nat)
  | 0, _, _ => .error .endless
  | _ + 1, [], out => .ok out
  | fuel + 1, current :: stack, out =>
    if current = noStream then siblingsLoop records fuel stack out
    else if out.contains current || records.length ≤ current then .error (.cfbError "디렉터리 트리가 깨짐")
    else do
      let record ← item records current
      let left ← u32 record 0x44
      let right ← u32 record 0x48
      siblingsLoop records fuel (right :: left :: stack) (out ++ [current])

def siblings (records : List Bytes) (sid depth : Nat) : Reading (List Nat) :=
  if maxDepth < depth then .error (.cfbError "저장소가 너무 깊음")
  else siblingsLoop records (2 * records.length + 2) [sid] []

def holdsChildren (kind : UInt8) : Bool := kind = storageKind || kind = rootKind

/-- The records of the children; a stream has none. -/
def childSids (records : List Bytes) (record : Bytes) (kind : UInt8) (depth : Nat) : Reading (List Nat) :=
  if holdsChildren kind then do
    let first ← u32 record 0x4C
    siblings records first depth
  else .ok []

def dataOf (d : Directory) (record : Bytes) (kind : UInt8) : Reading Bytes :=
  if kind = streamKind then streamData d record else .ok []

def nameOf (record : Bytes) (nameLen : Nat) : Str := Utf16.decodeReplaced (record.take (min 64 nameLen - 2))

/-- `entry_of`; its calls nest at most `levels` deep. -/
def entryOf (d : Directory) : Nat → Nat → Nat → Reading Entry
  | 0, _, _ => .error .recursionError
  | levels + 1, sid, depth => do
    let record ← item d.records sid
    let nameLen ← unpackFrom 2 record 0x40
    let kind ← item record 0x42
    let state ← u32 record 0x60
    let data ← dataOf d record kind
    let sids ← childSids d.records record kind depth
    let children ← sids.mapM fun c => entryOf d levels c (depth + 1)
    return .mk sid (nameOf record nameLen) kind data (slice record 0x50 0x60) state (slice record 0x64 0x6C)
      (slice record 0x6C 0x74) children

/-! The document. -/

/-- The header, with the sector size and the version. -/
def readHeader (raw : Bytes) : Reading File := do
  if raw.length < 512 || raw.take 8 ≠ signature then .error (.cfbError "복합 문서가 아님")
  else do
    let major ← unpackFrom 2 raw 0x1A
    let byteOrder ← unpackFrom 2 raw 0x1C
    let sectorShift ← unpackFrom 2 raw 0x1E
    let miniShift ← unpackFrom 2 raw 0x20
    if byteOrder ≠ 0xFFFE || !([9, 12].contains sectorShift) || miniShift ≠ 6 then
      .error (.cfbError "복합 문서 머리가 이상함")
    else return ⟨raw, 2 ^ sectorShift, major⟩

def readMiniStream (f : File) (fat : List Nat) (rootRecord : Bytes) : Reading Bytes := do
  let size ← sizeOf f rootRecord
  if size = 0 then return []
  else do
    let start ← u32 rootRecord 0x74
    let data ← regular f fat start
    return data.take size

def readMinifat (f : File) (fat : List Nat) : Reading (List Nat) := do
  let sectors ← u32 f.raw 0x40
  if sectors = 0 then return []
  else do
    let start ← u32 f.raw 0x3C
    let data ← regular f fat start
    unpackAll (data.length / 4) data

def readDirectory (raw : Bytes) : Reading Directory := do
  let f ← readHeader raw
  let fat ← readFat f
  let start ← u32 raw 0x30
  let directory ← regular f fat start
  if (recordsOf directory).isEmpty then .error (.cfbError "디렉터리가 없음")
  else do
    let miniCutoff ← u32 raw 0x38
    let rootRecord ← item (recordsOf directory) 0
    let miniStream ← readMiniStream f fat rootRecord
    let minifat ← readMinifat f fat
    return ⟨f, fat, recordsOf directory, miniCutoff, miniStream, minifat⟩

/-- `read`. Its calls of `entry_of` nest no deeper than the limit on storages allows. -/
def read (raw : Bytes) : Reading Entry := do
  let d ← readDirectory raw
  let rootRecord ← item d.records 0
  let kind ← item rootRecord 0x42
  if kind ≠ rootKind then .error (.cfbError "루트 항목이 없음")
  else entryOf d (maxDepth + 2) 0 0

/-! Whatever the bytes are, reading a compound file ends with a tree or with the
refusal the module names. -/

open XgenSdk.Py XgenSdk.Outcomes

/-- The one error that reading may end with. -/
def IsRefusal (e : Failure) : Prop := ∃ message, e = .cfbError message

theorem refuses {α : Type} {P : α → Prop} (message : String) : Ends IsRefusal P (.error (.cfbError message) : Reading α) :=
  ⟨message, rfl⟩

/-! Bytes and elements that are there. -/

theorem item_ends {α : Type} {xs : List α} {i : Nat} (h : i < xs.length) :
    Ends IsRefusal (fun x => x ∈ xs) (item xs i) := by
  rw [item, List.getElem?_eq_getElem h]
  exact List.getElem_mem h

theorem unpackFrom_ends {n at_ : Nat} {data : Bytes} (h : at_ + n ≤ data.length) :
    Ends IsRefusal (fun _ => True) (unpackFrom n data at_) := by
  rw [unpackFrom, Struct.unpack, if_pos h]
  trivial

theorem u32_ends {at_ : Nat} {data : Bytes} (h : at_ + 4 ≤ data.length) : Ends IsRefusal (fun _ => True) (u32 data at_) :=
  unpackFrom_ends h

theorem length_words {n : Nat} {data : Bytes} (h : data.length = 4 * n) : (words data).length = n := by
  induction n generalizing data with
  | zero =>
    obtain rfl : data = [] := List.length_eq_zero_iff.mp (by omega)
    rfl
  | succ n ih =>
    obtain _ | ⟨a, _ | ⟨b, _ | ⟨c, _ | ⟨d, rest⟩⟩⟩⟩ := data <;> simp only [List.length_cons, List.length_nil] at h <;> try omega
    rw [words, List.length_cons, ih (by omega)]

theorem unpackAll_ends {n : Nat} {data : Bytes} (h : data.length = 4 * n) :
    Ends IsRefusal (fun values => values.length = n) (unpackAll n data) := by
  rw [unpackAll, if_pos h]
  exact length_words h

/-! Sectors. -/

/-- The sector sizes that the header may name. -/
structure File.Fits (f : File) : Prop where
  size : f.sector = 512 ∨ f.sector = 4096
  header : 512 ≤ f.raw.length

theorem File.Fits.inside {f : File} (h : f.Fits) {index : Nat} (hindex : index < f.count) :
    (index + 1) * f.sector + f.sector ≤ f.raw.length := by
  have hcount : (index + 1) * f.sector ≤ f.raw.length - f.sector :=
    (Nat.mul_le_mul_right f.sector hindex).trans (Nat.div_mul_le_self _ _)
  have hpos : 0 < (index + 1) * f.sector := Nat.mul_pos (Nat.succ_pos index) (by have := h.size; omega)
  omega

theorem sectorBytes_ends {f : File} (h : f.Fits) (index : Nat) :
    Ends IsRefusal (fun data => index < f.count ∧ data.length = f.sector) (sectorBytes f index) := by
  refine .ite (fun _ => refuses _) fun hcount => ?_
  refine ⟨by omega, ?_⟩
  rw [Splice.length_slice f.raw (h.inside (by omega))]
  omega

theorem sectorWords_ends {f : File} (h : f.Fits) (index : Nat) :
    Ends IsRefusal (fun values => index < f.count ∧ values.length = f.perSector) (sectorWords f index) := by
  refine (sectorBytes_ends h index).bind fun data hdata => ?_
  have hfour : data.length = 4 * f.perSector := by
    rw [hdata.2, File.perSector]
    have := h.size
    omega
  exact (unpackAll_ends hfour).mono fun values hvalues => ⟨hdata.1, hvalues⟩

/-- A list without repetition, all below `n`, has at most `n` elements. -/
theorem length_le_of_below {n : Nat} {xs : List Nat} (hnodup : xs.Nodup) (hbelow : ∀ x ∈ xs, x < n) : xs.length ≤ n := by
  have hsub : xs ⊆ List.range n := fun x hx => List.mem_range.mpr (hbelow x hx)
  have hle := (hnodup.subperm hsub).length_le
  rwa [List.length_range] at hle

theorem nodup_concat {xs : List Nat} {x : Nat} (hnodup : xs.Nodup) (hx : ¬ xs.contains x = true) : (xs ++ [x]).Nodup := by
  rw [List.nodup_append]
  refine ⟨hnodup, List.nodup_singleton x, fun a ha b hb => ?_⟩
  rw [List.mem_singleton.mp hb]
  exact fun heq => hx (List.contains_iff_mem.mpr (heq ▸ ha))

theorem below_concat {n x : Nat} {xs : List Nat} (hbelow : ∀ y ∈ xs, y < n) (hx : x < n) : ∀ y ∈ xs ++ [x], y < n := by
  intro y hy
  obtain hy | hy := List.mem_append.mp hy
  · exact hbelow y hy
  · exact List.mem_singleton.mp hy ▸ hx

/-- Each round has visited a sector more, and there are `count` of them. -/
theorem difatLoop_ends {f : File} (h : f.Fits) {fuel difat : Nat} {seen fatSectors : List Nat} (hnodup : seen.Nodup)
    (hbelow : ∀ s ∈ seen, s < f.count) (hfuel : f.count < fuel + seen.length) :
    Ends IsRefusal (fun _ => True) (difatLoop f fuel difat seen fatSectors) := by
  induction fuel generalizing difat seen fatSectors with
  | zero =>
    have := length_le_of_below hnodup hbelow
    omega
  | succ fuel ih =>
    refine .ite (fun _ => trivial) fun _ => .ite (fun _ => refuses _) fun hseen => ?_
    refine (sectorWords_ends h difat).bind fun values hvalues => ?_
    have hvalue : values.length - 1 < values.length := by
      have := h.size
      have := hvalues.2
      rw [File.perSector] at this
      omega
    refine (item_ends hvalue).bind fun next _ => ?_
    exact ih (nodup_concat hnodup hseen) (below_concat hbelow hvalues.1) (by rw [List.length_append, List.length_singleton]; omega)

theorem readFat_ends {f : File} (h : f.Fits) : Ends IsRefusal (fun _ => True) (readFat f) := by
  have hheader := h.header
  have hhead : (slice f.raw 0x4C (0x4C + 4 * headerDifat)).length = 4 * headerDifat := by
    rw [Splice.length_slice f.raw (by rw [headerDifat]; omega)]
    rfl
  refine (unpackAll_ends hhead).bind fun head _ => (u32_ends (by omega)).bind fun difat _ => ?_
  refine (difatLoop_ends h List.nodup_nil (by simp) (by simp)).bind fun fatSectors _ => ?_
  exact (Ends.mapM fun s _ => sectorWords_ends h s).bind fun parts _ => trivial

/-- Each round has visited an entry of the table more. -/
theorem chainLoop_ends {table : List Nat} {fuel start : Nat} {out : List Nat} (hnodup : out.Nodup)
    (hbelow : ∀ s ∈ out, s < table.length) (hfuel : table.length < fuel + out.length) :
    Ends IsRefusal (fun _ => True) (chainLoop table fuel start out) := by
  induction fuel generalizing start out with
  | zero =>
    have := length_le_of_below hnodup hbelow
    omega
  | succ fuel ih =>
    refine .ite (fun _ => trivial) fun _ => .ite (fun _ => refuses _) fun hbroken => ?_
    simp only [Bool.or_eq_true, decide_eq_true_eq, not_or, not_le] at hbroken
    refine (item_ends hbroken.2).bind fun next _ => ?_
    exact ih (nodup_concat hnodup hbroken.1) (below_concat hbelow hbroken.2)
      (by rw [List.length_append, List.length_singleton]; omega)

theorem chain_ends (start : Nat) (table : List Nat) : Ends IsRefusal (fun _ => True) (chain start table) :=
  chainLoop_ends List.nodup_nil (by simp) (by simp)

/-- Whole sectors come together. -/
theorem regular_ends {f : File} (h : f.Fits) (fat : List Nat) (start : Nat) :
    Ends IsRefusal (fun data => f.sector ∣ data.length) (regular f fat start) := by
  refine (chain_ends start fat).bind fun sectors _ => ?_
  refine (Ends.mapM fun s _ => sectorBytes_ends h s).bind fun parts hparts => ?_
  change f.sector ∣ parts.flatten.length
  induction hparts with
  | nil => exact Nat.dvd_zero _
  | cons hpart _ ih =>
    rw [List.flatten_cons, List.length_append, hpart.2]
    exact Nat.dvd_add (Nat.dvd_refl _) ih

/-! Directory records. -/

theorem length_of_mem_recordsOf {directory record : Bytes} (h : record ∈ recordsOf directory) : record.length = 128 := by
  obtain ⟨i, hi, rfl⟩ := List.mem_map.mp h
  rw [List.mem_range] at hi
  rw [Splice.length_slice directory (by omega)]
  omega

theorem sizeOf_ends (f : File) {record : Bytes} (h : record.length = 128) : Ends IsRefusal (fun _ => True) (sizeOf f record) :=
  (u32_ends (by omega)).bind fun _ _ => (u32_ends (by omega)).bind fun _ _ => trivial

/-- A directory whose records are whole. -/
structure Directory.Fits (d : Directory) : Prop where
  file : d.file.Fits
  records : ∀ record ∈ d.records, record.length = 128
  some : d.records ≠ []

theorem streamData_ends {d : Directory} (h : d.Fits) {record : Bytes} (hrecord : record.length = 128) :
    Ends IsRefusal (fun _ => True) (streamData d record) := by
  refine (sizeOf_ends d.file hrecord).bind fun size _ => (u32_ends (by omega)).bind fun start _ => ?_
  refine .ite (fun _ => trivial) fun _ => ?_
  have hchain : Ends IsRefusal (fun _ => True) (chainData d size start) :=
    .ite (fun _ => (chain_ends start d.minifat).bind fun _ _ => trivial)
      fun _ => (regular_ends h.file d.fat start).mono fun _ _ => trivial
  exact hchain.bind fun data _ => .ite (fun _ => refuses _) fun _ => trivial

/-- Each record is expanded once and pushes two pointers. -/
theorem siblingsLoop_ends {records : List Bytes} (hrecords : ∀ record ∈ records, record.length = 128) {fuel : Nat}
    {stack out : List Nat} (hnodup : out.Nodup) (hbelow : ∀ c ∈ out, c < records.length)
    (hfuel : 2 * records.length + stack.length < fuel + 2 * out.length) :
    Ends IsRefusal (fun sids => ∀ c ∈ sids, c < records.length) (siblingsLoop records fuel stack out) := by
  induction fuel generalizing stack out with
  | zero =>
    have := length_le_of_below hnodup hbelow
    omega
  | succ fuel ih =>
    cases stack with
    | nil => exact hbelow
    | cons current stack =>
      rw [List.length_cons] at hfuel
      refine .ite (fun _ => ih hnodup hbelow (by omega)) fun _ => .ite (fun _ => refuses _) fun hbroken => ?_
      simp only [Bool.or_eq_true, decide_eq_true_eq, not_or, not_le] at hbroken
      refine (item_ends hbroken.2).bind fun record hrecord => ?_
      have h128 := hrecords record hrecord
      refine (u32_ends (by omega)).bind fun left _ => (u32_ends (by omega)).bind fun right _ => ?_
      refine ih (nodup_concat hnodup hbroken.1) (below_concat hbelow hbroken.2) ?_
      simp only [List.length_cons, List.length_append, List.length_nil]
      omega

theorem siblings_ends {records : List Bytes} (hrecords : ∀ record ∈ records, record.length = 128) (sid depth : Nat) :
    Ends IsRefusal (fun sids => depth ≤ maxDepth ∧ ∀ c ∈ sids, c < records.length) (siblings records sid depth) := by
  refine .ite (fun _ => refuses _) fun hdepth => ?_
  refine (siblingsLoop_ends hrecords List.nodup_nil (by simp) (by simp)).mono fun sids hsids => ⟨by omega, hsids⟩

theorem childSids_ends {records : List Bytes} (hrecords : ∀ record ∈ records, record.length = 128) {record : Bytes}
    (h : record.length = 128) (kind : UInt8) (depth : Nat) :
    Ends IsRefusal (fun sids => (sids ≠ [] → depth ≤ maxDepth) ∧ ∀ c ∈ sids, c < records.length)
      (childSids records record kind depth) := by
  refine .ite (fun _ => (u32_ends (by omega)).bind fun first _ => ?_) fun _ => ⟨fun hne => absurd rfl hne, by simp⟩
  exact (siblings_ends hrecords first depth).mono fun sids hsids => ⟨fun _ => hsids.1, hsids.2⟩

theorem dataOf_ends {d : Directory} (h : d.Fits) {record : Bytes} (hrecord : record.length = 128) (kind : UInt8) :
    Ends IsRefusal (fun _ => True) (dataOf d record kind) :=
  .ite (fun _ => streamData_ends h hrecord) fun _ => trivial

/-- Storages below the limit refuse children, so the calls nest `maxDepth + 2` deep at most. -/
theorem entryOf_ends {d : Directory} (h : d.Fits) {levels sid depth : Nat} (hsid : sid < d.records.length)
    (hlevels : depth + levels = maxDepth + 2) (hdepth : depth ≤ maxDepth + 1) :
    Ends IsRefusal (fun _ => True) (entryOf d levels sid depth) := by
  induction levels generalizing sid depth with
  | zero => omega
  | succ levels ih =>
    refine (item_ends hsid).bind fun record hrecord => ?_
    have h128 := h.records record hrecord
    refine (unpackFrom_ends (by omega)).bind fun nameLen _ => (item_ends (by omega)).bind fun kind _ => ?_
    refine (u32_ends (by omega)).bind fun state _ => (dataOf_ends h h128 kind).bind fun data _ => ?_
    refine (childSids_ends h.records h128 kind depth).bind fun sids hsids => ?_
    have hchildren : ∀ c ∈ sids, Ends IsRefusal (fun _ => True) (entryOf d levels c (depth + 1)) := by
      intro c hc
      have hle := hsids.1 (List.ne_nil_of_mem hc)
      exact ih (hsids.2 c hc) (by omega) (by omega)
    exact (Ends.mapM hchildren).bind fun children _ => trivial

/-! The document. -/

theorem readHeader_ends (raw : Bytes) : Ends IsRefusal (fun f => f.Fits ∧ f.raw = raw) (readHeader raw) := by
  refine .ite (fun _ => refuses _) fun hbytes => ?_
  have hlength : 512 ≤ raw.length := by
    simp only [Bool.or_eq_true, decide_eq_true_eq, not_or, not_lt] at hbytes
    exact hbytes.1
  refine (unpackFrom_ends (by omega)).bind fun major _ => (unpackFrom_ends (by omega)).bind fun byteOrder _ => ?_
  refine (unpackFrom_ends (by omega)).bind fun sectorShift _ => (unpackFrom_ends (by omega)).bind fun miniShift _ => ?_
  refine .ite (fun _ => refuses _) fun hhead => ⟨⟨?_, hlength⟩, rfl⟩
  have hshift : sectorShift = 9 ∨ sectorShift = 12 := by
    by_contra hno
    exact hhead (by simp [not_or.mp hno])
  obtain rfl | rfl := hshift
  · exact .inl rfl
  · exact .inr rfl

theorem readMiniStream_ends {f : File} (h : f.Fits) (fat : List Nat) {record : Bytes} (hrecord : record.length = 128) :
    Ends IsRefusal (fun _ => True) (readMiniStream f fat record) := by
  refine (sizeOf_ends f hrecord).bind fun size _ => .ite (fun _ => trivial) fun _ => ?_
  exact (u32_ends (by omega)).bind fun start _ => (regular_ends h fat start).bind fun _ _ => trivial

theorem readMinifat_ends {f : File} (h : f.Fits) (fat : List Nat) : Ends IsRefusal (fun _ => True) (readMinifat f fat) := by
  have hheader := h.header
  refine (u32_ends (by omega)).bind fun sectors _ => .ite (fun _ => trivial) fun _ => ?_
  refine (u32_ends (by omega)).bind fun start _ => (regular_ends h fat start).bind fun data hdata => ?_
  have hfour : data.length = 4 * (data.length / 4) := by
    obtain ⟨n, hn⟩ := hdata
    have hsize := h.size
    rw [hn]
    obtain hs | hs := hsize <;> rw [hs] <;> omega
  exact (unpackAll_ends hfour).mono fun _ _ => trivial

theorem readDirectory_ends (raw : Bytes) : Ends IsRefusal (fun d => d.Fits) (readDirectory raw) := by
  refine (readHeader_ends raw).bind fun f hf => ?_
  obtain ⟨hfits, rfl⟩ := hf
  have hheader := hfits.header
  refine (readFat_ends hfits).bind fun fat _ => (u32_ends (by omega)).bind fun start _ => ?_
  refine (regular_ends hfits fat start).bind fun directory _ => .ite (fun _ => refuses _) fun hsome => ?_
  have hne : recordsOf directory ≠ [] := fun hnil => hsome (List.isEmpty_iff.mpr hnil)
  refine (u32_ends (by omega)).bind fun miniCutoff _ => ?_
  refine (item_ends (List.length_pos_iff.mpr hne)).bind fun rootRecord hroot => ?_
  refine (readMiniStream_ends hfits fat (length_of_mem_recordsOf hroot)).bind fun miniStream _ => ?_
  refine (readMinifat_ends hfits fat).bind fun minifat _ => ?_
  exact ⟨hfits, fun record hrecord => length_of_mem_recordsOf hrecord, hne⟩

theorem read_ends (raw : Bytes) : Ends IsRefusal (fun _ => True) (read raw) := by
  refine (readDirectory_ends raw).bind fun d hd => ?_
  have hsome := List.length_pos_iff.mpr hd.some
  refine (item_ends hsome).bind fun rootRecord hroot => ?_
  have h128 := hd.records rootRecord hroot
  refine (item_ends (by omega)).bind fun kind _ => .ite (fun _ => refuses _) fun _ => ?_
  exact entryOf_ends hd hsome (by omega) (by omega)

theorem read_total (raw : Bytes) : (∃ tree, read raw = .ok tree) ∨ ∃ message, read raw = .error (.cfbError message) := by
  obtain ⟨tree, htree, -⟩ | ⟨e, he, message, rfl⟩ := ends_iff.mp (read_ends raw)
  · exact .inl ⟨tree, htree⟩
  · exact .inr ⟨message, he⟩

end XgenSdk.Cfb
