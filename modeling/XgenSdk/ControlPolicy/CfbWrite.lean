import XgenSdk.ControlPolicy.Cfb
import XgenSdk.Lib.Dict
import XgenSdk.Lib.Saturate
import XgenSdk.Lib.Sorting
import Mathlib.Algebra.Order.Floor.Div
import Mathlib.Data.List.Lex
import Mathlib.Data.Prod.Lex
import Mathlib.Logic.Function.Basic

/-! Writing a compound file: numbered entries, the tree of the siblings, where the
streams go, and the sectors of the file allocation table. -/
namespace XgenSdk.Cfb
open XgenSdk.Py XgenSdk.Sorting
open XgenSdk.Saturate (saturate)

def freeSect : Nat := 0xFFFFFFFF
def endOfChain : Nat := 0xFFFFFFFE
def fatSect : Nat := 0xFFFFFFFD
def difSect : Nat := 0xFFFFFFFC
def redColor : Nat := 0
def blackColor : Nat := 1
def sectorSize : Nat := 512
def miniCutoffSize : Nat := 4096

/-- `CfbError`; what Python raises itself; and a loop that did not end. -/
inductive Fault where
  | cfbError (message : String)
  | structError
  | indexError
  | valueError
  | encodeError
  | endless
  deriving DecidableEq, Repr

abbrev Writing := Except Fault

namespace Entry

def sid : Entry → Nat | .mk sid _ _ _ _ _ _ _ _ => sid
def name : Entry → Str | .mk _ name _ _ _ _ _ _ _ => name
def kind : Entry → UInt8 | .mk _ _ kind _ _ _ _ _ _ => kind
def data : Entry → Bytes | .mk _ _ _ data _ _ _ _ _ => data
def clsid : Entry → Bytes | .mk _ _ _ _ clsid _ _ _ _ => clsid
def state : Entry → Nat | .mk _ _ _ _ _ state _ _ _ => state
def created : Entry → Bytes | .mk _ _ _ _ _ _ created _ _ => created
def modified : Entry → Bytes | .mk _ _ _ _ _ _ _ modified _ => modified
def children : Entry → List Entry | .mk _ _ _ _ _ _ _ _ children => children

end Entry

/-! `number`. The `sid` of an entry is how many come before it. -/

mutual
def Entry.size : Entry → Nat
  | .mk _ _ _ _ _ _ _ _ children => sizeAll children + 1

def sizeAll : List Entry → Nat
  | [] => 0
  | e :: es => e.size + sizeAll es
end

mutual
def Entry.numbered (n : Nat) : Entry → Entry
  | .mk _ name kind data clsid state created modified children =>
    .mk n name kind data clsid state created modified (numberedAll (n + 1) children)

def numberedAll (n : Nat) : List Entry → List Entry
  | [] => []
  | e :: es => e.numbered n :: numberedAll (n + e.size) es
end

mutual
/-- An entry and all below it, as they are numbered. -/
def Entry.nodes : Entry → List Entry
  | .mk sid name kind data clsid state created modified children =>
    .mk sid name kind data clsid state created modified children :: nodesAll children

def nodesAll : List Entry → List Entry
  | [] => []
  | e :: es => e.nodes ++ nodesAll es
end

/-! `_tree`. -/

/-- What `links` has for one entry. -/
structure Link where
  left : Nat
  right : Nat
  child : Nat
  color : Nat
  deriving DecidableEq, Repr

/-- By `sid`; all entries have theirs before the first tree is made. -/
abbrev Links := Nat → Link

def noLinks : Links := fun _ => ⟨noStream, noStream, noStream, blackColor⟩

def setLeft (links : Links) (sid v : Nat) : Links := Function.update links sid { links sid with left := v }
def setRight (links : Links) (sid v : Nat) : Links := Function.update links sid { links sid with right := v }
def setChild (links : Links) (sid v : Nat) : Links := Function.update links sid { links sid with child := v }
def setColor (links : Links) (sid v : Nat) : Links := Function.update links sid { links sid with color := v }

structure Linking where
  links : Links
  depth : Dict Nat Nat

/-- `build(lo, hi, level)` for the siblings from `lo` to `hi`, of which the one at `mid - lo` is in the middle. -/
def build (level : Nat) (sids : List Nat) (s : Linking) : Nat × Linking :=
  match h : sids.drop (sids.length / 2) with
  | [] => (noStream, s)
  | sid :: after =>
    let left := build (level + 1) (sids.take (sids.length / 2)) { s with depth := s.depth.set sid level }
    let right := build (level + 1) after { left.2 with links := setLeft left.2.links sid left.1 }
    (sid, { right.2 with links := setRight right.2.links sid right.1 })
termination_by sids.length
decreasing_by
  all_goals
    have hlength := congrArg List.length h
    rw [List.length_drop, List.length_cons] at hlength
  · rw [List.length_take]
    omega
  · omega

/-- Red is the deepest level, unless the tree is perfect. -/
def paint (sids : List Nat) (depth : Dict Nat Nat) (deepest : Nat) (links : Links) : Links :=
  sids.foldl (fun links sid => setColor links sid
    (if sids.length ≠ 2 ^ (deepest + 1) - 1 ∧ depth.get sid = some deepest then redColor else blackColor)) links

/-- `_tree`; `max()` of no depths raises. -/
def tree (sids : List Nat) (links : Links) : Writing (Nat × Links) :=
  let built := build 0 sids ⟨links, Dict.empty⟩
  match built.2.depth.values.max? with
  | none => .error .valueError
  | some deepest => .ok (built.1, paint sids built.2.depth deepest built.2.links)

/-! The links of all entries. -/

def isSurrogate (c : Utf16.CodePoint) : Bool := 0xD800 ≤ c.val && c.val ≤ 0xDFFF

/-- `name.encode("utf-16-le")`. -/
def encodeName (name : Str) : Writing Bytes :=
  if name.any isSurrogate then .error .encodeError else .ok (Utf16.encoded name)

/-- `_key`, with `str.upper`. -/
def key (upper : Str → Str) (name : Str) : Writing (Nat ×ₗ Str) := do
  let encoded ← encodeName name
  return toLex (encoded.length, upper name)

/-- `sorted(node.children, key=lambda c: _key(c.name))`. -/
def ordered (upper : Str → Str) (children : List Entry) : Writing (List Entry) := do
  let keyed ← children.mapM fun c => do
    let k ← key upper c.name
    return (k, c)
  return (byKey Prod.fst keyed).map Prod.snd

def linkNode (upper : Str → Str) (links : Links) (node : Entry) : Writing Links :=
  if holdsChildren node.kind && !node.children.isEmpty then do
    let siblings ← ordered upper node.children
    let linked ← tree (siblings.map Entry.sid) links
    return setChild linked.2 node.sid linked.1
  else .ok links

def linksOf (upper : Str → Str) (nodes : List Entry) : Writing Links := nodes.foldlM (linkNode upper) noLinks

/-! Where the streams go. -/

structure Streams where
  mini : Bytes
  minifat : List Nat
  start : Nat → Nat
  big : List Entry

/-- Short streams go into the mini stream. -/
def addStream (s : Streams) (node : Entry) : Streams :=
  let size := node.data.length
  if node.kind ≠ streamKind then s
  else if size = 0 then { s with start := Function.update s.start node.sid endOfChain }
  else if size < miniCutoffSize then
    let first := s.mini.length / miniSector
    let sectors := size ⌈/⌉ miniSector
    { s with
      mini := s.mini ++ node.data ++ List.replicate (sectors * miniSector - size) 0
      minifat := s.minifat ++ List.range' (first + 1) (sectors - 1) ++ [endOfChain]
      start := Function.update s.start node.sid first }
  else { s with big := s.big ++ [node] }

def streamsOf (nodes : List Entry) : Streams := nodes.foldl addStream ⟨[], [], fun _ => 0, []⟩

def sectorsFor (size : Nat) : Nat := size ⌈/⌉ sectorSize

/-! How many sectors there are of each kind. -/

structure Counts where
  bigs : List Nat
  mini : Nat
  minifat : Nat
  dir : Nat

def countsOf (nodes : List Entry) (s : Streams) : Counts where
  bigs := s.big.map fun node => sectorsFor node.data.length
  mini := sectorsFor s.mini.length
  minifat := sectorsFor (s.minifat.length * 4)
  dir := sectorsFor (nodes.length * 128)

/-- `data_count`. -/
def Counts.data (c : Counts) : Nat := c.bigs.sum + c.mini + c.minifat + c.dir

/-- `need_fat` and `need_difat`, for so many FAT and DIFAT sectors. -/
def needed (dataCount : Nat) (c : Nat × Nat) : Nat × Nat :=
  let needFat := (dataCount + c.1 + c.2) ⌈/⌉ (sectorSize / 4)
  (needFat, (needFat - headerDifat) ⌈/⌉ (sectorSize / 4 - 1))

/-- The loop, with `fat_count` and `difat_count` at its end, in at most `fuel` rounds. -/
def sizing (dataCount fuel : Nat) : Writing (Nat × Nat) :=
  match saturate (needed dataCount) fuel (0, 0) with
  | some c => .ok c
  | none => .error .endless

/-! The sectors in their order. -/

/-- `fat` and `cursor`. -/
structure Fat where
  entries : List Nat
  cursor : Nat

/-- `fat[i] = v`. -/
def put (fat : List Nat) (i v : Nat) : Writing (List Nat) :=
  if i < fat.length then .ok (fat.set i v) else .error .indexError

def place (count : Nat) (f : Fat) : Writing (Nat × Fat) :=
  if count = 0 then .ok (endOfChain, f)
  else do
    let linked ← (List.range (count - 1)).foldlM (fun fat i => put fat (f.cursor + i) (f.cursor + i + 1)) f.entries
    let ended ← put linked (f.cursor + count - 1) endOfChain
    return (f.cursor, ⟨ended, f.cursor + count⟩)

/-- `start_of[id(node)] = place(count)`. -/
def placeBig (placed : (Nat → Nat) × Fat) (big : Entry × Nat) : Writing ((Nat → Nat) × Fat) := do
  let (first, f) ← place big.2 placed.2
  return (Function.update placed.1 big.1.sid first, f)

/-- The next `count` sectors, of one kind. -/
def mark (v count : Nat) (f : Fat) : Writing (List Nat × Fat) := do
  let sectors := List.range' f.cursor count
  let marked ← sectors.foldlM (fun fat s => put fat s v) f.entries
  return (sectors, ⟨marked, f.cursor + count⟩)

structure Layout where
  counts : Counts
  fatCount : Nat
  difatCount : Nat
  fat : List Nat
  start : Nat → Nat
  miniStart : Nat
  minifatStart : Nat
  dirStart : Nat
  fatSectors : List Nat
  difatSectors : List Nat

def layout (nodes : List Entry) (s : Streams) : Writing Layout := do
  let counts := countsOf nodes s
  let (fatCount, difatCount) ← sizing counts.data (2 * counts.data + 3)
  let fat : Fat := ⟨List.replicate (fatCount * (sectorSize / 4)) freeSect, 0⟩
  let (start, fat) ← (s.big.zip counts.bigs).foldlM placeBig (s.start, fat)
  let (miniStart, fat) ← place counts.mini fat
  let (minifatStart, fat) ← place counts.minifat fat
  let (dirStart, fat) ← place counts.dir fat
  let (fatSectors, fat) ← mark fatSect fatCount fat
  let (difatSectors, fat) ← mark difSect difatCount fat
  return ⟨counts, fatCount, difatCount, fat.entries, start, miniStart, minifatStart, dirStart, fatSectors, difatSectors⟩

/-- `head_difat`. -/
def headDifat (l : Layout) : List Nat :=
  l.fatSectors.take headerDifat ++ List.replicate (headerDifat - min headerDifat l.fatCount) freeSect

/-- What the `i`-th DIFAT sector has in front of the next one's number. -/
def difatChunk (l : Layout) (i : Nat) : List Nat :=
  let chunk := ((l.fatSectors.drop headerDifat).drop (i * (sectorSize / 4 - 1))).take (sectorSize / 4 - 1)
  chunk ++ List.replicate (sectorSize / 4 - 1 - chunk.length) freeSect

/-! The bytes. -/

/-- `struct.pack` of numbers of `n` bytes. -/
def pack (n : Nat) (vs : List Nat) : Writing Bytes :=
  if vs.all (· < 256 ^ n) then .ok (vs.flatMap (Struct.leBytes n)) else .error .structError

def header (l : Layout) : Writing Bytes := do
  let versions ← pack 2 [0x003E, 0x0003, 0xFFFE, 9, 6]
  let fields ← pack 4 [l.fatCount, l.dirStart, 0, miniCutoffSize,
    if l.counts.minifat ≠ 0 then l.minifatStart else endOfChain, l.counts.minifat,
    l.difatSectors.head?.getD endOfChain, l.difatCount]
  let slots ← pack 4 (headDifat l)
  return signature ++ List.replicate 16 0 ++ versions ++ List.replicate 10 0 ++ fields ++ slots

/-- The first `n` bytes, with zeros where there are fewer. -/
def padded (n : Nat) (bytes : Bytes) : Bytes := bytes.take n ++ List.replicate (n - bytes.length) 0

/-- The start and the size that a record gives. -/
def extent (s : Streams) (l : Layout) (node : Entry) : Nat × Nat :=
  if node.kind = streamKind then (l.start node.sid, node.data.length)
  else if node.kind = rootKind then (if l.counts.mini ≠ 0 then l.miniStart else endOfChain, s.mini.length)
  else (0, 0)

/-- The directory record of an entry; a stream has no times. -/
def record (links : Links) (s : Streams) (l : Layout) (node : Entry) : Writing Bytes := do
  let encoded ← encodeName node.name
  if 62 < encoded.length then .error (.cfbError "항목 이름이 31 글자를 넘음")
  else do
    let link := links node.sid
    let (start, size) := extent s l node
    let nameSize ← pack 2 [encoded.length + 2]
    let kinds ← pack 1 [node.kind.toNat, link.color]
    let pointers ← pack 4 [link.left, link.right, link.child]
    let state ← pack 4 [node.state]
    let first ← pack 4 [start]
    let sizeBytes ← pack 8 [size]
    let times := if node.kind = streamKind then List.replicate 16 0 else padded 8 node.created ++ padded 8 node.modified
    return padded 64 encoded ++ nameSize ++ kinds ++ pointers ++ padded 16 node.clsid ++ state ++ times ++ first ++ sizeBytes

def emptyRecord : Bytes :=
  List.replicate 0x44 0 ++ [noStream, noStream, noStream].flatMap (Struct.leBytes 4) ++ List.replicate 0x30 0

/-- The records, and empty ones up to the end of the last sector. -/
def directoryBytes (links : Links) (s : Streams) (l : Layout) (nodes : List Entry) : Writing Bytes := do
  let records ← nodes.mapM (record links s l)
  let directory := records.flatten
  return directory ++ (List.replicate ((l.counts.dir * sectorSize - directory.length) ⌈/⌉ emptyRecord.length) emptyRecord).flatten

def difatBytes (l : Layout) : Writing Bytes := do
  let sectors ← l.difatSectors.zipIdx.mapM fun e =>
    pack 4 (difatChunk l e.2 ++ [l.difatSectors[e.2 + 1]?.getD endOfChain])
  return sectors.flatten

def bigBytes (node : Entry) : Bytes :=
  node.data ++ List.replicate (sectorsFor node.data.length * sectorSize - node.data.length) 0

/-- `write`. -/
def write (upper : Str → Str) (root : Entry) : Writing Bytes := do
  let nodes := (root.numbered 0).nodes
  let links ← linksOf upper nodes
  let s := streamsOf nodes
  let l ← layout nodes s
  let head ← header l
  let minifat ← pack 4 s.minifat
  let directory ← directoryBytes links s l nodes
  let fat ← pack 4 l.fat
  let difat ← difatBytes l
  return head ++ (s.big.flatMap bigBytes ++ (s.mini ++ List.replicate (l.counts.mini * sectorSize - s.mini.length) 0) ++
    (minifat ++ (List.replicate (l.counts.minifat * (sectorSize / 4) - s.minifat.length) freeSect).flatMap (Struct.leBytes 4)) ++
    directory ++ fat ++ difat)

end XgenSdk.Cfb
