import Mathlib.Data.List.Sort
import XgenSdk.Py.Json
import Mathlib.Logic.Relation
import XgenSdk.Py.Codecs

/-! What goes where in the zip of a folder: safe names, names that differ within
a folder, and the breadth-first walk over the rows. Names are code points. -/
namespace XgenSdk.Storage.FolderZip
open Py (Json)

abbrev Name := List Char

scoped instance namesCompared : LawfulBEq Name := inferInstance

/-- `str.casefold`, one character at a time. No other character folds into a slash. -/
structure CaseFolding where
  foldChar : Char → Name
  slash : foldChar '/' = ['/']
  slash_only : ∀ c, '/' ∈ foldChar c → c = '/'

def CaseFolding.fold (cf : CaseFolding) (name : Name) : Name := name.flatMap cf.foldChar

/-- An `HTTPException`, the exception `int()` raises, or a walk that did not end. -/
inductive PlanError where
  | http (status : Nat) (detail : String)
  | badSize
  deriving DecidableEq, Repr

/-- `_BAD_CHARS`: control characters and path separators. -/
def isBadChar (c : Char) : Bool := c.toNat ≤ 0x1F || c.toNat = 0x7F || c = '/' || c = '\\'

def safeName (name : Json) (fallback : Name) : Name :=
  let text := Py.stripChars (name.textOr.toList.map fun c => if isBadChar c then '_' else c)
  if text = [] ∨ text = ['.'] ∨ text = ['.', '.'] then fallback else text

def stripDots (name : Name) : Name :=
  ((name.dropWhile (· = '.')).reverse.dropWhile (· = '.')).reverse

/-- `name.rpartition(".")` around a dot that is there. -/
def rpartitionDot (name : Name) : Name × Name × Name :=
  let ext := (name.reverse.takeWhile (· ≠ '.')).reverse
  let stem := ((name.reverse.dropWhile (· ≠ '.')).drop 1).reverse
  (stem, ['.'], ext)

def splitName (name : Name) (isFile : Bool) : Name × Name × Name :=
  if isFile && (stripDots name).contains '.' then rpartitionDot name else (name, [], [])

/-- The name with its number, as in `stem (2).ext`. -/
def numbered (parts : Name × Name × Name) (n : Nat) : Name :=
  parts.1 ++ [' ', '('] ++ (Nat.repr n).toList ++ [')'] ++ parts.2.1 ++ parts.2.2

/-- The first of `fuel` numbers from `n` on whose name is free. -/
def firstFree (cf : CaseFolding) (parts : Name × Name × Name) (used : List Name) : Nat → Nat → Option Name
  | 0, _ => none
  | fuel + 1, n =>
    if cf.fold (numbered parts n) ∉ used then some (numbered parts n)
    else firstFree cf parts used fuel (n + 1)

/-- A name that is not used yet, and what is used then. -/
def uniqueName (cf : CaseFolding) (name : Name) (used : List Name) (isFile : Bool) :
    Except PlanError (Name × List Name) :=
  if cf.fold name ∉ used then .ok (name, cf.fold name :: used)
  else match firstFree cf (splitName name isFile) used 99998 2 with
    | some candidate => .ok (candidate, cf.fold candidate :: used)
    | none => .error (.http 409 ("'" ++ String.ofList name ++ "' 와 같은 이름이 너무 많습니다."))

def groupThousands (digits : List Char) : List Char :=
  if digits.length ≤ 3 then digits
  else groupThousands (digits.take (digits.length - 3)) ++ [','] ++ digits.drop (digits.length - 3)
termination_by digits.length
decreasing_by
  simp only [List.length_take]
  omega

/-- `f"{n:,}"`. -/
def withCommas (n : Int) : String :=
  (if n < 0 then "-" else "") ++ String.ofList (groupThousands (Nat.repr n.natAbs).toList)

/-- One decimal of `n / unit`, halves to even. -/
def oneDecimal (n : Int) (unit : Nat) : String :=
  let q := n.natAbs * 10 / unit
  let r := n.natAbs * 10 % unit
  let tenths := if 2 * r > unit ∨ (2 * r = unit ∧ q % 2 = 1) then q + 1 else q
  (if n < 0 then "-" else "") ++ toString (tenths / 10) ++ "." ++ toString (tenths % 10)

def fmt (n : Int) : String :=
  if n < 1024 then toString n ++ "B"
  else if n < 1024 ^ 2 then oneDecimal n 1024 ++ "KB"
  else if n < 1024 ^ 3 then oneDecimal n (1024 ^ 2) ++ "MB"
  else oneDecimal n (1024 ^ 3) ++ "GB"

def checkLimits (count : Nat) (totalBytes : Int) (maxFiles maxBytes : Int) : Except PlanError Unit :=
  if (count : Int) > maxFiles then
    .error (.http 413 ("파일이 " ++ withCommas maxFiles ++
      "개를 넘어 한 번에 내려받을 수 없습니다. 하위 폴더별로 내려받으세요."))
  else if totalBytes > maxBytes then
    .error (.http 413 ("폴더가 너무 큽니다(" ++ fmt totalBytes ++ "). 한 번에 " ++ fmt maxBytes ++
      "까지 내려받을 수 있으니 하위 폴더별로 내려받으세요."))
  else .ok ()

/-- A row of `folders`; its id is not null. -/
structure FolderRow (κ : Type) where
  id : κ
  parentId : Option κ
  name : Json

/-- A row of `files`, with what `f.get("item", f)` gives. -/
structure FileRow (κ ι : Type) where
  folderId : Option κ
  name : Json
  size : Json
  item : ι

structure ZipFileEntry (ι : Type) where
  arcname : Name
  item : ι
  deriving DecidableEq, Repr

structure ZipPlan (ι : Type) where
  root : Name
  dirs : List Name
  files : List (ZipFileEntry ι)
  totalBytes : Int
  deriving DecidableEq, Repr

variable {κ ι : Type} [DecidableEq κ]

def sizeOf (f : FileRow κ ι) : Except PlanError Int :=
  if f.size.truthy then
    match f.size.toInt with
    | some n => .ok n
    | none => .error .badSize
  else .ok 0

def totalSize : List (FileRow κ ι) → Except PlanError Int
  | [] => .ok 0
  | f :: fs => do
    let n ← sizeOf f
    let rest ← totalSize fs
    return n + rest

/-- `children.get(folder_id, [])`: rows without a parent, and the root's own, hang nowhere. -/
def childrenOf (rootId : Option κ) (folders : List (FolderRow κ)) (folderId : Option κ) : List (FolderRow κ) :=
  folders.filter fun row => some row.id ≠ rootId ∧ row.parentId ≠ none ∧ row.parentId = folderId

def filesIn (files : List (FileRow κ ι)) (folderId : Option κ) : List (FileRow κ ι) :=
  files.filter fun f => f.folderId = folderId

/-- The sort key `(str(name or ""), str(id))`. -/
def sortKey (idText : κ → String) (row : FolderRow κ) : Name × Name :=
  (row.name.textOr.toList, (idText row.id).toList)

def keyLe (a b : Name × Name) : Prop := a.1 < b.1 ∨ a.1 = b.1 ∧ ¬ b.2 < a.2

instance (a b : Name × Name) : Decidable (keyLe a b) := inferInstanceAs (Decidable (_ ∨ _))

def sortedChildren (idText : κ → String) (rows : List (FolderRow κ)) : List (FolderRow κ) :=
  rows.insertionSort fun a b => keyLe (sortKey idText a) (sortKey idText b)

/-- The queue of folders to open, the ids seen, and what is placed so far. -/
structure Walk (κ ι : Type) where
  queue : List (Option κ × Name)
  seen : List (Option κ)
  dirs : List Name
  files : List (ZipFileEntry ι)

def under (path name : Name) : Name := path ++ '/' :: name

def placeFolders (cf : CaseFolding) (path : Name) :
    List (FolderRow κ) → List Name → Walk κ ι → Except PlanError (List Name × Walk κ ι)
  | [], used, w => .ok (used, w)
  | child :: rest, used, w =>
    if some child.id ∈ w.seen then placeFolders cf path rest used w
    else do
      let (name, used) ← uniqueName cf (safeName child.name "folder".toList) used false
      placeFolders cf path rest used
        { w with
          seen := w.seen ++ [some child.id]
          dirs := w.dirs ++ [under path name]
          queue := w.queue ++ [(some child.id, under path name)] }

def placeFiles (cf : CaseFolding) (path : Name) :
    List (FileRow κ ι) → List Name → Walk κ ι → Except PlanError (Walk κ ι)
  | [], _, w => .ok w
  | f :: rest, used, w => do
    let (name, used) ← uniqueName cf (safeName f.name "file".toList) used true
    placeFiles cf path rest used { w with files := w.files ++ [⟨under path name, f.item⟩] }

/-- `while queue:`, at most `fuel` times; `none` where that was not enough. -/
def walk (cf : CaseFolding) (idText : κ → String) (rootId : Option κ) (folders : List (FolderRow κ))
    (files : List (FileRow κ ι)) : Nat → Walk κ ι → Except PlanError (Option (Walk κ ι))
  | fuel, w =>
    match w.queue with
    | [] => .ok (some w)
    | (folderId, path) :: queue =>
      match fuel with
      | 0 => .ok none
      | fuel + 1 => do
        let children := sortedChildren idText (childrenOf rootId folders folderId)
        let (used, w) ← placeFolders cf path children [] { w with queue := queue }
        let w ← placeFiles cf path (filesIn files folderId) used w
        walk cf idText rootId folders files fuel w

def planTree (cf : CaseFolding) (idText : κ → String) (fuel : Nat) (rootId : Option κ) (rootName : Json)
    (folders : List (FolderRow κ)) (files : List (FileRow κ ι)) (maxFiles maxBytes : Int) :
    Except PlanError (Option (ZipPlan ι)) := do
  let total ← totalSize files
  checkLimits files.length total maxFiles maxBytes
  let root := safeName rootName "folder".toList
  match ← walk cf idText rootId folders files fuel ⟨[(rootId, root)], [rootId], [root], []⟩ with
  | none => return none
  | some w => return some ⟨root, w.dirs, w.files, total⟩

end XgenSdk.Storage.FolderZip

/-! The plan of a folder zip: every path is the root or a safe segment below an
earlier directory, no two paths fold alike, and the walk places what is reached. -/
namespace XgenSdk.Storage.FolderZip
open Py (Json)
variable {cf : CaseFolding}

/-- One path segment that stays inside its folder. -/
structure IsSafe (seg : Name) : Prop where
  nonempty : seg ≠ []
  notDot : seg ≠ ['.']
  notDots : seg ≠ ['.', '.']
  chars : ∀ c ∈ seg, isBadChar c = false

theorem IsSafe.no_slash {seg : Name} (h : IsSafe seg) : '/' ∉ seg :=
  fun hmem => absurd (h.chars '/' hmem) (by decide)

theorem mem_stripChars {c : Char} {text : Name} (h : c ∈ Py.stripChars text) : c ∈ text := by
  have hback := (List.dropWhile_sublist _).subset (List.mem_reverse.mp h)
  exact (List.dropWhile_sublist _).subset (List.mem_reverse.mp hback)

theorem safeName_safe (name : Json) {fallback : Name} (h : IsSafe fallback) : IsSafe (safeName name fallback) := by
  unfold safeName
  dsimp only
  split
  · exact h
  · rename_i hne
    obtain ⟨hnil, hdot, hdots⟩ := not_or.mp hne |>.imp_right not_or.mp
    refine ⟨hnil, hdot, hdots, fun c hc => ?_⟩
    obtain ⟨b, -, hb⟩ := List.mem_map.mp (mem_stripChars hc)
    by_cases hbad : isBadChar b = true
    · rw [if_pos hbad] at hb
      rw [← hb]
      decide
    · rw [if_neg hbad] at hb
      rw [← hb]
      exact Bool.eq_false_iff.mpr hbad

theorem isBadChar_of_isDigit {c : Char} (h : c.isDigit = true) : isBadChar c = false := by
  have hrange : 48 ≤ c.toNat ∧ c.toNat ≤ 57 := by
    simp only [Char.isDigit, Bool.and_eq_true, decide_eq_true_eq] at h
    exact ⟨h.1, h.2⟩
  have hslash : c ≠ '/' := by
    rintro rfl
    exact absurd hrange.1 (by decide)
  have hback : c ≠ '\\' := by
    rintro rfl
    exact absurd hrange.2 (by decide)
  simp only [isBadChar, Bool.or_eq_false_iff, decide_eq_false_iff_not]
  exact ⟨⟨⟨by omega, by omega⟩, hslash⟩, hback⟩

theorem mem_rpartitionDot {name : Name} {c : Char} :
    (c ∈ (rpartitionDot name).1 → c ∈ name) ∧ (c ∈ (rpartitionDot name).2.2 → c ∈ name) := by
  constructor
  · intro h
    have hdrop := (List.drop_sublist _ _).subset (List.mem_reverse.mp h)
    exact List.mem_reverse.mp ((List.dropWhile_sublist _).subset hdrop)
  · intro h
    exact List.mem_reverse.mp ((List.takeWhile_sublist _).subset (List.mem_reverse.mp h))

theorem splitName_chars {name : Name} {isFile : Bool} {c : Char}
    (h : c ∈ (splitName name isFile).1 ∨ c ∈ (splitName name isFile).2.1 ∨ c ∈ (splitName name isFile).2.2) :
    c ∈ name ∨ c = '.' := by
  unfold splitName at h
  split at h
  · obtain h | h | h := h
    · exact .inl (mem_rpartitionDot.1 h)
    · exact .inr (List.mem_singleton.mp h)
    · exact .inl (mem_rpartitionDot.2 h)
  · obtain h | h | h := h
    · exact .inl h
    · cases h
    · cases h

/-- A numbered name is as safe as the name it comes from. -/
theorem numbered_safe {name : Name} (h : IsSafe name) (isFile : Bool) (n : Nat) :
    IsSafe (numbered (splitName name isFile) n) := by
  have hparen : '(' ∈ numbered (splitName name isFile) n := by
    simp [numbered]
  refine ⟨List.ne_nil_of_mem hparen, ?_, ?_, fun c hc => ?_⟩
  · intro heq
    rw [heq] at hparen
    exact absurd hparen (by decide)
  · intro heq
    rw [heq] at hparen
    exact absurd hparen (by decide)
  · simp only [numbered, List.mem_append, List.mem_cons, List.not_mem_nil, or_false] at hc
    obtain ((((hc | rfl | rfl) | hc) | rfl) | hc) | hc := hc
    · obtain hc | rfl := splitName_chars (.inl hc)
      · exact h.chars c hc
      · decide
    · decide
    · decide
    · have hdigits : c ∈ Nat.toDigits 10 n := by
        simpa [Nat.repr] using hc
      exact isBadChar_of_isDigit (Nat.isDigit_of_mem_toDigits (by decide) (by decide) hdigits)
    · decide
    · obtain hc | rfl := splitName_chars (.inr (.inl hc))
      · exact h.chars c hc
      · decide
    · obtain hc | rfl := splitName_chars (.inr (.inr hc))
      · exact h.chars c hc
      · decide

theorem firstFree_some {parts : Name × Name × Name} {used : List Name} {fuel n : Nat} {candidate : Name}
    (h : firstFree cf parts used fuel n = some candidate) :
    cf.fold candidate ∉ used ∧ ∃ k, candidate = numbered parts k := by
  induction fuel generalizing n with
  | zero => cases h
  | succ fuel ih =>
    unfold firstFree at h
    split at h
    · rename_i hfree
      rw [← Option.some.inj h]
      exact ⟨hfree, n, rfl⟩
    · exact ih h

/-- The name given is safe, was not used, and is used from then on. -/
theorem uniqueName_ok {name : Name} {used : List Name} {isFile : Bool} {result : Name × List Name}
    (h : uniqueName cf name used isFile = .ok result) (hsafe : IsSafe name) :
    IsSafe result.1 ∧ cf.fold result.1 ∉ used ∧ result.2 = cf.fold result.1 :: used := by
  unfold uniqueName at h
  split at h
  · rename_i hfree
    rw [← Except.ok.inj h]
    exact ⟨hsafe, hfree, rfl⟩
  · split at h
    · rename_i candidate hcandidate
      obtain ⟨hfree, k, rfl⟩ := firstFree_some hcandidate
      rw [← Except.ok.inj h]
      exact ⟨numbered_safe hsafe isFile k, hfree, rfl⟩
    · cases h

theorem fold_append (first second : Name) : cf.fold (first ++ second) = cf.fold first ++ cf.fold second :=
  List.flatMap_append

theorem fold_under (path name : Name) : cf.fold (under path name) = cf.fold path ++ '/' :: cf.fold name := by
  rw [under, fold_append]
  simp [CaseFolding.fold, cf.slash]

theorem slash_notMem_fold {name : Name} (h : '/' ∉ name) : '/' ∉ cf.fold name := by
  intro hmem
  obtain ⟨c, hc, hslash⟩ := List.mem_flatMap.mp hmem
  exact h (cf.slash_only c hslash ▸ hc)

/-- The last separator of a list splits it in one way only. -/
theorem split_last_inj {α : Type} {sep : α} {a a' b b' : List α} (hb : sep ∉ b) (hb' : sep ∉ b')
    (h : a ++ sep :: b = a' ++ sep :: b') : a = a' ∧ b = b' := by
  obtain ⟨mid, rfl, hrest⟩ | ⟨mid, rfl, hrest⟩ := List.append_eq_append_iff.mp h
  · cases mid with
    | nil => exact ⟨(List.append_nil a).symm, (List.cons.inj hrest).2⟩
    | cons x xs =>
      rw [(List.cons.inj hrest).2] at hb
      exact absurd (by simp) hb
  · cases mid with
    | nil => exact ⟨List.append_nil a', (List.cons.inj hrest).2.symm⟩
    | cons x xs =>
      rw [(List.cons.inj hrest).2] at hb'
      exact absurd (by simp) hb'

end XgenSdk.Storage.FolderZip

/-! The stream of a folder zip, as the entries `zipfile` is handed one after the other. -/
namespace XgenSdk.Storage.FolderZip

/-- `str.casefold` leaves something of every character. -/
structure NameFolding extends CaseFolding where
  keeps : ∀ c, foldChar c ≠ []

/-- A date in local time. -/
structure Stamp where
  year : Nat
  month : Nat
  day : Nat
  hour : Nat
  minute : Nat
  second : Nat
  deriving DecidableEq, Repr

/-- `zipfile.ZipInfo`, stored where it has no level to deflate with. -/
structure ZipInfo where
  filename : Name
  dateTime : Stamp
  compressLevel : Option Nat
  externalAttr : Nat
  deriving DecidableEq, Repr

structure ZipEntry where
  info : ZipInfo
  data : List UInt8
  deriving DecidableEq, Repr

/-- The `struct.error` of a header, or what dating an item raises. -/
inductive StreamError where
  | header
  | date (text : String)
  deriving DecidableEq, Repr

/-- What `stream` is given beside the plan: the clock as it is read for the n-th
time, `str.lower`, and what the n-th call of `download` writes, if it does not raise. -/
structure Streaming (ι : Type) where
  clock : Nat → Stamp
  lower : Name → Name
  dateOf : ι → Except StreamError (Option Stamp)
  chunk : Int
  download : Nat → ι → Option (List UInt8)

def failedNote : Name := "받지 못한 파일.txt".toList

def zipEpoch : Stamp := ⟨1980, 1, 1, 0, 0, 0⟩

/-- The later of the date and 1980-01-01, the first of its year. -/
def zipDate (now : Stamp) (value : Option Stamp) : Stamp :=
  let stamp := value.getD now
  if stamp.year < 1980 then zipEpoch else stamp

def packedExts : List Name :=
  ["zip", "gz", "tgz", "bz2", "xz", "7z", "rar", "zst", "jpg", "jpeg", "png", "gif", "webp", "heic", "avif",
    "mp3", "mp4", "m4a", "m4v", "mov", "avi", "mkv", "webm", "ogg",
    "docx", "xlsx", "pptx", "hwpx", "odt", "ods", "odp", "pdf"].map String.toList

def level (lower : Name → Name) (name : Name) : Nat :=
  let ext := if '.' ∈ name then lower (rpartitionDot name).2.2 else []
  if ext ∈ packedExts then 1 else 6

/-- The day of a date in the two bytes it has. -/
def Stamp.dosDate (stamp : Stamp) : Nat := (stamp.year - 1980) <<< 9 ||| stamp.month <<< 5 ||| stamp.day

/-- A header has two bytes for the length of the name and two for the day. -/
def ZipInfo.Fits (info : ZipInfo) : Prop :=
  (Py.utf8Bytes info.filename).length ≤ 0xFFFF ∧ info.dateTime.dosDate ≤ 0xFFFF

instance decidableFits (info : ZipInfo) : Decidable info.Fits := inferInstanceAs (Decidable (_ ∧ _))

/-- `ZipInfo(name, date_time)` ends a name at its first null. -/
def zipName (name : Name) : Name := name.takeWhile (· ≠ '\x00')

def writeEntry (info : ZipInfo) (data : List UInt8) : Except StreamError ZipEntry :=
  if info.Fits then .ok ⟨info, data⟩ else .error .header

def dirInfo (now : Stamp) (path : Name) : ZipInfo := ⟨zipName (path ++ ['/']), now, none, 0o40755 <<< 16 ||| 0x10⟩

def fileInfo (lower : Name → Name) (arcname : Name) (date : Stamp) : ZipInfo :=
  ⟨zipName arcname, date, some (level lower arcname), 0o644 <<< 16⟩

/-- `writestr` gives what has no attributes those of a private file. -/
def noteInfo (now : Stamp) (name : Name) : ZipInfo := ⟨zipName name, now, none, 0o600 <<< 16⟩

/-- How much `src.read(chunk)` takes; all there is where the chunk is negative. -/
def readSize (chunk : Int) (data : List UInt8) : Nat := if chunk < 0 then data.length else chunk.toNat

/-- `src.read(chunk)` until it gives nothing. -/
def copyChunks (chunk : Int) (data : List UInt8) : List UInt8 :=
  if data.take (readSize chunk data) = [] then []
  else data.take (readSize chunk data) ++ copyChunks chunk (data.drop (readSize chunk data))
termination_by data.length
decreasing_by
  rename_i hread
  rw [List.length_drop]
  have hpos := List.length_pos_iff.mpr hread
  rw [List.length_take] at hpos
  omega

variable {ι : Type}

def writeFile (s : Streaming ι) (n : Nat) (entry : ZipFileEntry ι) (blob : List UInt8) : Except StreamError ZipEntry := do
  let date ← s.dateOf entry.item
  writeEntry (fileInfo s.lower entry.arcname (zipDate (s.clock (n + 1)) date)) (copyChunks s.chunk blob)

def unreadable : Name := "원본을 읽지 못했습니다".toList

/-- The entries written from the n-th file on, and the paths that failed with their reasons. -/
def writeFiles (s : Streaming ι) : Nat → List (ZipFileEntry ι) → Except StreamError (List ZipEntry × List (Name × Name))
  | _, [] => .ok ([], [])
  | n, entry :: rest =>
    match s.download n entry.item with
    | none => do
      let (written, failed) ← writeFiles s (n + 1) rest
      return (written, (entry.arcname, unreadable) :: failed)
    | some blob => do
      let first ← writeFile s n entry blob
      let (written, failed) ← writeFiles s (n + 1) rest
      return (first :: written, failed)

def noteHeader : Name := "다음 파일은 원본을 읽지 못해 이 zip 에 넣지 못했습니다.\n\n".toList

def noteText (failed : List (Name × Name)) : Name :=
  noteHeader ++ failed.flatMap fun f => f.1 ++ [':', ' '] ++ f.2 ++ ['\n']

def usedNames (cf : CaseFolding) (plan : ZipPlan ι) : List Name :=
  (plan.files.map fun f => cf.fold f.arcname) ++ plan.dirs.map fun d => cf.fold d ++ ['/']

def noteName (cf : CaseFolding) (plan : ZipPlan ι) : Name :=
  let name := under plan.root failedNote
  if cf.fold name ∈ usedNames cf plan then under plan.root ('_' :: failedNote) else name

/-- The archive, entry by entry. -/
def stream (cf : CaseFolding) (s : Streaming ι) (plan : ZipPlan ι) : Except StreamError (List ZipEntry) := do
  let now := zipDate (s.clock 0) none
  let dirs ← plan.dirs.mapM fun path => writeEntry (dirInfo now path) []
  let (written, failed) ← writeFiles s 0 plan.files
  if failed = [] then return dirs ++ written
  let note ← writeEntry (noteInfo now (noteName cf plan)) (Py.utf8Bytes (noteText failed))
  return dirs ++ written ++ [note]

/-- The blob is copied as it is, in chunks of any size but none. -/
theorem copyChunks_eq {chunk : Int} (h : chunk ≠ 0) (data : List UInt8) : copyChunks chunk data = data := by
  induction data using copyChunks.induct chunk with
  | case1 data hread =>
    rw [copyChunks, if_pos hread]
    obtain hzero | hnil := List.take_eq_nil_iff.mp hread
    · unfold readSize at hzero
      split at hzero
      · exact (List.length_eq_zero_iff.mp hzero).symm
      · omega
    · exact hnil.symm
  | case2 data hread ih =>
    rw [copyChunks, if_neg hread, ih, List.take_append_drop]

end XgenSdk.Storage.FolderZip
