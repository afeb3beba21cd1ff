import XgenSdk.Py.Paths
import XgenSdk.Storage.Streams
import XgenSdk.Py.Codecs
import Mathlib.Data.Set.Insert

/-! The file helpers of the storage encryption, on a disk on which every call
may fail. -/
namespace XgenSdk.Storage
open Chunks (Reader)
open Py (Path abspath dirname joinPath)

/-- `OSError`, the errors of the encryption, `ValueError`, and what the client of the object store raises. -/
inductive FileError where
  | os (text : String)
  | crypto (e : CryptoError)
  | value (text : List Char)
  | store (text : String)
  deriving DecidableEq, Repr

/-- The calls on the file system that may fail. -/
inductive Access where
  | open (path : Path)
  | read (path : Path)
  | stream (source target : Path)
  | mkstemp (dir : Path)
  | replace (source target : Path)
  | unlink (path : Path)
  | getsize (path : Path)
  | makedirs (dir : Path)
  deriving DecidableEq, Repr

/-- Which object a file was downloaded from, and whether that download returned. -/
structure Origin where
  bucketName : List Char
  objectName : List Char
  complete : Bool
  deriving DecidableEq, Repr

/-- The files with the number of calls made so far; the origins are noted, never read. -/
structure Disk where
  files : Path → Option Bytes
  calls : Nat
  origin : Path → Option Origin

namespace Disk

def tick (d : Disk) : Disk := { d with calls := d.calls + 1 }

def put (d : Disk) (path : Path) (data : Bytes) : Disk :=
  { d with files := Function.update d.files path (some data) }

def remove (d : Disk) (path : Path) : Disk := { d with files := Function.update d.files path none }

def mark (d : Disk) (path : Path) (origin : Origin) : Disk :=
  { d with origin := Function.update d.origin path (some origin) }

end Disk

/-- The characters of `_RandomNameSequence`. -/
def tempCharacters : List Char := "abcdefghijklmnopqrstuvwxyz0123456789_".toList

abbrev TempSuffix := {s : List Char // s.length = 8 ∧ ∀ c ∈ s, c ∈ tempCharacters}

/-- What the process runs on: which of its calls fail and where a stream is cut
by a failure, the names `mkstemp` tries, the registered ciphers with the key
settings and the messages that were ever sealed. -/
structure Machine where
  cwd : Path
  fault : Nat → Access → Option String
  cut : Nat → Nat
  draws : Nat → List TempSuffix
  classes : List CipherClass
  keys : Nat → KeySetting
  sealings : List Sealing

abbrev Files := Raising Disk FileError

def missing : FileError := .os "[Errno 2] No such file or directory"

variable (m : Machine)

/-- Every call on the file system is counted, and may fail before it does anything. -/
def access (a : Access) : Files Unit := do
  let d ← Raising.read
  Raising.write Disk.tick
  match m.fault d.calls a with
  | some text => throw (.os text)
  | none => pure ()

def pathExists (path : Path) : Files Bool := do
  let d ← Raising.read
  return (d.files path).isSome

def contents (path : Path) : Files Bytes := do
  let d ← Raising.read
  match d.files path with
  | some data => return data
  | none => throw missing

def unlink (path : Path) : Files Unit := do
  access m (.unlink path)
  let _ ← contents path
  Raising.write (Disk.remove · path)

/-- `os.replace`. -/
def replace (source target : Path) : Files Unit := do
  access m (.replace source target)
  let data ← contents source
  Raising.write fun d => (d.remove source).put target data

def getsize (path : Path) : Files Nat := do
  access m (.getsize path)
  let data ← contents path
  return data.length

/-- `except OSError: pass`. -/
def ignoringOSError (call : Files Unit) : Files Unit :=
  Raising.handle call fun e => match e with
    | .os _ => pure ()
    | e => throw e

/-- The first of the names tried that no file has. -/
def mkstemp (pre : List Char) (dir : Path) : Files Path := do
  access m (.mkstemp dir)
  let d ← Raising.read
  match ((m.draws d.calls).map fun s => joinPath dir (pre ++ s.val)).find? (fun path => (d.files path).isNone) with
  | some path =>
    Raising.write (Disk.put · path [])
    return path
  | none => throw (.os "[Errno 17] No usable temporary file name found")

/-- `decrypt_stream` from one open file into another, with the reads and writes
it makes; the ones that fail leave the target with what was written before. -/
def streamInto (key : Option Bytes) (source target : Path) (data : Bytes) : Files Unit := do
  let d ← Raising.read
  let (result, session) := (decryptStream m.classes (m.keys d.calls) (Reader.full data) key).on
    (Session.start m.sealings)
  Raising.write Disk.tick
  match m.fault d.calls (.stream source target) with
  | some text =>
    Raising.write (Disk.put · target (session.written.take (m.cut d.calls)))
    throw (.os text)
  | none =>
    Raising.write (Disk.put · target session.written)
    match result with
    | .ok _ => pure ()
    | .error e => throw (.crypto e)

def decryptOpened (key : Option Bytes) (source target : Path) : Files Unit := do
  access m (.open source)
  let data ← contents source
  streamInto m key source target data

def tempPrefix : List Char := ".xse_dec_".toList

def orDot (dir : Path) : Path := if dir = [] then ['.'] else dir

def decryptFile (sourcePath destPath : Path) (key : Option Bytes) : Files Unit :=
  if abspath m.cwd sourcePath = abspath m.cwd destPath then
    throw (.crypto (.storageCrypto "source 와 dest 가 같은 파일입니다 (in-place 복호화 미지원)."))
  else do
    let tmpPath ← mkstemp m tempPrefix (abspath m.cwd (orDot (dirname (abspath m.cwd destPath))))
    Raising.handle (do
      decryptOpened m key sourcePath tmpPath
      replace m tmpPath destPath) fun e => do
        ignoringOSError (unlink m tmpPath)
        throw e

def isEncryptedFile (path : Path) : Files Bool :=
  Raising.handle (do
    access m (.open path)
    let data ← contents path
    access m (.read path)
    return isEncryptedData (data.take magic.length)) fun e => match e with
      | .os _ => return false
      | e => throw e

def sideSuffix : List Char := ".xse_src_tmp".toList

def sidePath (path : Path) : Path := path ++ sideSuffix

/-- What the handler of `decrypt_file_inplace` does before it raises again. -/
def restoreSource (encTmp path : Path) : Files Unit := do
  let there ← pathExists path
  if there then pure () else replace m encTmp path

def decryptAside (key : Option Bytes) (encTmp path : Path) : Files Unit :=
  Raising.ensuring
    (Raising.handle (decryptFile m encTmp path key) fun e => do
      ignoringOSError (restoreSource m encTmp path)
      throw e)
    (ignoringOSError (unlink m encTmp))

def decryptFileInplace (path : Path) (key : Option Bytes) : Files Bool := do
  let encrypted ← isEncryptedFile m path
  if encrypted then do
    replace m path (sidePath path)
    decryptAside m key (sidePath path) path
    return true
  else return false

end XgenSdk.Storage

/-! Downloads from the object store, and the directory that image files are kept in. -/
namespace XgenSdk.Storage
open Py (Path basename splitext joinPath)

/-- What an object holds, and the bytes that are stored for it. -/
structure StoredObject where
  content : Bytes
  stored : Bytes
  deriving DecidableEq, Repr

/-- A machine with the object store it downloads from: `get_minio_client()` and
the client's `fget_object`, and `mimetypes.guess_type`. -/
structure Service extends Machine where
  tempDir : Path
  guessType : List Char → Option (List Char)
  objects : List Char → List Char → Option StoredObject
  fgetObject : List Char → List Char → Path → Files Unit

inductive FileInfo where
  | image (tempPath : Path) (fileType extension originalName : List Char)
  | document (minioBucket minioObjectName fileType extension originalName : List Char)
  deriving DecidableEq, Repr

def imageExtensions : List (List Char) :=
  [['.', 'p', 'n', 'g'], ['.', 'j', 'p', 'g'], ['.', 'j', 'p', 'e', 'g'], ['.', 'g', 'i', 'f'], ['.', 'b', 'm', 'p'],
    ['.', 'w', 'e', 'b', 'p'], ['.', 's', 'v', 'g'], ['.', 't', 'i', 'f', 'f'], ['.', 'i', 'c', 'o']]

/-- `minio_path.split("/", 1)`. -/
def parseMinioPath (minioPath : List Char) : Except FileError (List Char × List Char) :=
  match minioPath.dropWhile (· ≠ '/') with
  | _ :: objectName => .ok (minioPath.takeWhile (· ≠ '/'), objectName)
  | [] => .error (.value ("잘못된 MinIO 경로 형식입니다: ".toList ++ minioPath))

variable (s : Service)

def decryptIf (decrypt : Bool) (destinationPath : Path) : Files Unit :=
  if decrypt then do
    let _ ← decryptFileInplace s.toMachine destinationPath none
    pure ()
  else pure ()

def downloadFile (objectName : List Char) (destinationPath : Path) (bucketName : List Char) (decrypt : Bool) :
    Files Unit := do
  s.fgetObject bucketName objectName destinationPath
  Raising.write (Disk.mark · destinationPath ⟨bucketName, objectName, false⟩)
  decryptIf s decrypt destinationPath
  Raising.write (Disk.mark · destinationPath ⟨bucketName, objectName, true⟩)

def cacheDir : Path := joinPath s.tempDir "xgen_minio_cache".toList

def localPath (objectName : List Char) : Path := joinPath (cacheDir s) (basename objectName)

def isImage (objectName : List Char) : Prop := Py.lower (splitext (basename objectName)).2 ∈ imageExtensions

instance (objectName : List Char) : Decidable (isImage objectName) := inferInstanceAs (Decidable (_ ∈ _))

def downloadMissing (bucketName objectName : List Char) : Files Unit := do
  let cached ← pathExists (localPath s objectName)
  if cached then pure () else downloadFile s objectName (localPath s objectName) bucketName true

def removeIfEmpty (path : Path) : Files Unit := do
  let size ← getsize s.toMachine path
  if size = 0 then unlink s.toMachine path else pure ()

def dropEmpty (path : Path) : Files Unit := do
  let there ← pathExists path
  if there then ignoringOSError (removeIfEmpty s path) else pure ()

/-- An exception before the path is known leaves the handler nothing to look at. -/
def downloadImage (bucketName objectName : List Char) (info : FileInfo) : Files FileInfo := do
  access s.toMachine (.makedirs (cacheDir s))
  Raising.handle (do
    downloadMissing s bucketName objectName
    return info) fun e => do
      dropEmpty s (localPath s objectName)
      throw e

def downloadFileFromMinio (minioPath : List Char) : Files FileInfo :=
  match parseMinioPath minioPath with
  | .error e => throw e
  | .ok (bucketName, objectName) =>
    let filename := basename objectName
    let ext := (splitext filename).2
    let mimeType := (s.guessType filename).getD "application/octet-stream".toList
    if isImage objectName then
      downloadImage s bucketName objectName (.image (localPath s objectName) mimeType ext filename)
    else return .document bucketName objectName mimeType ext filename

/-! What the file helpers do to a disk, returned or raised: which files they
touch, and what stands in them afterwards. -/

open Chunks

/-- Outside `changed` the files are the same, and no origin was noted. -/
def Disk.Agrees (changed : Set Path) (d t : Disk) : Prop :=
  t.origin = d.origin ∧ ∀ path ∉ changed, t.files path = d.files path

namespace Disk
variable {changed other : Set Path} {d t u : Disk} {path : Path} {data : Bytes}

@[simp] theorem tick_files (d : Disk) : d.tick.files = d.files := rfl

@[simp] theorem put_files (d : Disk) (path : Path) (data : Bytes) : (d.put path data).files path = some data := by
  simp [put]

@[simp] theorem remove_files (d : Disk) (path : Path) : (d.remove path).files path = none := by
  simp [remove]

theorem put_files_of_ne {q : Path} (h : q ≠ path) : (d.put path data).files q = d.files q := by
  simp [put, h]

theorem remove_files_of_ne {q : Path} (h : q ≠ path) : (d.remove path).files q = d.files q := by
  simp [remove, h]

theorem Agrees.rfl : d.Agrees changed d := ⟨Eq.refl _, fun _ _ => Eq.refl _⟩

theorem Agrees.trans (h : d.Agrees changed t) (h' : t.Agrees changed u) : d.Agrees changed u :=
  ⟨h'.1.trans h.1, fun path hpath => (h'.2 path hpath).trans (h.2 path hpath)⟩

theorem Agrees.mono (h : d.Agrees changed t) (hsub : changed ⊆ other) : d.Agrees other t :=
  ⟨h.1, fun path hpath => h.2 path fun hmem => hpath (hsub hmem)⟩

theorem Agrees.tick (h : d.Agrees changed t) : d.Agrees changed t.tick := h

theorem Agrees.put (h : d.Agrees changed t) (hpath : path ∈ changed) : d.Agrees changed (t.put path data) :=
  ⟨h.1, fun q hq => (put_files_of_ne (ne_of_mem_of_not_mem hpath hq).symm).trans (h.2 q hq)⟩

theorem Agrees.remove (h : d.Agrees changed t) (hpath : path ∈ changed) : d.Agrees changed (t.remove path) :=
  ⟨h.1, fun q hq => (remove_files_of_ne (ne_of_mem_of_not_mem hpath hq).symm).trans (h.2 q hq)⟩

end Disk

section Calls
variable {m : Machine} {d : Disk} {path : Path}
open Raising

theorem access_spec (a : Access) :
    Spec (· = d) (access m a) (fun _ t => t = d.tick ∧ m.fault d.calls a = none)
      (fun t => t = d.tick ∧ m.fault d.calls a ≠ none) := by
  refine Spec.bind_read (Spec.bind (R := fun _ t => t = d.tick) (Spec.write fun s hs => by rw [hs]) fun _ => ?_)
  cases hfault : m.fault d.calls a with
  | some text => exact Spec.throw fun s hs => ⟨hs, Option.some_ne_none text⟩
  | none => exact Spec.pure fun s hs => ⟨hs, rfl⟩

theorem contents_spec : Spec (· = d) (contents path) (fun data t => t = d ∧ d.files path = some data) (· = d) := by
  refine Spec.bind_read ?_
  cases hfile : d.files path with
  | some data => exact Spec.pure fun s hs => ⟨hs, rfl⟩
  | none => exact Spec.throw fun s hs => hs

theorem pathExists_spec : Spec (· = d) (pathExists path) (fun there t => t = d ∧ there = (d.files path).isSome)
    fun _ => False :=
  Spec.bind_read (Spec.pure fun _ hs => ⟨hs, rfl⟩)

/-- A call, then the contents of a file: either fails before anything is written. -/
theorem access_contents_spec (a : Access) {α : Type} {next : Bytes → Files α} {Q : α → Disk → Prop} {E : Disk → Prop}
    (hnext : ∀ data, d.files path = some data → m.fault d.calls a = none → Spec (· = d.tick) (next data) Q E)
    (hfail : E d.tick) : Spec (· = d) (do access m a; let data ← contents path; next data) Q E := by
  refine Spec.bind ((access_spec a).mono fun _ hs => hs.1 ▸ hfail) fun _ => Spec.of_eq ?_
  rintro - ⟨rfl, hfault⟩
  refine Spec.bind (contents_spec.mono fun _ hs => hs ▸ hfail) fun data => Spec.of_eq ?_
  rintro - ⟨rfl, hfile⟩
  exact hnext data hfile hfault

theorem unlink_spec : Spec (· = d) (unlink m path) (fun _ t => t = d.tick.remove path) (· = d.tick) :=
  access_contents_spec _ (fun _ _ _ => Spec.write fun s hs => by rw [hs]) rfl

theorem replace_spec {target : Path} :
    Spec (· = d) (replace m path target)
      (fun _ t => ∃ data, d.files path = some data ∧ t = (d.tick.remove path).put target data) (· = d.tick) :=
  access_contents_spec _ (fun data hfile _ => Spec.write fun s hs => ⟨data, hfile, by rw [hs]⟩) rfl

theorem getsize_spec : Spec (· = d) (getsize m path) (fun _ t => t = d.tick) (· = d.tick) :=
  access_contents_spec _ (fun _ _ _ => Spec.pure fun _ hs => hs) rfl

theorem ignoringOSError_spec {P Q : Disk → Prop} {call : Files Unit} (h : Spec P call (fun _ => Q) Q) :
    Spec P (ignoringOSError call) (fun _ => Q) Q := by
  refine Spec.handle h fun e => ?_
  cases e with
  | os text => exact Spec.pure fun s hs => hs
  | _ => exact Spec.throw fun s hs => hs

/-- The names `mkstemp` makes. -/
def IsTemp (path : Path) : Prop := ∃ (dir : Path) (suffix : TempSuffix), path = joinPath dir (tempPrefix ++ suffix.val)

theorem mkstemp_spec (dir : Path) :
    Spec (· = d) (mkstemp m tempPrefix dir)
      (fun path t => IsTemp path ∧ d.files path = none ∧ t = d.tick.put path []) (· = d.tick) := by
  refine Spec.bind ((access_spec _).mono fun _ hs => hs.1) fun _ => Spec.of_eq ?_
  rintro - ⟨rfl, -⟩
  refine Spec.bind_read ?_
  split
  · rename_i path hfind
    have hfree := List.find?_some hfind
    obtain ⟨suffix, -, rfl⟩ := List.mem_map.mp (List.mem_of_find?_eq_some hfind)
    refine Spec.bind (R := fun _ t => t = d.tick.put (joinPath dir (tempPrefix ++ suffix.val)) [])
      (Spec.write fun s hs => by rw [hs]) fun _ => Spec.pure fun s hs => ⟨⟨dir, suffix, rfl⟩, ?_, hs⟩
    simpa using hfree
  · exact Spec.throw fun s hs => hs

/-- With the keys of some call, `decrypt_stream` turns the one into the other. -/
def Machine.Opens (m : Machine) (key : Option Bytes) (data plain : Bytes) : Prop :=
  ∃ n s, (decryptStream m.classes (m.keys n) (Reader.full data) key).on (Session.start m.sealings) = (.ok (), s) ∧
    s.written = plain

variable {key : Option Bytes} {source target : Path} {data : Bytes}

theorem streamInto_spec :
    Spec (· = d) (streamInto m key source target data)
      (fun _ t => ∃ plain, m.Opens key data plain ∧ t = d.tick.put target plain)
      (fun t => ∃ part, t = d.tick.put target part) := by
  refine Spec.bind_read ?_
  cases hrun : (decryptStream m.classes (m.keys d.calls) (Reader.full data) key).on (Session.start m.sealings) with
  | mk result session =>
    refine Spec.bind (R := fun _ t => t = d.tick) (Spec.write fun s hs => by rw [hs]) fun _ => ?_
    cases hfault : m.fault d.calls (.stream source target) with
    | some text =>
      exact Spec.bind (R := fun _ t => ∃ part, t = d.tick.put target part)
        (Spec.write fun s hs => ⟨session.written.take (m.cut d.calls), by rw [hs]⟩) fun _ => Spec.throw fun s hs => hs
    | none =>
      refine Spec.bind (R := fun _ t => t = d.tick.put target session.written)
        (Spec.write fun s hs => by rw [hs]) fun _ => ?_
      cases result with
      | ok _ => exact Spec.pure fun s hs => ⟨_, ⟨d.calls, session, hrun, rfl⟩, hs⟩
      | error e => exact Spec.throw fun s hs => ⟨_, hs⟩

theorem decryptOpened_spec :
    Spec (· = d) (decryptOpened m key source target)
      (fun _ t => ∃ data plain, d.files source = some data ∧ m.Opens key data plain ∧
        d.Agrees {target} t ∧ t.files target = some plain)
      (d.Agrees {target}) := by
  refine access_contents_spec _ (fun data hfile _ => ?_) Disk.Agrees.rfl.tick
  refine streamInto_spec.imp ?_ ?_
  · rintro - - ⟨plain, hopens, rfl⟩
    exact ⟨data, plain, hfile, hopens, Disk.Agrees.rfl.tick.tick.put rfl, Disk.put_files _ _ _⟩
  · rintro - ⟨part, rfl⟩
    exact Disk.Agrees.rfl.tick.tick.put rfl

theorem removeTemp_spec {changed : Set Path} {path : Path} (hpath : path ∈ changed) :
    Spec (d.Agrees changed) (ignoringOSError (unlink m path)) (fun _ => d.Agrees changed) (d.Agrees changed) := by
  refine ignoringOSError_spec (Spec.of_eq fun s hs => unlink_spec.imp ?_ ?_)
  · rintro - - rfl
    exact hs.tick.remove hpath
  · rintro - rfl
    exact hs.tick

/-- Only a temporary file is touched, unless the plaintext is complete. -/
theorem decryptFile_spec (hsource : ¬ IsTemp source) :
    Spec (· = d) (decryptFile m source target key)
      (fun _ t => ∃ data plain, d.files source = some data ∧ m.Opens key data plain ∧
        d.Agrees (insert target {path | IsTemp path}) t ∧ t.files target = some plain)
      (d.Agrees {path | IsTemp path}) := by
  unfold decryptFile
  split
  · exact Spec.throw fun s hs => hs ▸ Disk.Agrees.rfl
  refine Spec.bind ((mkstemp_spec _).mono fun s hs => hs ▸ Disk.Agrees.rfl.tick) fun tmp => Spec.of_eq ?_
  rintro s ⟨htemp, -, rfl⟩
  have hne : source ≠ tmp := fun h => hsource (h ▸ htemp)
  have hmade : d.Agrees {path | IsTemp path} (d.tick.put tmp []) := Disk.Agrees.rfl.tick.put htemp
  refine Spec.handle (F := d.Agrees {path | IsTemp path}) ?_ fun e =>
    Spec.bind (R := fun _ => d.Agrees {path | IsTemp path}) (removeTemp_spec htemp) fun _ => Spec.throw fun _ hs => hs
  refine Spec.bind (decryptOpened_spec.mono fun t ht => ?_) fun _ => Spec.of_eq ?_
  · exact hmade.trans (ht.mono (Set.singleton_subset_iff.mpr htemp))
  rintro t ⟨data, plain, hfile, hopens, hagrees, hplain⟩
  have hwritten : d.Agrees {path | IsTemp path} t := hmade.trans (hagrees.mono (Set.singleton_subset_iff.mpr htemp))
  refine replace_spec.imp ?_ ?_
  · rintro - - ⟨moved, hmoved, rfl⟩
    obtain rfl : moved = plain := Option.some.inj (hmoved.symm.trans hplain)
    rw [Disk.put_files_of_ne hne] at hfile
    refine ⟨data, moved, hfile, hopens, ?_, Disk.put_files _ _ _⟩
    exact ((hwritten.mono (Set.subset_insert _ _)).tick.remove (.inr htemp)).put (.inl rfl)
  · rintro - rfl
    exact hwritten.tick

theorem isEncryptedData_take (data : Bytes) : isEncryptedData (data.take magic.length) = isEncryptedData data := by
  rw [isEncryptedData, isEncryptedData, List.take_take, Nat.min_self, List.length_take]
  simp

/-- The disk lets the first bytes of the file be read. -/
def Machine.Readable (m : Machine) (path : Path) : Prop :=
  ∀ n, m.fault n (.open path) = none ∧ m.fault n (.read path) = none

/-- The sniff tells the format of a file that can be read, and takes any other for plaintext. -/
theorem isEncryptedFile_spec {data : Bytes} {path : Path} (hfile : d.files path = some data) :
    Spec (· = d) (isEncryptedFile m path)
      (fun encrypted t => d.Agrees ∅ t ∧ (m.Readable path → encrypted = isEncryptedData data) ∧
        (encrypted = true → isEncryptedData data = true))
      (d.Agrees ∅) := by
  refine Spec.handle (F := fun t => d.Agrees ∅ t ∧ ¬ m.Readable path) ?_ fun e => ?_
  · refine Spec.bind ((access_spec _).mono ?_) fun _ => Spec.of_eq ?_
    · rintro - ⟨rfl, hfault⟩
      exact ⟨Disk.Agrees.rfl.tick, fun h => hfault (h _).1⟩
    rintro - ⟨rfl, -⟩
    refine Spec.bind (R := fun read t => t = d.tick ∧ read = data) ?_ fun read => Spec.of_eq ?_
    · rintro s rfl
      rw [contents, on_bind, on_read]
      simp only [Disk.tick_files, hfile, on_pure, and_self]
    rintro - ⟨rfl, rfl⟩
    refine Spec.bind ((access_spec _).mono ?_) fun _ => Spec.pure ?_
    · rintro - ⟨rfl, hfault⟩
      exact ⟨Disk.Agrees.rfl.tick.tick, fun h => hfault (h _).2⟩
    rintro - ⟨rfl, -⟩
    rw [isEncryptedData_take]
    exact ⟨Disk.Agrees.rfl.tick.tick, fun _ => rfl, id⟩
  · cases e with
    | os text => exact Spec.pure fun s hs => ⟨hs.1, fun h => absurd h hs.2, fun h => absurd h Bool.false_ne_true⟩
    | _ => exact Spec.throw fun s hs => hs.1

/-- The files `decrypt_file_inplace` may leave changed. -/
def Moved (path : Path) : Set Path := {q | q = path ∨ q = sidePath path ∨ IsTemp q}

theorem restore_spec {path : Path} :
    Spec (d.Agrees (Moved path)) (ignoringOSError (restoreSource m (sidePath path) path))
      (fun _ => d.Agrees (Moved path)) (d.Agrees (Moved path)) := by
  refine ignoringOSError_spec (Spec.of_eq fun s hs => ?_)
  refine Spec.bind (pathExists_spec.mono fun _ h => h.elim) fun there => Spec.of_eq ?_
  rintro u ⟨rfl, -⟩
  cases there with
  | true => exact Spec.pure fun _ h => h ▸ hs
  | false =>
    refine replace_spec.imp ?_ ?_
    · rintro - - ⟨data, -, rfl⟩
      exact (hs.tick.remove (.inr (.inl rfl))).put (.inl rfl)
    · rintro - rfl
      exact hs.tick

theorem sideSuffix_length : sideSuffix.length = 12 := by decide

theorem sidePath_ne (path : Path) : sidePath path ≠ path := by
  intro h
  have hlen := congrArg List.length h
  rw [sidePath, List.length_append, sideSuffix_length] at hlen
  omega

theorem joinPath_suffix (dir name : Path) : name <:+ joinPath dir name := by
  unfold joinPath
  split
  · exact List.suffix_rfl
  split
  · exact List.suffix_append dir name
  · exact (List.suffix_cons '/' name).trans (List.suffix_append dir ('/' :: name))

/-- Nine characters from the end, a name of `mkstemp` has an underscore and a side file has not. -/
theorem sidePath_not_temp (path : Path) : ¬ IsTemp (sidePath path) := by
  rintro ⟨dir, ⟨suffix, hlen, hchars⟩, heq⟩
  have htemp : '_' :: suffix <:+ sidePath path := by
    rw [heq]
    exact List.IsSuffix.trans ⟨tempPrefix.dropLast, by rw [show tempPrefix = tempPrefix.dropLast ++ ['_'] by decide]; simp⟩
      (joinPath_suffix _ _)
  have hside : sideSuffix.drop 3 <:+ sidePath path :=
    (List.drop_suffix 3 sideSuffix).trans (List.suffix_append path sideSuffix)
  have hboth : '_' :: suffix = sideSuffix.drop 3 :=
    (List.suffix_of_suffix_length_le htemp hside (by rw [List.length_cons, hlen]; decide)).eq_of_length
      (by rw [List.length_cons, hlen]; decide)
  have hhead := congrArg List.head? hboth
  revert hhead
  rw [List.head?_cons]
  decide

theorem decryptAside_spec {path : Path} {data : Bytes} (hside : ¬ IsTemp (sidePath path))
    (hfile : d.files (sidePath path) = some data) :
    Spec (· = d) (decryptAside m key (sidePath path) path)
      (fun _ t => d.Agrees (Moved path) t ∧ ∃ plain, m.Opens key data plain ∧ t.files path = some plain)
      (d.Agrees (Moved path)) := by
  refine Spec.ensuring (R := fun _ t => d.Agrees (Moved path) t ∧ ∃ plain, m.Opens key data plain ∧
    t.files path = some plain) (F := d.Agrees (Moved path)) ?_ (fun _ => ?_) (removeTemp_spec (.inr (.inl rfl)))
  · refine Spec.handle (F := d.Agrees (Moved path)) ?_ fun e =>
      Spec.bind (R := fun _ => d.Agrees (Moved path)) restore_spec fun _ => Spec.throw fun _ hs => hs
    refine (decryptFile_spec hside).imp ?_ fun _ ht => ht.mono fun _ => .inr ∘ .inr
    rintro - t ⟨data', plain, hdata, hopens, hagrees, hplain⟩
    obtain rfl : data' = data := Option.some.inj (hdata.symm.trans hfile)
    exact ⟨hagrees.mono (Set.insert_subset (.inl rfl) fun _ => .inr ∘ .inr), plain, hopens, hplain⟩
  · refine (ignoringOSError_spec (Q := fun t => d.Agrees (Moved path) t ∧ ∃ plain, m.Opens key data plain ∧
      t.files path = some plain) (Spec.of_eq fun s hs => unlink_spec.imp ?_ ?_)).mono fun _ ht => ht.1
    · obtain ⟨hagrees, plain, hopens, hplain⟩ := hs
      rintro - - rfl
      refine ⟨hagrees.tick.remove (.inr (.inl rfl)), plain, hopens, ?_⟩
      rw [Disk.remove_files_of_ne (sidePath_ne path).symm, Disk.tick_files, hplain]
    · rintro - rfl
      exact hs

/-- A file is left in place and taken for plaintext, or replaced by what it decrypts to. -/
theorem decryptFileInplace_spec {path : Path} {data : Bytes} (hside : ¬ IsTemp (sidePath path))
    (hfile : d.files path = some data) :
    Spec (· = d) (decryptFileInplace m path key)
      (fun _ t => d.Agrees (Moved path) t ∧ ((m.Readable path → isEncryptedData data = false) ∧ t.files path = some data ∨
        isEncryptedData data = true ∧ ∃ plain, m.Opens key data plain ∧ t.files path = some plain))
      (d.Agrees (Moved path)) := by
  refine Spec.bind ((isEncryptedFile_spec hfile).mono fun t ht => ht.mono (Set.empty_subset _)) fun encrypted =>
    Spec.of_eq ?_
  rintro s ⟨hagrees, hreadable, hmagic⟩
  have hsame : s.files path = some data := (hagrees.2 path (Set.notMem_empty path)).trans hfile
  have hmoved : d.Agrees (Moved path) s := hagrees.mono (Set.empty_subset _)
  cases encrypted with
  | false => exact Spec.pure fun _ h => h ▸ ⟨hmoved, .inl ⟨fun hr => (hreadable hr).symm, hsame⟩⟩
  | true =>
    refine Spec.bind (replace_spec.mono fun _ ht => ht ▸ hmoved.tick) fun _ => Spec.of_eq ?_
    rintro - ⟨moved, hdata, rfl⟩
    obtain rfl : moved = data := Option.some.inj (hdata.symm.trans hsame)
    have hset : d.Agrees (Moved path) ((s.tick.remove path).put (sidePath path) moved) :=
      (hmoved.tick.remove (.inl rfl)).put (.inr (.inl rfl))
    refine Spec.bind ((decryptAside_spec hside (Disk.put_files _ _ _)).mono fun t ht => hset.trans ht) fun _ =>
      Spec.pure fun t ht => ⟨hset.trans ht.1, .inr ⟨hmagic rfl, ht.2⟩⟩

end Calls

end XgenSdk.Storage
