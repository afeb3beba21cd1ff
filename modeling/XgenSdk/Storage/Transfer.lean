import XgenSdk.Lib.Raising
import Mathlib.Logic.Function.Basic

/-! Uploads that pass through a temporary file. -/
namespace XgenSdk.Storage.Transfer
variable {α : Type}

abbrev Bytes := List UInt8

/-- The files on the disk, by path. -/
abbrev Files := String → Option Bytes

inductive Raised where
  | http (statusCode : Nat) (detail : String)
  | other (text : String)

/-- What one `read` of an upload answers, and what writing that to the disk raises. -/
structure Piece where
  read : Except Raised Bytes
  write : Option Raised := none

structure Upload where
  declaredSize : Option Int
  pieces : List Piece

abbrev Disk (α : Type) := Raising Files Raised α

def tooLarge (maxBytes : Nat) (message : String) : Raised :=
  .http 413 (if message = "" then "파일이 너무 큽니다 (최대 " ++ toString (maxBytes / (1024 * 1024)) ++ "MB)" else message)

def checkDeclared (upload : Upload) (maxBytes : Nat) (message : String) : Disk Unit :=
  if upload.declaredSize.any fun size => (maxBytes : Int) < size then throw (tooLarge maxBytes message) else return ()

/-- The loop of `writeChunks`. -/
def writePieces (out : String) (maxBytes : Nat) (message : String) (size : Nat) : List Piece → Disk Nat
  | [] => return size
  | p :: rest => do
    let chunk ← Raising.lift p.read
    if chunk = [] then return size
    else if size + chunk.length > maxBytes then throw (tooLarge maxBytes message)
    else
      match p.write with
      | some e => throw e
      | none =>
        Raising.write fun files => Function.update files out ((files out).map (· ++ chunk))
        writePieces out maxBytes message (size + chunk.length) rest

def writeChunks (upload : Upload) (out : String) (maxBytes : Nat) (message : String) : Disk Nat := do
  checkDeclared upload maxBytes message
  writePieces out maxBytes message 0 upload.pieces

def unlink (path : String) : Disk Unit := Raising.write fun files => Function.update files path none

/-- `path` is the name that `mkstemp` makes up. -/
def spool (path : String) (upload : Upload) (maxBytes : Nat) (message : String) : Disk Nat := do
  checkDeclared upload maxBytes message
  Raising.write fun files => Function.update files path (some [])
  Raising.handle (writeChunks upload path maxBytes message) fun e => do
    unlink path
    throw e

def spooled (path : String) (upload : Upload) (maxBytes : Nat) (message : String) (block : Nat → Disk α) : Disk α := do
  let size ← spool path upload maxBytes message
  Raising.ensuring (block size) (unlink path)

/-- The bytes of an upload, where each read answers. -/
def received : List Piece → Option Bytes
  | [] => some []
  | p :: rest =>
    match p.read with
    | .error _ => none
    | .ok [] => some []
    | .ok chunk => (received rest).map (chunk ++ ·)

/-- Nothing raises, and the bytes do not pass the limit from this size on. -/
def Accepted (maxBytes size : Nat) (pieces : List Piece) : Prop :=
  (∀ p ∈ pieces, p.write = none) ∧ ∃ bytes, received pieces = some bytes ∧ size + bytes.length ≤ maxBytes

section Spooled
variable {path : String} {maxBytes : Nat} {message : String} {files : Files}

theorem received_cons {p : Piece} {rest : List Piece} {chunk : Bytes} (hread : p.read = .ok chunk) (hne : chunk ≠ []) :
    received (p :: rest) = (received rest).map (chunk ++ ·) := by
  cases chunk with
  | nil => exact absurd rfl hne
  | cons b chunk => rw [received, hread]

/-- All bytes are written and counted, or the first ones were and something was raised. -/
theorem writePieces_on (pieces : List Piece) {size : Nat} {held : Bytes} (hheld : files path = some held) (hsize : size ≤ maxBytes) :
    (∃ bytes, received pieces = some bytes ∧ size + bytes.length ≤ maxBytes ∧ (writePieces path maxBytes message size pieces).on files =
      (.ok (size + bytes.length), Function.update files path (some (held ++ bytes)))) ∨
    ∃ e left, (writePieces path maxBytes message size pieces).on files = (.error e, Function.update files path left) ∧
      ¬Accepted maxBytes size pieces := by
  induction pieces generalizing files size held with
  | nil => exact .inl ⟨[], rfl, hsize, by simp [writePieces, ← hheld]⟩
  | cons p rest ih =>
    simp only [writePieces, Raising.on_bind, Raising.on_lift]
    cases hread : p.read with
    | error e => exact .inr ⟨e, files path, by simp, by simp [Accepted, received, hread]⟩
    | ok chunk =>
      by_cases hend : chunk = []
      · subst hend
        exact .inl ⟨[], by simp [received, hread], hsize, by simp [← hheld]⟩
      simp only [Accepted, received_cons hread hend]
      by_cases hlarge : size + chunk.length > maxBytes
      · refine .inr ⟨tooLarge maxBytes message, files path, by simp [hend, hlarge], ?_⟩
        rintro ⟨-, bytes, hbytes, hle⟩
        obtain ⟨more, -, rfl⟩ := Option.map_eq_some_iff.mp hbytes
        rw [List.length_append] at hle
        omega
      cases hwrite : p.write with
      | some e => exact .inr ⟨e, files path, by simp [hend, hlarge], fun h => by simp [hwrite] at h⟩
      | none =>
        have hheld' : Function.update files path ((files path).map (· ++ chunk)) path = some (held ++ chunk) := by simp [hheld]
        simp only [hend, hlarge, if_false, Raising.on_bind, Raising.on_write]
        obtain ⟨bytes, hbytes, hle, hon⟩ | ⟨e, left, hon, hnot⟩ := ih hheld' (Nat.le_of_not_lt hlarge)
        · refine .inl ⟨chunk ++ bytes, by simp [hbytes], by simpa [Nat.add_assoc] using hle, ?_⟩
          rw [hon]
          simp [Nat.add_assoc]
        · refine .inr ⟨e, left, by rw [hon]; simp, ?_⟩
          rintro ⟨hwrites, bytes, hbytes, hle⟩
          obtain ⟨more, hmore, rfl⟩ := Option.map_eq_some_iff.mp hbytes
          rw [List.length_append, ← Nat.add_assoc] at hle
          exact hnot ⟨fun q hq => hwrites q (List.mem_cons_of_mem p hq), more, hmore, hle⟩

/-- The upload is on the disk with its size, or nothing is. -/
theorem spool_on (upload : Upload) (hfresh : files path = none) :
    (∃ bytes, received upload.pieces = some bytes ∧ bytes.length ≤ maxBytes ∧
      (spool path upload maxBytes message).on files = (.ok bytes.length, Function.update files path (some bytes))) ∨
    ∃ e, (spool path upload maxBytes message).on files = (.error e, files) ∧
      ¬((∀ size ∈ upload.declaredSize, size ≤ maxBytes) ∧ Accepted maxBytes 0 upload.pieces) := by
  simp only [spool, writeChunks, checkDeclared]
  split
  · rename_i hdeclared
    refine .inr ⟨_, rfl, fun h => ?_⟩
    cases hsize : upload.declaredSize with
    | none => simp [hsize] at hdeclared
    | some size =>
      have hle := h.1 size hsize
      simp only [hsize, Option.any_some, decide_eq_true_eq] at hdeclared
      omega
  · simp only [Raising.on_bind, Raising.on_pure, Raising.on_write, Raising.on_handle]
    have hheld : Function.update files path (some []) path = some [] := Function.update_self ..
    obtain ⟨bytes, hbytes, hle, hon⟩ | ⟨e, left, hon, hnot⟩ :=
      @writePieces_on path maxBytes message _ upload.pieces _ _ hheld (Nat.zero_le maxBytes)
    · exact .inl ⟨bytes, hbytes, by simpa using hle, by simp [hon]⟩
    · exact .inr ⟨e, by simp [hon, unlink, ← hfresh], fun h => hnot h.2⟩

/-- The block sees the whole upload in the file, within the limit; it is not run, and no file
changes, only where the upload is too large or something raises. The temporary file is gone
at the end, whatever the block did. -/
theorem spooled_clean (upload : Upload) (block : Nat → Disk α) (hfresh : files path = none) :
    (∃ bytes, received upload.pieces = some bytes ∧ bytes.length ≤ maxBytes ∧
      (spooled path upload maxBytes message block).on files =
        (((block bytes.length).on (Function.update files path (some bytes))).1,
          Function.update ((block bytes.length).on (Function.update files path (some bytes))).2 path none)) ∨
    ∃ e, (spooled path upload maxBytes message block).on files = (.error e, files) ∧
      ¬((∀ size ∈ upload.declaredSize, size ≤ maxBytes) ∧ Accepted maxBytes 0 upload.pieces) := by
  simp only [spooled]
  obtain ⟨bytes, hbytes, hle, hon⟩ | ⟨e, hon, hnot⟩ := spool_on upload hfresh
  · exact .inl ⟨bytes, hbytes, hle, by rw [Raising.on_bind_ok hon]; rfl⟩
  · exact .inr ⟨e, Raising.on_bind_error hon, hnot⟩

theorem spooled_clean_short :
    ((spooled "t" ⟨none, [⟨.ok [1, 2], none⟩]⟩ 2 "" fun size => return size).on fun _ => none).2 "t" = none := by
  obtain ⟨bytes, -, -, hon⟩ | ⟨e, hon, -⟩ := @spooled_clean Nat "t" 2 "" (fun _ => none) ⟨none, [⟨.ok [1, 2], none⟩]⟩
    (fun size => return size) rfl
  · simp [hon]
  · rw [hon]

end Spooled
end XgenSdk.Storage.Transfer
