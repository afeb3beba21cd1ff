import Mathlib.Data.List.TakeWhile
import XgenSdk.Storage.FolderZip
import XgenSdk.Storage.FolderZipWalk

/-! What the archive of a plan holds when downloads fail: an entry for each directory
and each file that was read, and one note under a name that may be taken. -/
namespace XgenSdk.Storage.FolderZip
open Py (Json)
variable {κ ι : Type}

def ZipPlan.paths (plan : ZipPlan ι) : List Name := plan.dirs ++ plan.files.map (·.arcname)

/-- The names the plan's own entries have. -/
def ZipPlan.names (plan : ZipPlan ι) : List Name := plan.dirs.map (· ++ ['/']) ++ plan.files.map (·.arcname)

/-- Where an entry is unpacked: a directory has a slash at its end. -/
def ZipEntry.path (entry : ZipEntry) : Name :=
  if entry.info.filename.getLast? = some '/' then entry.info.filename.dropLast else entry.info.filename

/-- The files of the plan that are not read. -/
def unread (s : Streaming ι) (plan : ZipPlan ι) : List Name :=
  (plan.files.zipIdx.filter fun f => (s.download f.2 f.1.item).isNone).map fun f => f.1.arcname

/-- No path of the plan folds like the name. -/
def Free (cf : CaseFolding) (plan : ZipPlan ι) (name : Name) : Prop := ∀ p ∈ plan.paths, cf.fold p ≠ cf.fold name

/-- Nothing the plan names gets lost. -/
structure Complete (cf : CaseFolding) (s : Streaming ι) (plan : ZipPlan ι) (archive : List ZipEntry) : Prop where
  dirs : ∀ d ∈ plan.dirs, ∃ written, archive.filter (fun e => e.info.filename = d ++ ['/']) = [written]
  files : ∀ n entry blob, plan.files[n]? = some entry → s.download n entry.item = some blob →
    ∃ written, archive.filter (fun e => e.info.filename = entry.arcname) = [written] ∧ (s.chunk ≠ 0 → written.data = blob)
  note : unread s plan ≠ [] → ∃ note header,
    archive.filter (fun e => e.info.filename ∉ plan.names) = [note] ∧
    note.data = Py.utf8Bytes (header ++ (unread s plan).flatMap fun path => path ++ [':', ' '] ++ unreadable ++ ['\n']) ∧
    Free cf plan note.info.filename
  apart : (archive.map fun e => cf.fold e.path).Nodup

def Streaming.now (s : Streaming ι) : Stamp := zipDate (s.clock 0) none

/-- Every path that is written, and every date, has room in a header. -/
def Headed (s : Streaming ι) (plan : ZipPlan ι) : Prop :=
  (∀ d ∈ plan.dirs, (dirInfo s.now d).Fits) ∧
  ∀ n entry blob, plan.files[n]? = some entry → s.download n entry.item = some blob →
    ∃ date, s.dateOf entry.item = .ok date ∧ (fileInfo s.lower entry.arcname (zipDate (s.clock (n + 1)) date)).Fits

/-- The first name is free, or a file has it and the second one is. -/
def NoteFree (cf : CaseFolding) (s : Streaming ι) (plan : ZipPlan ι) : Prop :=
  Free cf plan (under plan.root failedNote) ∧ (noteInfo s.now (under plan.root failedNote)).Fits ∨
    (∃ f ∈ plan.files, cf.fold f.arcname = cf.fold (under plan.root failedNote)) ∧
      Free cf plan (under plan.root ('_' :: failedNote)) ∧ (noteInfo s.now (under plan.root ('_' :: failedNote))).Fits

/-- A path has a last character, which is no slash, and no null. -/
structure IsPath (p : Name) : Prop where
  ends : ∃ before last, p = before ++ [last] ∧ last ≠ '/'
  no_null : '\x00' ∉ p

theorem IsSafe.isPath {seg : Name} (h : IsSafe seg) : IsPath seg := by
  refine ⟨?_, fun hmem => absurd (h.chars _ hmem) (by decide)⟩
  refine ⟨seg.dropLast, seg.getLast h.nonempty, (List.dropLast_append_getLast h.nonempty).symm, fun hlast => ?_⟩
  exact h.no_slash (hlast ▸ List.getLast_mem h.nonempty)

theorem IsPath.under {p seg : Name} (hp : IsPath p) (hseg : IsSafe seg) : IsPath (under p seg) := by
  obtain ⟨before, last, hends, hlast⟩ := hseg.isPath.ends
  refine ⟨⟨p ++ '/' :: before, last, by simp [FolderZip.under, hends], hlast⟩, fun hmem => ?_⟩
  obtain hleft | hright := List.mem_append.mp hmem
  · exact hp.no_null hleft
  · obtain hslash | hmem := List.mem_cons.mp hright
    · cases hslash
    · exact hseg.isPath.no_null hmem

theorem Placed.isPath {folders : List (FolderRow κ)} {rootId : Option κ} {root : Name} {placed : List (Option κ × Name)}
    (h : Placed folders rootId root placed) (hroot : IsSafe root) : ∀ p ∈ placed, IsPath p.2 := by
  induction h with
  | root =>
    intro p hp
    rw [List.mem_singleton.mp hp]
    exact hroot.isPath
  | child hplaced hparent hlink hseg ih =>
    intro p hp
    obtain hp | hp := List.mem_append.mp hp
    · exact ih p hp
    · rw [List.mem_singleton.mp hp]
      exact (ih _ hparent).under hseg

/-- What `stream` needs of a plan. -/
structure Planned (cf : CaseFolding) (plan : ZipPlan ι) : Prop where
  root : IsSafe plan.root
  paths : ∀ p ∈ plan.paths, IsPath p
  distinct : (plan.paths.map cf.fold).Nodup

theorem planTree_planned [DecidableEq κ] {cf : CaseFolding} {idText : κ → String} {fuel : Nat} {rootId : Option κ}
    {rootName : Json} {folders : List (FolderRow κ)} {files : List (FileRow κ ι)} {maxFiles maxBytes : Int}
    {plan : ZipPlan ι} (h : planTree cf idText fuel rootId rootName folders files maxFiles maxBytes = .ok (some plan)) :
    Planned cf plan := by
  have hroot : IsSafe (safeName rootName "folder".toList) := safeName_safe rootName folder_safe
  obtain ⟨opened, w, total, hw, -, ⟨hplan, hempty⟩ | ⟨hnone, -⟩⟩ := planTree_walked h
  · obtain rfl := Option.some.inj hplan
    have hplaced := hw.placed
    rw [hempty, List.append_nil] at hplaced
    refine ⟨hroot, fun p hp => ?_, hw.distinct⟩
    obtain rfl | ⟨d, hd, seg, hseg, rfl⟩ := hw.inside p hp
    · exact hroot.isPath
    · exact (hplaced.isPath hroot d hd).under hseg
  · cases hnone

theorem failedNote_safe : IsSafe failedNote :=
  ⟨by decide, by decide, by decide, Search.forall_mem_of_all (by decide)⟩

theorem otherNote_safe : IsSafe ('_' :: failedNote) :=
  ⟨by decide, by decide, by decide, Search.forall_mem_of_all (by decide)⟩

theorem zipName_eq {name : Name} (h : '\x00' ∉ name) : zipName name = name := by
  refine List.takeWhile_eq_self_iff.mpr fun c hc => ?_
  rw [decide_eq_true_eq]
  rintro rfl
  exact h hc

theorem IsPath.zipName {p : Name} (h : IsPath p) : zipName p = p := zipName_eq h.no_null

theorem IsPath.zipName_dir {p : Name} (h : IsPath p) : FolderZip.zipName (p ++ ['/']) = p ++ ['/'] := by
  refine zipName_eq fun hmem => ?_
  obtain hmem | hmem := List.mem_append.mp hmem
  · exact h.no_null hmem
  · cases List.mem_singleton.mp hmem

theorem IsPath.ne_dir {p : Name} (h : IsPath p) (d : Name) : p ≠ d ++ ['/'] := by
  obtain ⟨before, last, rfl, hlast⟩ := h.ends
  intro heq
  exact hlast (List.singleton_inj.mp (List.append_inj_right' heq rfl))

/-! ## The run -/

/-- What the n-th call of `download` leaves to be written, with the file and its place. -/
def Streaming.read (s : Streaming ι) (f : ZipFileEntry ι × Nat) : Option ((ZipFileEntry ι × Nat) × List UInt8) :=
  (s.download f.2 f.1.item).map fun blob => (f, blob)

def unreadFrom (s : Streaming ι) (n : Nat) (files : List (ZipFileEntry ι)) : List Name :=
  ((files.zipIdx n).filter fun f => (s.download f.2 f.1.item).isNone).map fun f => f.1.arcname

/-- The loop writes what is read and keeps the paths of the rest. -/
theorem writeFiles_eq (s : Streaming ι) (n : Nat) (files : List (ZipFileEntry ι)) :
    writeFiles s n files = (do
      let written ← ((files.zipIdx n).filterMap s.read).mapM fun r => writeFile s r.1.2 r.1.1 r.2
      return (written, (unreadFrom s n files).map fun path => (path, unreadable))) := by
  induction files generalizing n with
  | nil => rfl
  | cons f files ih =>
    cases hread : s.download n f.item with
    | none =>
      have hskip : s.read (f, n) = none := by rw [Streaming.read, hread, Option.map_none]
      simp only [writeFiles, hread, ih, List.zipIdx_cons, List.filterMap_cons_none hskip, unreadFrom,
        List.filter_cons, Option.isNone_none, if_pos, List.map_cons]
      cases ((files.zipIdx (n + 1)).filterMap s.read).mapM fun r => writeFile s r.1.2 r.1.1 r.2 <;> rfl
    | some blob =>
      have hkeep : s.read (f, n) = some ((f, n), blob) := by rw [Streaming.read, hread, Option.map_some]
      simp only [writeFiles, hread, ih, List.zipIdx_cons, List.filterMap_cons_some hkeep, unreadFrom,
        List.filter_cons, Option.isNone_some, Bool.false_eq_true, if_neg, not_false_eq_true, List.mapM_cons]
      cases writeFile s n f blob with
      | error e => rfl
      | ok first => cases ((files.zipIdx (n + 1)).filterMap s.read).mapM fun r => writeFile s r.1.2 r.1.1 r.2 <;> rfl

theorem writeEntry_ok_iff {info : ZipInfo} {data : List UInt8} {entry : ZipEntry} :
    writeEntry info data = .ok entry ↔ info.Fits ∧ entry = ⟨info, data⟩ := by
  unfold writeEntry
  by_cases h : info.Fits
  · rw [if_pos h]
    exact ⟨fun hok => ⟨h, (Except.ok.inj hok).symm⟩, fun hok => congrArg Except.ok hok.2.symm⟩
  · rw [if_neg h]
    refine iff_of_false ?_ fun hok => h hok.1
    rintro ⟨⟩

theorem writeFile_ok_iff {s : Streaming ι} {n : Nat} {f : ZipFileEntry ι} {blob : List UInt8} {entry : ZipEntry} :
    writeFile s n f blob = .ok entry ↔ ∃ date, s.dateOf f.item = .ok date ∧
      (fileInfo s.lower f.arcname (zipDate (s.clock (n + 1)) date)).Fits ∧
      entry = ⟨fileInfo s.lower f.arcname (zipDate (s.clock (n + 1)) date), copyChunks s.chunk blob⟩ := by
  constructor
  · intro h
    obtain ⟨date, hdate, h⟩ := Checks.bind_ok h
    exact ⟨date, hdate, writeEntry_ok_iff.mp h⟩
  · rintro ⟨date, hdate, h⟩
    rw [writeFile, hdate]
    exact writeEntry_ok_iff.mpr h

def reads (s : Streaming ι) (plan : ZipPlan ι) : List ((ZipFileEntry ι × Nat) × List UInt8) :=
  plan.files.zipIdx.filterMap s.read

theorem mem_reads {s : Streaming ι} {plan : ZipPlan ι} {r : (ZipFileEntry ι × Nat) × List UInt8} :
    r ∈ reads s plan ↔ plan.files[r.1.2]? = some r.1.1 ∧ s.download r.1.2 r.1.1.item = some r.2 := by
  rw [reads, List.mem_filterMap]
  constructor
  · rintro ⟨f, hf, hread⟩
    obtain ⟨blob, hblob, rfl⟩ := Option.map_eq_some_iff.mp hread
    exact ⟨List.mem_zipIdx_iff_getElem?.mp hf, hblob⟩
  · rintro ⟨hf, hblob⟩
    exact ⟨r.1, List.mem_zipIdx_iff_getElem?.mpr hf, Option.map_eq_some_iff.mpr ⟨r.2, hblob, rfl⟩⟩

def dirEntry (s : Streaming ι) (path : Name) : ZipEntry := ⟨dirInfo s.now path, []⟩

def noteEntry (cf : CaseFolding) (s : Streaming ι) (plan : ZipPlan ι) : ZipEntry :=
  ⟨noteInfo s.now (noteName cf plan), Py.utf8Bytes (noteText ((unread s plan).map fun path => (path, unreadable)))⟩

/-- The note, where there is something to note. -/
def notes (cf : CaseFolding) (s : Streaming ι) (plan : ZipPlan ι) : List ZipEntry :=
  if unread s plan = [] then [] else [noteEntry cf s plan]

theorem stream_eq (cf : CaseFolding) (s : Streaming ι) (plan : ZipPlan ι) :
    stream cf s plan = (do
      let dirs ← plan.dirs.mapM fun path => writeEntry (dirInfo s.now path) []
      let written ← (reads s plan).mapM fun r => writeFile s r.1.2 r.1.1 r.2
      if unread s plan = [] then return dirs ++ written
      let note ← writeEntry (noteInfo s.now (noteName cf plan))
        (Py.utf8Bytes (noteText ((unread s plan).map fun path => (path, unreadable))))
      return dirs ++ written ++ [note]) := by
  rw [stream]
  refine bind_congr fun dirs => ?_
  rw [writeFiles_eq, bind_assoc]
  refine bind_congr fun written => ?_
  rw [pure_bind]
  by_cases h : unread s plan = []
  · have hmap : (unreadFrom s 0 plan.files).map (fun path => (path, unreadable)) = [] := List.map_eq_nil_iff.mpr h
    exact (if_pos hmap).trans (if_pos h).symm
  · have hmap : (unreadFrom s 0 plan.files).map (fun path => (path, unreadable)) ≠ [] := fun hnil =>
      h (List.map_eq_nil_iff.mp hnil)
    exact (if_neg hmap).trans (if_neg h).symm

/-- What a run that ends has written. -/
theorem stream_ok {cf : CaseFolding} {s : Streaming ι} {plan : ZipPlan ι} {archive : List ZipEntry}
    (h : stream cf s plan = .ok archive) :
    (∀ d ∈ plan.dirs, (dirInfo s.now d).Fits) ∧ (unread s plan ≠ [] → (noteInfo s.now (noteName cf plan)).Fits) ∧
    ∃ written, List.Forall₂ (fun r e => writeFile s r.1.2 r.1.1 r.2 = .ok e) (reads s plan) written ∧
      archive = plan.dirs.map (dirEntry s) ++ written ++ notes cf s plan := by
  rw [stream_eq] at h
  obtain ⟨dirs, hdirs, h⟩ := Checks.bind_ok h
  obtain ⟨written, hwritten, h⟩ := Checks.bind_ok h
  have hdirs := (Checks.mapM_eq_ok hdirs).imp fun _ _ hd => writeEntry_ok_iff.mp hd
  have hfits : ∀ d ∈ plan.dirs, (dirInfo s.now d).Fits := fun d hd =>
    (Checks.forall₂_right hdirs.flip d hd).elim fun _ he => he.2.1
  have heq : dirs = plan.dirs.map (dirEntry s) :=
    List.forall₂_eq_eq_eq ▸ List.forall₂_map_right_iff.mpr (hdirs.flip.imp fun _ _ he => he.2)
  refine ⟨hfits, ?_⟩
  rw [notes]
  by_cases hnone : unread s plan = []
  · rw [if_pos hnone] at h ⊢
    refine ⟨fun hsome => absurd hnone hsome, written, Checks.mapM_eq_ok hwritten, ?_⟩
    rw [List.append_nil, ← heq]
    exact (Except.ok.inj h).symm
  · rw [if_neg hnone] at h ⊢
    obtain ⟨note, hnote, h⟩ := Checks.bind_ok h
    obtain ⟨hnotefits, rfl⟩ := writeEntry_ok_iff.mp hnote
    refine ⟨fun _ => hnotefits, written, Checks.mapM_eq_ok hwritten, ?_⟩
    rw [← heq]
    exact (Except.ok.inj h).symm

/-- It ends where all it writes has room. -/
theorem stream_exists {cf : CaseFolding} {s : Streaming ι} {plan : ZipPlan ι} (h : Headed s plan)
    (hnote : unread s plan ≠ [] → (noteInfo s.now (noteName cf plan)).Fits) :
    ∃ archive, stream cf s plan = .ok archive := by
  have hdirs : ∀ d ∈ plan.dirs, ∃ e, writeEntry (dirInfo s.now d) [] = .ok e := fun d hd =>
    ⟨_, writeEntry_ok_iff.mpr ⟨h.1 d hd, rfl⟩⟩
  obtain ⟨dirs, hdirs⟩ := Checks.mapM_ok_iff.mpr hdirs
  have hwrites : ∀ r ∈ reads s plan, ∃ e, writeFile s r.1.2 r.1.1 r.2 = .ok e := by
    intro r hr
    obtain ⟨hf, hblob⟩ := mem_reads.mp hr
    obtain ⟨date, hdate, hfits⟩ := h.2 r.1.2 r.1.1 r.2 hf hblob
    exact ⟨_, writeFile_ok_iff.mpr ⟨date, hdate, hfits, rfl⟩⟩
  obtain ⟨written, hwritten⟩ := Checks.mapM_ok_iff.mpr hwrites
  rw [stream_eq, hdirs, Checks.ok_bind, hwritten, Checks.ok_bind]
  by_cases hnone : unread s plan = []
  · rw [if_pos hnone]
    exact ⟨_, rfl⟩
  · rw [if_neg hnone, writeEntry_ok_iff.mpr ⟨hnote hnone, rfl⟩]
    exact ⟨_, rfl⟩

/-! ## The names in the archive -/

theorem path_of_isPath {entry : ZipEntry} (h : IsPath entry.info.filename) : entry.path = entry.info.filename := by
  obtain ⟨before, last, heq, hlast⟩ := h.ends
  rw [ZipEntry.path, if_neg]
  rw [heq, List.getLast?_concat]
  exact fun h => hlast (Option.some.inj h)

theorem path_of_dir {entry : ZipEntry} {d : Name} (h : entry.info.filename = d ++ ['/']) : entry.path = d := by
  rw [ZipEntry.path, h, List.getLast?_concat, if_pos rfl, List.dropLast_concat]

theorem reads_sublist (s : Streaming ι) (plan : ZipPlan ι) :
    ((reads s plan).map (·.1.1.arcname)).Sublist (plan.files.map (·.arcname)) := by
  have hsub : ∀ l : List (ZipFileEntry ι × Nat),
      ((l.filterMap s.read).map (·.1.1.arcname)).Sublist (l.map (·.1.arcname)) := by
    intro l
    induction l with
    | nil => exact .slnil
    | cons f l ih =>
      cases hread : s.read f with
      | none =>
        rw [List.filterMap_cons_none hread]
        exact ih.cons _
      | some r =>
        obtain ⟨blob, -, rfl⟩ := Option.map_eq_some_iff.mp hread
        rw [List.filterMap_cons_some hread]
        exact ih.cons_cons _
  have hzip : plan.files.map (·.arcname) = plan.files.zipIdx.map (·.1.arcname) := by
    rw [← List.zipIdx_map_fst 0 plan.files, List.map_map, List.zipIdx_map_fst]
    rfl
  rw [hzip]
  exact hsub _

section Names
variable {cf : CaseFolding} {s : Streaming ι} {plan : ZipPlan ι} {written : List ZipEntry} (h : Planned cf plan)
include h

theorem isPath_dir {d : Name} (hd : d ∈ plan.dirs) : IsPath d := h.paths d (List.mem_append_left _ hd)

theorem isPath_file {f : ZipFileEntry ι} (hf : f ∈ plan.files) : IsPath f.arcname :=
  h.paths _ (List.mem_append_right _ (List.mem_map_of_mem hf))

theorem isPath_noteName : IsPath (noteName cf plan) := by
  rw [noteName]
  split
  · exact h.root.isPath.under otherNote_safe
  · exact h.root.isPath.under failedNote_safe

theorem dirEntry_filename {d : Name} (hd : d ∈ plan.dirs) : (dirEntry s d).info.filename = d ++ ['/'] :=
  (isPath_dir h hd).zipName_dir

theorem noteEntry_filename : (noteEntry cf s plan).info.filename = noteName cf plan := (isPath_noteName h).zipName

theorem written_filename (hwritten : List.Forall₂ (fun r e => writeFile s r.1.2 r.1.1 r.2 = .ok e) (reads s plan) written) :
    List.Forall₂ (fun r e => e.info.filename = r.1.1.arcname ∧ e.data = copyChunks s.chunk r.2) (reads s plan) written := by
  have hboth : List.Forall₂ (fun r e => r ∈ reads s plan ∧ writeFile s r.1.2 r.1.1 r.2 = .ok e) (reads s plan) written :=
    (List.forall₂_and_left _ _).mpr ⟨fun _ hr => hr, hwritten⟩
  refine hboth.imp ?_
  rintro r e ⟨hr, hwrite⟩
  obtain ⟨date, -, -, rfl⟩ := writeFile_ok_iff.mp hwrite
  exact ⟨(isPath_file h (List.mem_of_getElem? (mem_reads.mp hr).1)).zipName, rfl⟩

theorem archive_paths (hwritten : List.Forall₂ (fun r e => writeFile s r.1.2 r.1.1 r.2 = .ok e) (reads s plan) written) :
    (plan.dirs.map (dirEntry s) ++ written).map ZipEntry.path = plan.dirs ++ (reads s plan).map (·.1.1.arcname) := by
  rw [List.map_append, List.map_map]
  congr 1
  · refine (List.map_congr_left fun d hd => ?_).trans (List.map_id' _)
    exact path_of_dir (dirEntry_filename h hd)
  · refine List.forall₂_eq_eq_eq ▸ List.forall₂_map_left_iff.mpr (List.forall₂_map_right_iff.mpr ?_)
    have hboth : List.Forall₂ (fun r e => r ∈ reads s plan ∧ e.info.filename = r.1.1.arcname ∧ e.data = copyChunks s.chunk r.2)
        (reads s plan) written := (List.forall₂_and_left _ _).mpr ⟨fun _ hr => hr, written_filename h hwritten⟩
    refine hboth.flip.imp ?_
    rintro e r ⟨hr, hname, -⟩
    have hpath : IsPath e.info.filename := hname ▸ isPath_file h (List.mem_of_getElem? (mem_reads.mp hr).1)
    rw [path_of_isPath hpath, hname]

/-- What is written before the note is apart. -/
theorem archive_apart (hwritten : List.Forall₂ (fun r e => writeFile s r.1.2 r.1.1 r.2 = .ok e) (reads s plan) written) :
    ((plan.dirs.map (dirEntry s) ++ written).map fun e => cf.fold e.path).Nodup := by
  have hmap : (plan.dirs.map (dirEntry s) ++ written).map (fun e => cf.fold e.path) =
      (plan.dirs ++ (reads s plan).map (·.1.1.arcname)).map cf.fold := by
    rw [← archive_paths h hwritten, List.map_map]
    rfl
  rw [hmap]
  exact h.distinct.sublist (((List.Sublist.refl plan.dirs).append (reads_sublist s plan)).map cf.fold)

theorem written_named (hwritten : List.Forall₂ (fun r e => writeFile s r.1.2 r.1.1 r.2 = .ok e) (reads s plan) written) :
    ∀ e ∈ plan.dirs.map (dirEntry s) ++ written, e.info.filename ∈ plan.names := by
  intro e he
  obtain he | he := List.mem_append.mp he
  · obtain ⟨d, hd, rfl⟩ := List.mem_map.mp he
    rw [dirEntry_filename h hd]
    exact List.mem_append_left _ (List.mem_map_of_mem (f := (· ++ ['/'])) hd)
  · obtain ⟨r, hr, hname, -⟩ := Checks.forall₂_right (written_filename h hwritten) e he
    rw [hname]
    exact List.mem_append_right _ (List.mem_map_of_mem (List.mem_of_getElem? (mem_reads.mp hr).1))

/-- A free name is none of an entry. -/
theorem noteName_notMem (hfree : Free cf plan (noteName cf plan)) : noteName cf plan ∉ plan.names := by
  intro hmem
  obtain hdir | hfile := List.mem_append.mp hmem
  · obtain ⟨d, -, heq⟩ := List.mem_map.mp hdir
    exact (isPath_noteName h).ne_dir d heq.symm
  · exact hfree _ (List.mem_append_right _ hfile) rfl

/-- The note is what the archive has beyond the plan. -/
theorem filter_notes (hwritten : List.Forall₂ (fun r e => writeFile s r.1.2 r.1.1 r.2 = .ok e) (reads s plan) written) :
    (plan.dirs.map (dirEntry s) ++ written ++ notes cf s plan).filter (fun e => e.info.filename ∉ plan.names) =
      (notes cf s plan).filter fun e => e.info.filename ∉ plan.names := by
  have hnone : (plan.dirs.map (dirEntry s) ++ written).filter (fun e => e.info.filename ∉ plan.names) = [] :=
    List.filter_eq_nil_iff.mpr fun e he hnot => of_decide_eq_true hnot (written_named h hwritten e he)
  rw [List.filter_append, hnone, List.nil_append]

theorem Complete.free {archive : List ZipEntry} (hcomplete : Complete cf s plan archive) (hok : stream cf s plan = .ok archive)
    (hsome : unread s plan ≠ []) : Free cf plan (noteName cf plan) := by
  obtain ⟨-, -, written, hwritten, rfl⟩ := stream_ok hok
  obtain ⟨note, -, hfilter, -, hfree⟩ := hcomplete.note hsome
  rw [filter_notes h hwritten, notes, if_neg hsome] at hfilter
  have hnote : note ∈ [noteEntry cf s plan] := (List.filter_sublist).subset (hfilter ▸ List.mem_singleton_self note)
  rwa [List.mem_singleton.mp hnote, noteEntry_filename h] at hfree

theorem complete_of_free {archive : List ZipEntry} (hok : stream cf s plan = .ok archive)
    (hfree : unread s plan ≠ [] → Free cf plan (noteName cf plan)) : Complete cf s plan archive := by
  obtain ⟨-, -, written, hwritten, rfl⟩ := stream_ok hok
  have hapart : ((plan.dirs.map (dirEntry s) ++ written ++ notes cf s plan).map fun e => cf.fold e.path).Nodup := by
    rw [notes]
    by_cases hnone : unread s plan = []
    · rw [if_pos hnone, List.append_nil]
      exact archive_apart h hwritten
    · have hpath : (noteEntry cf s plan).path = noteName cf plan :=
        (path_of_isPath ((noteEntry_filename h).symm ▸ isPath_noteName h)).trans (noteEntry_filename h)
      rw [if_neg hnone, List.map_append, List.map_singleton, ← List.concat_eq_append, List.nodup_concat, hpath]
      refine ⟨fun hmem => ?_, archive_apart h hwritten⟩
      obtain ⟨e, he, heq⟩ := List.mem_map.mp hmem
      have hin : e.path ∈ plan.paths := by
        have hmap := List.mem_map_of_mem (f := ZipEntry.path) he
        rw [archive_paths h hwritten] at hmap
        exact ((List.Sublist.refl plan.dirs).append (reads_sublist s plan)).subset hmap
      exact hfree hnone _ hin heq
  have hnames : ((plan.dirs.map (dirEntry s) ++ written ++ notes cf s plan).map fun e => e.info.filename).Nodup := by
    refine List.Nodup.of_map (fun name => cf.fold (if name.getLast? = some '/' then name.dropLast else name)) ?_
    rw [List.map_map]
    exact hapart
  refine ⟨fun d hd => ⟨dirEntry s d, ?_⟩, fun n f blob hf hblob => ?_, fun hsome => ?_, hapart⟩
  · rw [← dirEntry_filename h hd]
    exact Search.filter_eq_singleton hnames (List.mem_append_left _ (List.mem_append_left _ (List.mem_map_of_mem hd)))
  · obtain ⟨e, he, hname, hdata⟩ := Checks.forall₂_right (written_filename h hwritten).flip ((f, n), blob) (mem_reads.mpr ⟨hf, hblob⟩)
    refine ⟨e, ?_, fun hchunk => hdata.trans (copyChunks_eq hchunk blob)⟩
    rw [← hname]
    exact Search.filter_eq_singleton hnames (List.mem_append_left _ (List.mem_append_right _ he))
  · refine ⟨noteEntry cf s plan, noteHeader, ?_, ?_, ?_⟩
    · have hnot : (noteEntry cf s plan).info.filename ∉ plan.names :=
        (noteEntry_filename h).symm ▸ noteName_notMem h (hfree hsome)
      rw [filter_notes h hwritten, notes, if_neg hsome, List.filter_cons_of_pos (by exact decide_eq_true hnot),
        List.filter_nil]
    · exact congrArg (fun lines => Py.utf8Bytes (noteHeader ++ lines)) (List.flatMap_map _ _ _)
    · rw [noteEntry_filename h]
      exact hfree hsome

end Names

section Note
variable {nf : NameFolding} {s : Streaming ι} {plan : ZipPlan ι}

theorem NameFolding.fold_ne_nil (nf : NameFolding) {name : Name} (h : name ≠ []) : nf.fold name ≠ [] := by
  obtain ⟨c, rest, rfl⟩ := List.exists_cons_of_ne_nil h
  rw [CaseFolding.fold, List.flatMap_cons]
  exact fun hnil => nf.keeps c (List.append_eq_nil_iff.mp hnil).1

/-- A folded path does not end with a slash, so no directory takes the name of a file from it. -/
theorem fold_under_ne_dir {path seg : Name} (hseg : IsSafe seg) (d : Name) : nf.fold (under path seg) ≠ nf.fold d ++ ['/'] := by
  intro heq
  have hne := nf.fold_ne_nil hseg.nonempty
  rw [fold_under, ← List.dropLast_append_getLast hne, ← List.cons_append, ← List.append_assoc] at heq
  have hlast := List.singleton_inj.mp (List.append_inj_right' heq rfl)
  exact slash_notMem_fold hseg.no_slash (hlast ▸ List.getLast_mem hne)

theorem mem_usedNames {seg : Name} (hseg : IsSafe seg) :
    nf.fold (under plan.root seg) ∈ usedNames nf.toCaseFolding plan ↔
      ∃ f ∈ plan.files, nf.fold f.arcname = nf.fold (under plan.root seg) := by
  rw [usedNames, List.mem_append, List.mem_map, List.mem_map]
  refine or_iff_left ?_
  rintro ⟨d, -, heq⟩
  exact fold_under_ne_dir hseg d heq.symm

/-- The name that is taken is free, and fits. -/
theorem noteFree_iff : NoteFree nf.toCaseFolding s plan ↔
    Free nf.toCaseFolding plan (noteName nf.toCaseFolding plan) ∧ (noteInfo s.now (noteName nf.toCaseFolding plan)).Fits := by
  rw [noteName]
  by_cases htaken : ∃ f ∈ plan.files, nf.fold f.arcname = nf.fold (under plan.root failedNote)
  · rw [if_pos ((mem_usedNames failedNote_safe).mpr htaken)]
    refine ⟨fun h => h.elim (fun h => ?_) And.right, fun h => .inr ⟨htaken, h⟩⟩
    obtain ⟨f, hf, heq⟩ := htaken
    exact absurd heq (h.1 _ (List.mem_append_right _ (List.mem_map_of_mem hf)))
  · rw [if_neg (mt (mem_usedNames failedNote_safe).mp htaken)]
    exact ⟨fun h => h.elim id fun h => absurd h.1 htaken, .inl⟩

end Note

def asciiNames : NameFolding := { asciiFolding with keeps := fun _ => List.cons_ne_nil _ _ }

/-- Every download fails. -/
def failing : Streaming String := ⟨fun _ => zipEpoch, id, fun _ => .ok none, 1024, fun _ _ => none⟩

def plainPlan : ZipPlan String := ⟨"r".toList, ["r".toList], [⟨"r/a".toList, "file"⟩], 3⟩

/-- A folder is called like the note. -/
def notePlan : ZipPlan String :=
  ⟨"r".toList, ["r".toList, "r/받지 못한 파일.txt".toList], [⟨"r/a".toList, "file"⟩], 3⟩

end XgenSdk.Storage.FolderZip
