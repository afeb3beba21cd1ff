import XgenSdk.Lib.Search
import XgenSdk.Storage.Files
import XgenSdk.Storage.SealedStreams

/-! What stands in the cache directory after any sequence of downloads. -/
namespace XgenSdk.Storage.ImageCache
open Py (Path basename splitext joinPath)
open Raising

/-- The path ends, in some letter case, in an extension of image files. -/
def ImagePath (path : Path) : Prop := ∃ ext ∈ imageExtensions, ext <:+ Py.lower path

/-- The names of the client's unfinished downloads. -/
def partFiles : Set Path := {path | ['.', 'p', 'a', 'r', 't', '.', 'm', 'i', 'n', 'i', 'o'] <:+ path}

theorem lower_append (a b : List Char) : Py.lower (a ++ b) = Py.lower a ++ Py.lower b := List.map_append

theorem lower_suffix {a b : List Char} (h : a <:+ b) : Py.lower a <:+ Py.lower b := by
  obtain ⟨rest, rfl⟩ := h
  exact ⟨Py.lower rest, (lower_append rest a).symm⟩

theorem localPath_image (s : Service) {objectName : List Char} (h : isImage objectName) :
    ImagePath (localPath s objectName) :=
  ⟨_, h, lower_suffix ((Py.splitext_suffix _).trans (joinPath_suffix _ _))⟩

/-- An extension fits into any longer end of the path. -/
theorem extension_suffix {path ending : Path} (h : ImagePath path) (hend : ending <:+ path) (hlen : 5 ≤ ending.length) :
    ∃ ext ∈ imageExtensions, ext <:+ Py.lower ending := by
  obtain ⟨ext, hext, hsuffix⟩ := h
  have hshort : ∀ ext ∈ imageExtensions, ext.length ≤ 5 := by decide
  have hle : ext.length ≤ (Py.lower ending).length := by
    have := hshort ext hext
    rw [Py.lower, List.length_map]
    omega
  exact ⟨ext, hext, List.suffix_of_suffix_length_le hsuffix (lower_suffix hend) hle⟩

theorem sidePath_not_image (path : Path) : ¬ ImagePath (sidePath path) := by
  intro h
  obtain ⟨ext, hext, hsuffix⟩ := extension_suffix h (List.suffix_append path sideSuffix) (by decide)
  have hnone : ∀ ext ∈ imageExtensions, ¬ ext <:+ Py.lower sideSuffix := by decide
  exact hnone ext hext hsuffix

theorem partFiles_not_image {path : Path} (h : path ∈ partFiles) : ¬ ImagePath path := by
  intro himage
  obtain ⟨ext, hext, hsuffix⟩ := extension_suffix himage h (by decide)
  have hnone : ∀ ext ∈ imageExtensions, ¬ ext <:+ Py.lower ['.', 'p', 'a', 'r', 't', '.', 'm', 'i', 'n', 'i', 'o'] := by
    decide
  exact hnone ext hext hsuffix

/-- The eight characters that `mkstemp` draws hold no dot. -/
theorem isTemp_not_image {path : Path} (h : IsTemp path) : ¬ ImagePath path := by
  obtain ⟨dir, ⟨suffix, hlen, hchars⟩, rfl⟩ := h
  intro himage
  have hend : suffix <:+ joinPath dir (tempPrefix ++ suffix) :=
    (List.suffix_append tempPrefix suffix).trans (joinPath_suffix _ _)
  obtain ⟨ext, hext, hsuffix⟩ := extension_suffix himage hend (by omega)
  have hdot : ∀ ext ∈ imageExtensions, '.' ∈ ext := by decide
  obtain ⟨c, hc, hlower⟩ := List.mem_map.mp (hsuffix.subset (hdot ext hext))
  have hno : ∀ c ∈ tempCharacters, c.toLower ≠ '.' := Search.forall_mem_of_all (by decide)
  exact hno c (hchars c hc) hlower

/-- What the service's `fget_object` does: on success the stored bytes are at the
path, on failure there is nothing new; it leaves no other file but its parts. -/
def Fetches (s : Service) : Prop :=
  ∀ bucketName objectName path d, Spec (· = d) (s.fgetObject bucketName objectName path)
    (fun _ t => d.Agrees (insert path partFiles) t ∧
      ∃ o, s.objects bucketName objectName = some o ∧ t.files path = some o.stored)
    (fun t => d.Agrees (insert path partFiles) t ∧ (t.files path = d.files path ∨ t.files path = none))

/-- Encrypted: whatever key opens the stored bytes, it opens them to the content. -/
def Sealed (m : Machine) (o : StoredObject) : Prop :=
  isEncryptedData o.stored = true ∧ ∀ plain, m.Opens none o.stored plain → plain = o.content

section Upload
open SealedStreams
variable {g : Gcm} {others : List CipherClass} {uploads : List Upload} {upload : Upload} {log : List Sealing}

theorem decryptStream_output (keys : KeySetting) :
    (decryptStream (registry g others) keys (Chunks.Reader.full (upload.output g)) none).on (Session.start log) =
      (Raising.lift ((aes256Gcm g).instance keys none) >>= fun cipher =>
        cipher.decryptBody ⟨upload.body g, []⟩ upload.drawn.val (header upload.drawn)).on (Session.start log) := by
  rw [decryptStream, on_bind, on_lift, Chunks.Reader.full, upload.output_body, readEnvelope_header _ _ (by simp [WholeHeader])]
  change (Raising.lift ((aes256Gcm g).instance keys none) >>= _).on _ = _
  rfl

theorem instance_error {keys : KeySetting} {e : CryptoError} (h : resolveKey keys none = .error e) :
    (aes256Gcm g).instance keys none = .error e := by
  change (resolveKey keys none >>= fun key => Aes256GcmCipher.fromKey g (some key)) = _
  rw [h]
  rfl

/-- Only the key of the upload opens what it stored, when no other upload drew its nonce. -/
theorem key_of_opened (hfresh : (uploads.map (·.drawn)).Nodup) (hmem : upload ∈ uploads) {key : Bytes} {s : Session}
    (h : (Aes256GcmCipher.decryptBody g key ⟨upload.body g, []⟩ upload.drawn.val (header upload.drawn)).on
      (Session.start (history g uploads)) = (.ok (), s)) : key = upload.key := by
  have houtcome : _ ∨ Raises (Aes256GcmCipher.decryptBody g key ⟨upload.body g, []⟩ upload.drawn.val
      (header upload.drawn)) (Session.start (history g uploads)) := decryptBody_outcome _ _ _ rfl
  obtain ⟨sealing, hsealing, hkey, -, -, hnonce⟩ | ⟨e, herror, -⟩ := houtcome
  · obtain ⟨other, hother, rfl⟩ := mem_history.mp hsealing
    have hdrawn : other.drawn = upload.drawn := Subtype.ext hnonce
    rw [← hkey, List.inj_on_of_nodup_map hfresh hother hmem hdrawn]
    rfl
  · rw [h] at herror
    cases herror

/-- An upload with AES-256-GCM under a nonce of its own stores an object encrypted. -/
theorem sealed_upload {m : Machine} (hclasses : m.classes = registry g others)
    (hsealings : m.sealings = history g uploads) (hfresh : (uploads.map (·.drawn)).Nodup) (hmem : upload ∈ uploads) :
    Sealed m ⟨upload.source.data, upload.output g⟩ := by
  refine ⟨by simp [upload.output_body, isEncryptedData, header, Streams.fixedHeader, magic], ?_⟩
  rintro plain ⟨n, session, hrun, rfl⟩
  rw [hclasses, hsealings, decryptStream_output] at hrun
  cases hkey : resolveKey (m.keys n) none with
  | error e =>
    rw [instance_error hkey] at hrun
    cases hrun
  | ok key =>
    rw [instance_aes hkey] at hrun
    have hsame : key = upload.key := key_of_opened hfresh hmem hrun
    subst hsame
    have hlog : upload.sealing g ∈ history g uploads := mem_history.mpr ⟨upload, hmem, rfl⟩
    have hopens : OpensTo (.ok (), session) upload.source.data (upload.body g) := hrun ▸ body_opens hlog []
    exact hopens.written

end Upload

/-- Every object is stored as it is, or encrypted. -/
def StoresObjects (s : Service) : Prop :=
  ∀ bucketName objectName o, s.objects bucketName objectName = some o → o.stored = o.content ∨ Sealed s.toMachine o

/-- An image file that is noted as downloaded holds what its object holds. -/
def Known (s : Service) (d : Disk) : Prop :=
  ∀ path data origin, ImagePath path → d.files path = some data → d.origin path = some origin → origin.complete = true →
    ∃ o, s.objects origin.bucketName origin.objectName = some o ∧ data = o.content

section Step
variable {s : Service} {d t : Disk} {path : Path} {changed : Set Path} {origin : Origin}

/-- Nothing is claimed of a file whose download did not return. -/
theorem Known.agrees (h : Known s d) (hagrees : d.Agrees changed t)
    (honly : ∀ q ∈ changed, ImagePath q → q = path)
    (hpath : t.files path = none ∨ ∃ origin, d.origin path = some origin ∧ origin.complete = false) : Known s t := by
  intro q data origin himage hfile horigin hcomplete
  rw [hagrees.1] at horigin
  by_cases hq : q = path
  · subst hq
    obtain hnone | ⟨origin', horigin', hincomplete⟩ := hpath
    · rw [hnone] at hfile
      cases hfile
    · obtain rfl : origin = origin' := Option.some.inj (horigin.symm.trans horigin')
      rw [hcomplete] at hincomplete
      cases hincomplete
  · have hsame : d.files q = some data := (hagrees.2 q fun hmem => hq (honly q hmem himage)).symm.trans hfile
    exact h q data origin himage hsame horigin hcomplete

theorem Known.mark (h : Known s d) (path : Path)
    (hpath : origin.complete = true → ∀ data, d.files path = some data →
      ∃ o, s.objects origin.bucketName origin.objectName = some o ∧ data = o.content) :
    Known s (d.mark path origin) := by
  intro q data origin' himage hfile horigin hcomplete
  by_cases hq : q = path
  · subst hq
    obtain rfl : origin = origin' := Option.some.inj ((Function.update_self (f := d.origin) ..).symm.trans horigin)
    exact hpath hcomplete data hfile
  · exact h q data origin' himage hfile ((Function.update_of_ne hq _ d.origin).symm.trans horigin) hcomplete

theorem Known.tick (h : Known s d) : Known s d.tick := h

theorem Known.remove (h : Known s d) (path : Path) : Known s (d.remove path) :=
  h.agrees (Disk.Agrees.rfl.remove (Set.mem_singleton path)) (fun _ hq _ => hq) (.inl (Disk.remove_files d path))

theorem insert_parts_only (path : Path) : ∀ q ∈ insert path partFiles, ImagePath q → q = path := by
  rintro q (rfl | hpart) himage
  · rfl
  · exact absurd himage (partFiles_not_image hpart)

theorem moved_only (path : Path) : ∀ q ∈ Moved path, ImagePath q → q = path := by
  rintro q (rfl | rfl | htemp) himage
  · rfl
  · exact absurd himage (sidePath_not_image path)
  · exact absurd himage (isTemp_not_image htemp)

end Step

/-- The call may rely on the disk: a file it finds under its name came whole from
the very object it asks for, and the first bytes of a download can be read where
the format says how to go on. -/
structure Trusted (s : Service) (d : Disk) (minioPath : List Char) : Prop where
  found : ∀ bucketName objectName, parseMinioPath minioPath = .ok (bucketName, objectName) →
    d.files (localPath s objectName) ≠ none →
    d.origin (localPath s objectName) = some ⟨bucketName, objectName, true⟩
  told : ∀ bucketName objectName o, parseMinioPath minioPath = .ok (bucketName, objectName) →
    s.objects bucketName objectName = some o → isEncryptedData o.stored = true →
    s.Readable (localPath s objectName) ∧ o.stored ≠ o.content

section Call
variable {s : Service} {d : Disk} {bucketName objectName : List Char} {path : Path}

/-- The object's content is at the path. -/
def Holds (s : Service) (bucketName objectName : List Char) (path : Path) (d : Disk) : Prop :=
  ∃ o, s.objects bucketName objectName = some o ∧ d.files path = some o.content

theorem decrypted_spec (hobjects : StoresObjects s) (hknown : Known s d) {o : StoredObject}
    (ho : s.objects bucketName objectName = some o)
    (htold : isEncryptedData o.stored = true → s.Readable path ∧ o.stored ≠ o.content)
    (hfile : d.files path = some o.stored) (horigin : d.origin path = some ⟨bucketName, objectName, false⟩) :
    Spec (· = d) (decryptFileInplace s.toMachine path none)
      (fun _ t => Known s t ∧ Holds s bucketName objectName path t) (Known s) := by
  have hmoved : ∀ t, d.Agrees (Moved path) t → Known s t := fun t ht =>
    hknown.agrees ht (moved_only path) (.inr ⟨_, horigin, rfl⟩)
  refine (decryptFileInplace_spec (sidePath_not_temp path) hfile).imp ?_ hmoved
  rintro - t ⟨hagrees, ⟨hsniffed, hplain⟩ | ⟨hmagic, plain, hopens, hplain⟩⟩
  · refine ⟨hmoved t hagrees, o, ho, ?_⟩
    obtain heq | hsealed := hobjects bucketName objectName o ho
    · rw [hplain, heq]
    · have hfalse := hsniffed (htold hsealed.1).1
      rw [hsealed.1] at hfalse
      cases hfalse
  · refine ⟨hmoved t hagrees, o, ho, ?_⟩
    obtain heq | hsealed := hobjects bucketName objectName o ho
    · exact absurd heq (htold hmagic).2
    · rw [hplain, hsealed.2 plain hopens]

theorem downloadFile_spec (hfetch : Fetches s) (hobjects : StoresObjects s) (hknown : Known s d)
    (htold : ∀ o, s.objects bucketName objectName = some o → isEncryptedData o.stored = true →
      s.Readable path ∧ o.stored ≠ o.content) (hmissing : d.files path = none) :
    Spec (· = d) (downloadFile s objectName path bucketName true)
      (fun _ t => Known s t ∧ Holds s bucketName objectName path t) (Known s) := by
  refine Spec.bind ((hfetch bucketName objectName path d).mono ?_) fun _ => Spec.of_eq ?_
  · rintro t ⟨hagrees, hfile⟩
    exact hknown.agrees hagrees (insert_parts_only path) (.inl (hfile.elim (·.trans hmissing) id))
  rintro t ⟨hagrees, o, ho, hfile⟩
  have hmarked : Known s (t.mark path ⟨bucketName, objectName, false⟩) := by
    intro q data origin himage hdata horigin hcomplete
    by_cases hq : q = path
    · subst hq
      obtain rfl := Option.some.inj ((Function.update_self (f := t.origin) ..).symm.trans horigin)
      cases hcomplete
    · have hsame : d.files q = some data :=
        (hagrees.2 q fun hmem => hq (insert_parts_only path q hmem himage)).symm.trans hdata
      have horigin' : d.origin q = some origin := by
        rw [← hagrees.1, ← horigin]
        exact (Function.update_of_ne hq _ t.origin).symm
      exact hknown q data origin himage hsame horigin' hcomplete
  refine Spec.bind (R := fun _ u => u = t.mark path ⟨bucketName, objectName, false⟩)
    (Spec.write fun u hu => by rw [hu]) fun _ => ?_
  have hdecrypt := decrypted_spec hobjects hmarked ho (htold o ho) hfile (Function.update_self ..)
  refine Spec.bind (R := fun _ u => Known s u ∧ Holds s bucketName objectName path u)
    (Spec.bind hdecrypt fun _ => Spec.pure fun _ hu => hu) fun _ => Spec.write ?_
  rintro u ⟨hu, o', ho', hcontent⟩
  refine ⟨hu.mark path fun _ data hdata => ⟨o', ho', ?_⟩, o', ho', hcontent⟩
  exact Option.some.inj (hdata.symm.trans hcontent)

/-- A file that is there is used, any other is downloaded. -/
theorem downloadMissing_spec (hfetch : Fetches s) (hobjects : StoresObjects s) (hknown : Known s d)
    {minioPath : List Char} (hparse : parseMinioPath minioPath = .ok (bucketName, objectName))
    (htrusted : Trusted s d minioPath) (himage : isImage objectName) :
    Spec (· = d) (downloadMissing s bucketName objectName)
      (fun _ t => Known s t ∧ Holds s bucketName objectName (localPath s objectName) t) (Known s) := by
  refine Spec.bind (pathExists_spec.mono fun _ h => h.elim) fun there => Spec.of_eq ?_
  rintro t ⟨rfl, rfl⟩
  cases hfile : t.files (localPath s objectName) with
  | none =>
    exact downloadFile_spec hfetch hobjects hknown (fun o ho => htrusted.told bucketName objectName o hparse ho) hfile
  | some data =>
    refine Spec.pure fun u hu => hu ▸ ⟨hknown, ?_⟩
    have horigin := htrusted.found bucketName objectName hparse (by rw [hfile]; exact Option.some_ne_none data)
    obtain ⟨o, ho, rfl⟩ := hknown _ data _ (localPath_image s himage) hfile horigin rfl
    exact ⟨o, ho, hfile⟩

theorem dropEmpty_spec : Spec (Known s) (dropEmpty s path) (fun _ => Known s) (Known s) := by
  refine Spec.of_eq fun d hd => Spec.bind (pathExists_spec.mono fun _ h => h.elim) fun there => Spec.of_eq ?_
  rintro t ⟨rfl, -⟩
  cases there with
  | false => exact Spec.pure fun _ h => h ▸ hd
  | true =>
    refine ignoringOSError_spec (Spec.bind (getsize_spec.mono fun _ h => h ▸ hd.tick) fun size => ?_)
    by_cases hsize : size = 0
    · rw [if_pos hsize]
      refine Spec.of_eq fun u hu => unlink_spec.imp (fun _ _ h => ?_) fun _ h => ?_
      · rw [h, hu]
        exact hd.tick.tick.remove path
      · rw [h, hu]
        exact hd.tick.tick
    · rw [if_neg hsize]
      exact Spec.pure fun u hu => hu ▸ hd.tick

theorem downloadImage_spec (hfetch : Fetches s) (hobjects : StoresObjects s) (hknown : Known s d)
    {minioPath : List Char} (hparse : parseMinioPath minioPath = .ok (bucketName, objectName))
    (htrusted : Trusted s d minioPath) (himage : isImage objectName) (info : FileInfo) :
    Spec (· = d) (downloadImage s bucketName objectName info)
      (fun given t => given = info ∧ Known s t ∧ Holds s bucketName objectName (localPath s objectName) t)
      (Known s) := by
  refine Spec.bind ((access_spec _).mono fun t ht => ht.1 ▸ hknown.tick) fun _ => Spec.of_eq ?_
  rintro - ⟨rfl, -⟩
  have htrusted' : Trusted s d.tick minioPath := ⟨htrusted.found, htrusted.told⟩
  refine Spec.handle (F := Known s) ?_ fun e =>
    Spec.bind (R := fun _ => Known s) dropEmpty_spec fun _ => Spec.throw fun _ h => h
  exact Spec.bind (downloadMissing_spec hfetch hobjects hknown.tick hparse htrusted' himage) fun _ =>
    Spec.pure fun t ht => ⟨rfl, ht⟩

/-- What a call adds to the cache is known, and a path it returns holds the object it was asked for. -/
theorem download_spec (hfetch : Fetches s) (hobjects : StoresObjects s) (hknown : Known s d) {minioPath : List Char}
    (htrusted : Trusted s d minioPath) :
    Spec (· = d) (downloadFileFromMinio s minioPath)
      (fun info t => Known s t ∧ ∀ tempPath fileType ext name, info = .image tempPath fileType ext name →
        ∃ bucketName objectName, parseMinioPath minioPath = .ok (bucketName, objectName) ∧
          Holds s bucketName objectName tempPath t) (Known s) := by
  unfold downloadFileFromMinio
  cases hparse : parseMinioPath minioPath with
  | error e => exact Spec.throw fun _ h => h ▸ hknown
  | ok parsed =>
    obtain ⟨bucketName, objectName⟩ := parsed
    by_cases himage : isImage objectName
    · dsimp only
      rw [if_pos himage]
      refine (downloadImage_spec hfetch hobjects hknown hparse htrusted himage _).imp ?_ fun _ h => h
      rintro - t ⟨rfl, ht, hholds⟩
      refine ⟨ht, fun tempPath fileType ext name hinfo => ⟨bucketName, objectName, rfl, ?_⟩⟩
      obtain rfl : localPath s objectName = tempPath := (FileInfo.image.inj hinfo).1
      exact hholds
    · dsimp only
      rw [if_neg himage]
      exact Spec.pure fun _ h => h ▸ ⟨hknown, fun _ _ _ _ hinfo => nomatch hinfo⟩

end Call

/-- Nothing is in the cache directory yet. -/
def Empty (s : Service) (d : Disk) : Prop :=
  (∀ name, '/' ∉ name → d.files (joinPath (cacheDir s) name) = none) ∧ d.origin = fun _ => none

/-- The disks after any sequence of calls that were allowed where they were made. -/
inductive Reached (s : Service) (allowed : Disk → List Char → Prop) : Disk → Prop
  | start {d : Disk} : Empty s d → Reached s allowed d
  | call {d : Disk} {minioPath : List Char} : Reached s allowed d → allowed d minioPath →
      Reached s allowed ((downloadFileFromMinio s minioPath).on d).2

/-- If the call returns a path, the file there holds the content of the object the call names. -/
def ReturnsObject (s : Service) (d : Disk) (minioPath : List Char) : Prop :=
  ∀ tempPath fileType ext name,
    ((downloadFileFromMinio s minioPath).on d).1 = .ok (.image tempPath fileType ext name) →
      ∃ bucketName objectName o, parseMinioPath minioPath = .ok (bucketName, objectName) ∧
        s.objects bucketName objectName = some o ∧
        ((downloadFileFromMinio s minioPath).on d).2.files tempPath = some o.content

theorem Reached.known {s : Service} (hfetch : Fetches s) (hobjects : StoresObjects s) {d : Disk}
    (h : Reached s (Trusted s) d) : Known s d := by
  induction h with
  | start hempty =>
    intro path data origin _ _ horigin
    rw [hempty.2] at horigin
    cases horigin
  | call _ htrusted ih =>
    exact (download_spec hfetch hobjects ih htrusted).final (fun _ _ h => h.1) (fun _ h => h) rfl

/-- In every sequence of calls that can rely on the disk they find, each returns the object it names. -/
theorem temp_path_holds_object {s : Service} (hfetch : Fetches s) (hobjects : StoresObjects s) {d : Disk}
    (hreached : Reached s (Trusted s) d) {minioPath : List Char} (htrusted : Trusted s d minioPath) :
    ReturnsObject s d minioPath := by
  intro tempPath fileType ext name h
  have hspec := download_spec hfetch hobjects (hreached.known hfetch hobjects) htrusted d rfl
  cases hon : (downloadFileFromMinio s minioPath).on d with
  | mk r t =>
    rw [hon] at h hspec
    obtain rfl : r = .ok (.image tempPath fileType ext name) := h
    obtain ⟨bucketName, objectName, hparse, o, ho, hfile⟩ := hspec.2 tempPath fileType ext name rfl
    exact ⟨bucketName, objectName, o, hparse, ho, hfile⟩

/-- `fget_object` where the store has the object and the disk takes it. -/
def fetchStored (objects : List Char → List Char → Option StoredObject) (bucketName objectName : List Char)
    (path : Path) : Files Unit :=
  match objects bucketName objectName with
  | some o => Raising.write (Disk.put · path o.stored)
  | none => throw (.store "NoSuchKey")

def logo : List Char := ['l', 'o', 'g', 'o', '.', 'p', 'n', 'g']
def greeting : List Char := ['x', '/', 'h', 'i', '.', 'J', 'P', 'G']

def shopObjects (bucketName objectName : List Char) : Option StoredObject :=
  if bucketName = ['a'] ∧ objectName = greeting then
    some ⟨SealedStreams.hello.source.data, SealedStreams.hello.output SealedStreams.zeroGcm⟩
  else if bucketName = ['a'] ∧ objectName = logo then some ⟨[1], [1]⟩
  else if bucketName = ['b'] ∧ objectName = logo then some ⟨[2], [2]⟩
  else none

/-- Two logos in two buckets, and an encrypted greeting with the key that opens it. -/
def shop (fault : Nat → Access → Option String) : Service where
  cwd := ['/']
  fault := fault
  cut := fun _ => 0
  draws := fun _ => [⟨['a', 'b', 'c', 'd', 'e', 'f', 'g', 'h'], by decide, Search.forall_mem_of_all (by decide)⟩]
  classes := registry SealedStreams.zeroGcm []
  keys := fun _ => ⟨some (.ok (.bytes SealedStreams.hello.key)), none⟩
  sealings := SealedStreams.history SealedStreams.zeroGcm [SealedStreams.hello]
  tempDir := ['/', 't', 'm', 'p']
  guessType := fun _ => none
  objects := shopObjects
  fgetObject := fetchStored shopObjects

def newDisk : Disk := ⟨fun _ => none, 0, fun _ => none⟩

theorem shop_fetches (fault : Nat → Access → Option String) : Fetches (shop fault) := by
  intro bucketName objectName path d
  change Spec _ (fetchStored shopObjects bucketName objectName path) _ _
  unfold fetchStored
  cases ho : shopObjects bucketName objectName with
  | some o =>
    exact Spec.write fun t ht => ⟨ht ▸ Disk.Agrees.rfl.put (.inl rfl), o, ho, Disk.put_files t path o.stored⟩
  | none => exact Spec.throw fun t ht => ht ▸ ⟨Disk.Agrees.rfl, .inl rfl⟩

theorem shop_storesObjects (fault : Nat → Access → Option String) : StoresObjects (shop fault) := by
  intro bucketName objectName o ho
  change shopObjects bucketName objectName = some o at ho
  unfold shopObjects at ho
  split at ho
  · obtain rfl := Option.some.inj ho
    have hfresh : ([SealedStreams.hello].map (·.drawn)).Nodup := List.nodup_singleton _
    exact .inr (sealed_upload rfl rfl hfresh (List.mem_singleton_self _))
  · left
    split at ho
    · rw [← Option.some.inj ho]
    · split at ho
      · rw [← Option.some.inj ho]
      · cases ho

theorem newDisk_empty (s : Service) : Empty s newDisk := ⟨fun _ _ => rfl, rfl⟩

def noFault (_ : Nat) (_ : Access) : Option String := none

/-- The first read of the encrypted greeting is interrupted. -/
def interrupted : Nat → Access → Option String
  | n, .stream _ _ => if n < 10 then some "[Errno 5] Input/output error" else none
  | _, _ => none

def logoIn (bucketName : Char) : List Char := bucketName :: '/' :: logo
def greetingIn (bucketName : Char) : List Char := bucketName :: '/' :: greeting

/-- Returned for the logo of the second bucket: the file of the first one. Returned
for the greeting after its decryption was interrupted: the ciphertext. -/
theorem cache_returns_other_bytes :
    (Fetches (shop noFault) ∧ StoresObjects (shop noFault) ∧
      ∃ d, Reached (shop noFault) (fun _ _ => True) d ∧ ¬ ReturnsObject (shop noFault) d (logoIn 'b')) ∧
    Fetches (shop interrupted) ∧ StoresObjects (shop interrupted) ∧
      ∃ d, Reached (shop interrupted) (fun _ _ => True) d ∧ ¬ ReturnsObject (shop interrupted) d (greetingIn 'a') := by
  have hlogo : Reached (shop noFault) (fun _ _ => True)
      ((downloadFileFromMinio (shop noFault) (logoIn 'a')).on newDisk).2 :=
    (Reached.start (newDisk_empty _)).call trivial
  have hgreeting : Reached (shop interrupted) (fun _ _ => True)
      ((downloadFileFromMinio (shop interrupted) (greetingIn 'a')).on newDisk).2 :=
    (Reached.start (newDisk_empty _)).call trivial
  refine ⟨⟨shop_fetches _, shop_storesObjects _, _, hlogo, fun h => ?_⟩,
    shop_fetches _, shop_storesObjects _, _, hgreeting, fun h => ?_⟩
  · obtain ⟨bucketName, objectName, o, hparse, ho, hfile⟩ := h _ _ _ _ rfl
    obtain ⟨rfl, rfl⟩ := Prod.mk.inj (Except.ok.inj hparse)
    obtain rfl := Option.some.inj ho
    exact absurd (Option.some.inj hfile) (by decide)
  · obtain ⟨bucketName, objectName, o, hparse, ho, hfile⟩ := h _ _ _ _ rfl
    obtain ⟨rfl, rfl⟩ := Prod.mk.inj (Except.ok.inj hparse)
    obtain rfl := Option.some.inj ho
    exact absurd (Option.some.inj hfile) (by decide)

theorem greeting_told {bucketName objectName : List Char} {o : StoredObject}
    (hparse : parseMinioPath (greetingIn 'a') = .ok (bucketName, objectName))
    (ho : (shop noFault).objects bucketName objectName = some o) (_ : isEncryptedData o.stored = true) :
    (shop noFault).Readable (localPath (shop noFault) objectName) ∧ o.stored ≠ o.content := by
  obtain ⟨rfl, rfl⟩ := Prod.mk.inj (Except.ok.inj hparse)
  obtain rfl := Option.some.inj ho
  exact ⟨fun n => ⟨rfl, rfl⟩, by decide⟩

theorem temp_path_holds_greeting :
    ReturnsObject (shop noFault) ((downloadFileFromMinio (shop noFault) (greetingIn 'a')).on newDisk).2 (greetingIn 'a') := by
  have hfirst : Trusted (shop noFault) newDisk (greetingIn 'a') :=
    ⟨fun _ _ _ h => absurd rfl h, fun _ _ _ => greeting_told⟩
  refine temp_path_holds_object (shop_fetches _) (shop_storesObjects _)
    ((Reached.start (newDisk_empty _)).call hfirst) ⟨?_, fun _ _ _ => greeting_told⟩
  intro bucketName objectName hparse _
  obtain ⟨rfl, rfl⟩ := Prod.mk.inj (Except.ok.inj hparse)
  rfl

end XgenSdk.Storage.ImageCache
