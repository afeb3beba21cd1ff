import XgenSdk.Storage.Files

/-! What a failed decryption may cost: the file at the destination, and the ciphertext that
was moved aside. -/
namespace XgenSdk.Storage
open Chunks (Reader)
open Py (Path abspath dirname joinPath)
open Raising

section Calls
variable {m : Machine} {d : Disk}

theorem access_on_none {a : Access} (h : m.fault d.calls a = none) : (access m a).on d = (.ok (), d.tick) := by
  rw [access, on_bind_ok (on_read d), on_bind_ok (on_write _ d), h]
  rfl

theorem access_on_some {a : Access} {text : String} (h : m.fault d.calls a = some text) :
    (access m a).on d = (.error (.os text), d.tick) := by
  rw [access, on_bind_ok (on_read d), on_bind_ok (on_write _ d), h]
  rfl

theorem contents_on_some {path : Path} {data : Bytes} (h : d.files path = some data) : (contents path).on d = (.ok data, d) := by
  rw [contents, on_bind_ok (on_read d), h]
  rfl

theorem contents_on_none {path : Path} (h : d.files path = none) : (contents path).on d = (.error missing, d) := by
  rw [contents, on_bind_ok (on_read d), h]
  rfl

theorem replace_on_none {source target : Path} {data : Bytes} (h : m.fault d.calls (.replace source target) = none)
    (hfile : d.files source = some data) : (replace m source target).on d = (.ok (), (d.tick.remove source).put target data) := by
  rw [replace, on_bind_ok (access_on_none h), on_bind_ok (contents_on_some (show d.tick.files source = some data from hfile))]
  rfl

theorem replace_on_some {source target : Path} {text : String} (h : m.fault d.calls (.replace source target) = some text) :
    (replace m source target).on d = (.error (.os text), d.tick) := by
  rw [replace, on_bind_error (access_on_some h)]

/-- Removing a file whatever comes of it. -/
theorem discard_on (m : Machine) (d : Disk) (path : Path) : ∃ t, (ignoringOSError (unlink m path)).on d = (.ok (), t) ∧
    (∀ q, q ≠ path → t.files q = d.files q) ∧
    t.files path = if m.fault d.calls (.unlink path) = none then none else d.files path := by
  rw [ignoringOSError]
  cases hfault : m.fault d.calls (.unlink path) with
  | some text =>
    have hunlink : (unlink m path).on d = (.error (.os text), d.tick) := on_bind_error (access_on_some hfault)
    exact ⟨d.tick, on_handle_error hunlink, fun _ _ => rfl, rfl⟩
  | none =>
    cases hfile : d.files path with
    | none =>
      have hunlink : (unlink m path).on d = (.error missing, d.tick) := by
        rw [unlink, on_bind_ok (access_on_none hfault),
          on_bind_error (contents_on_none (show d.tick.files path = none from hfile))]
      exact ⟨d.tick, on_handle_error hunlink, fun _ _ => rfl, hfile⟩
    | some data =>
      have hunlink : (unlink m path).on d = (.ok (), d.tick.remove path) := by
        rw [unlink, on_bind_ok (access_on_none hfault),
          on_bind_ok (contents_on_some (show d.tick.files path = some data from hfile))]
        rfl
      exact ⟨d.tick.remove path, on_handle_ok hunlink, fun q hq => Disk.remove_files_of_ne hq, Disk.remove_files _ _⟩

end Calls

/-! Into another file. -/

/-- What `decrypt_file` does with its temporary file. -/
def decryptVia (m : Machine) (sourcePath tmpPath destPath : Path) (key : Option Bytes) : Files Unit := do
  decryptOpened m key sourcePath tmpPath
  replace m tmpPath destPath

/-- The directory of the temporary file. -/
def tempDir (m : Machine) (destPath : Path) : Path := abspath m.cwd (orDot (dirname (abspath m.cwd destPath)))

/-- The destination is as it was, unless the call returns with the full plaintext there. -/
def KeepsDest (m : Machine) (d : Disk) (sourcePath destPath : Path) (key : Option Bytes) : Prop :=
  ((decryptFile m sourcePath destPath key).on d).2.files destPath = d.files destPath ∨
    ((decryptFile m sourcePath destPath key).on d).1 = .ok () ∧ ∃ data plain, d.files sourcePath = some data ∧
      m.Opens key data plain ∧ ((decryptFile m sourcePath destPath key).on d).2.files destPath = some plain

/-- `mkstemp` made the destination itself, the decryption failed, and so did taking the file away. -/
def Stranded (m : Machine) (d : Disk) (sourcePath destPath : Path) (key : Option Bytes) : Prop :=
  abspath m.cwd sourcePath ≠ abspath m.cwd destPath ∧ ∃ made e failed,
    (mkstemp m tempPrefix (tempDir m destPath)).on d = (.ok destPath, made) ∧
    (decryptVia m sourcePath destPath destPath key).on made = (.error e, failed) ∧
    m.fault failed.calls (.unlink destPath) ≠ none

section Dest
variable {m : Machine} {d : Disk} {sourcePath destPath : Path} {key : Option Bytes}

/-- The handler takes the temporary file away, whatever comes of it, and raises again. -/
def failVia (m : Machine) (tmpPath : Path) (e : FileError) : Files Unit := do
  ignoringOSError (unlink m tmpPath)
  throw e

theorem decryptFile_on (hne : abspath m.cwd sourcePath ≠ abspath m.cwd destPath) {tmp : Path} {made : Disk}
    (hmade : (mkstemp m tempPrefix (tempDir m destPath)).on d = (.ok tmp, made)) :
    (decryptFile m sourcePath destPath key).on d =
      (Raising.handle (decryptVia m sourcePath tmp destPath key) (failVia m tmp)).on made := by
  rw [decryptFile, if_neg hne]
  exact on_bind_ok hmade

/-- No cipher takes an empty file. -/
theorem not_opens_nil {plain : Bytes} : ¬ m.Opens key [] plain := by
  rintro ⟨n, s, hrun, -⟩
  have herror : (decryptStream m.classes (m.keys n) (Reader.full []) key).on (Session.start m.sealings) =
      (.error (.decryption "암호문 헤더가 불완전합니다 (파일 절단 또는 비암호화 데이터)."), Session.start m.sealings) := rfl
  rw [herror] at hrun
  cases hrun

/-- The temporary file is written first. -/
theorem decryptVia_spec {tmp : Path} :
    Spec (· = d) (decryptVia m sourcePath tmp destPath key)
      (fun _ t => ∃ data plain, d.files sourcePath = some data ∧ m.Opens key data plain ∧ t.files destPath = some plain)
      (d.Agrees {tmp}) := by
  refine Spec.bind decryptOpened_spec fun _ => Spec.of_eq ?_
  rintro t ⟨data, plain, hfile, hopens, hagrees, hplain⟩
  refine replace_spec.imp ?_ ?_
  · rintro - - ⟨moved, hmoved, rfl⟩
    obtain rfl : moved = plain := Option.some.inj (hmoved.symm.trans hplain)
    exact ⟨data, moved, hfile, hopens, Disk.put_files _ _ _⟩
  · rintro - rfl
    exact hagrees.tick

/-- It is there whenever the attempt fails. -/
theorem decryptVia_present {tmp : Path} :
    Spec (fun t => t.files tmp ≠ none) (decryptVia m sourcePath tmp destPath key) (fun _ _ => True) fun t => t.files tmp ≠ none := by
  refine Spec.of_eq fun s hs => Spec.bind (R := fun _ t => t.files tmp ≠ none) ?_ fun _ => Spec.of_eq fun t ht =>
    replace_spec.imp (fun _ _ _ => trivial) fun u hu => hu ▸ ht
  refine access_contents_spec _ (fun data _ _ => streamInto_spec.imp ?_ ?_) hs
  · rintro - - ⟨plain, -, rfl⟩
    rw [Disk.put_files]
    exact Option.some_ne_none plain
  · rintro - ⟨part, rfl⟩
    rw [Disk.put_files]
    exact Option.some_ne_none part

theorem keepsDest_iff : KeepsDest m d sourcePath destPath key ↔ ¬ Stranded m d sourcePath destPath key := by
  by_cases hsame : abspath m.cwd sourcePath = abspath m.cwd destPath
  · refine iff_of_true (.inl ?_) fun h => h.1 hsame
    rw [decryptFile, if_pos hsame, on_throw]
  cases hmkstemp : (mkstemp m tempPrefix (tempDir m destPath)).on d with
  | mk result made =>
    cases result with
    | error e =>
      have hon : (decryptFile m sourcePath destPath key).on d = (.error e, made) := by
        rw [decryptFile, if_neg hsame]
        exact on_bind_error hmkstemp
      have hmade : made = d.tick := (mkstemp_spec (tempDir m destPath)).on_error rfl hmkstemp
      refine iff_of_true (.inl ?_) ?_
      · rw [hon, hmade]
        rfl
      · rintro ⟨-, made', e', failed, hmade', -⟩
        rw [hmkstemp] at hmade'
        cases hmade'
    | ok tmp =>
      obtain ⟨-, hfree, hmade⟩ := (mkstemp_spec (tempDir m destPath)).on_ok rfl hmkstemp
      have hon : (decryptFile m sourcePath destPath key).on d = _ := decryptFile_on hsame hmkstemp
      cases hvia : (decryptVia m sourcePath tmp destPath key).on made with
      | mk result failed =>
        cases result with
        | ok u =>
          obtain ⟨data, plain, hfile, hopens, hplain⟩ := decryptVia_spec.on_ok rfl hvia
          rw [on_handle_ok hvia] at hon
          refine iff_of_true (.inr ⟨by rw [hon], data, plain, ?_, hopens, by rw [hon]; exact hplain⟩) ?_
          · by_cases hsource : sourcePath = tmp
            · rw [hmade, hsource, Disk.put_files] at hfile
              rw [← Option.some.inj hfile] at hopens
              exact absurd hopens not_opens_nil
            · rwa [hmade, Disk.put_files_of_ne hsource] at hfile
          · rintro ⟨-, made', e', failed', hmade', hvia', -⟩
            rw [hmkstemp] at hmade'
            obtain ⟨hok, rfl⟩ := Prod.mk.inj hmade'
            obtain rfl := Except.ok.inj hok
            rw [hvia] at hvia'
            cases hvia'
        | error e =>
          obtain ⟨t, ht, hothers, htmp⟩ := discard_on m failed tmp
          have hfail : (failVia m tmp e).on failed = (.error e, t) := on_bind_ok ht
          rw [on_handle_error hvia, hfail] at hon
          have hagrees := decryptVia_spec.on_error rfl hvia
          by_cases hdest : destPath = tmp
          · subst hdest
            have hthere : made.files destPath ≠ none := by
              rw [hmade, Disk.put_files]
              exact Option.some_ne_none _
            have hleft : failed.files destPath ≠ none := decryptVia_present.on_error hthere hvia
            by_cases hfault : m.fault failed.calls (.unlink destPath) = none
            · rw [if_pos hfault] at htmp
              refine iff_of_true (.inl (by rw [hon, htmp, hfree])) ?_
              rintro ⟨-, made', e', failed', hmade', hvia', hfault'⟩
              rw [hmkstemp] at hmade'
              obtain ⟨-, rfl⟩ := Prod.mk.inj hmade'
              rw [hvia] at hvia'
              obtain ⟨-, rfl⟩ := Prod.mk.inj hvia'
              exact hfault' hfault
            · rw [if_neg hfault] at htmp
              refine iff_of_false ?_ fun h => h ⟨hsame, made, e, failed, hmkstemp, hvia, hfault⟩
              rintro (hdest | ⟨hok, -⟩)
              · rw [hon, htmp, hfree] at hdest
                exact hleft hdest
              · rw [hon] at hok
                cases hok
          · refine iff_of_true (.inl ?_) ?_
            · rw [hon, hothers _ hdest, hagrees.2 _ hdest, hmade, Disk.put_files_of_ne hdest]
              rfl
            · rintro ⟨-, made', e', failed', hmade', -⟩
              rw [hmkstemp] at hmade'
              exact hdest (Except.ok.inj (Prod.mk.inj hmade').1).symm

end Dest

/-! In place. -/

/-- A call that raises leaves the ciphertext at the path or at its side file. -/
def KeepsSource (m : Machine) (d : Disk) (path : Path) (key : Option Bytes) : Prop :=
  ∀ data e t, d.files path = some data → (decryptFileInplace m path key).on d = (.error e, t) →
    t.files path = some data ∨ t.files (sidePath path) = some data

/-- Behind the failed decryption, the side file is taken away while nothing else holds the ciphertext: it could not be
moved back, or it was not, because something is at the path. -/
def LosesSource (m : Machine) (path : Path) (data : Bytes) (failed : Disk) : Prop :=
  failed.files path = none ∧ m.fault failed.calls (.replace (sidePath path) path) ≠ none ∧
      m.fault (failed.calls + 1) (.unlink (sidePath path)) = none ∨
    ∃ left, failed.files path = some left ∧ left ≠ data ∧ m.fault failed.calls (.unlink (sidePath path)) = none

/-- A run of which that is so. -/
def Lost (m : Machine) (d : Disk) (path : Path) (key : Option Bytes) : Prop :=
  ∃ data sniffed aside e failed, d.files path = some data ∧ (isEncryptedFile m path).on d = (.ok true, sniffed) ∧
    (replace m path (sidePath path)).on sniffed = (.ok (), aside) ∧
    (decryptFile m (sidePath path) path key).on aside = (.error e, failed) ∧ LosesSource m path data failed

section Inplace
variable {m : Machine} {d : Disk} {path : Path} {key : Option Bytes}

/-- What the handler does, whatever comes of it. -/
def restored (m : Machine) (path : Path) (data : Bytes) (failed : Disk) : Disk :=
  if failed.files path ≠ none then failed
  else if m.fault failed.calls (.replace (sidePath path) path) = none then
    (failed.tick.remove (sidePath path)).put path data
  else failed.tick

theorem restore_on {failed : Disk} {data : Bytes} (hside : failed.files (sidePath path) = some data) :
    (ignoringOSError (restoreSource m (sidePath path) path)).on failed = (.ok (), restored m path data failed) := by
  have hexists : (pathExists path).on failed = (.ok (failed.files path).isSome, failed) := rfl
  rw [ignoringOSError, restored]
  cases hfile : failed.files path with
  | some left =>
    have hnothing : (restoreSource m (sidePath path) path).on failed = (.ok (), failed) := by
      rw [restoreSource, on_bind_ok hexists, hfile]
      rfl
    rw [if_pos (Option.some_ne_none left), on_handle_ok hnothing]
  | none =>
    have hreplace : (restoreSource m (sidePath path) path).on failed = (replace m (sidePath path) path).on failed := by
      rw [restoreSource, on_bind_ok hexists, hfile]
      rfl
    rw [if_neg (by simp)]
    cases hfault : m.fault failed.calls (.replace (sidePath path) path) with
    | some text =>
      rw [on_handle_error (hreplace.trans (replace_on_some hfault)), if_neg (by simp)]
      rfl
    | none => rw [on_handle_ok (hreplace.trans (replace_on_none hfault hside)), if_pos rfl]

/-- The ciphertext is lost in exactly these cases. -/
theorem restored_iff {failed t : Disk} {data : Bytes} (hside : failed.files (sidePath path) = some data)
    (hothers : ∀ q, q ≠ sidePath path → t.files q = (restored m path data failed).files q)
    (ht : t.files (sidePath path) = if m.fault (restored m path data failed).calls (.unlink (sidePath path)) = none then none
      else (restored m path data failed).files (sidePath path)) :
    (t.files path = some data ∨ t.files (sidePath path) = some data) ↔ ¬ LosesSource m path data failed := by
  rw [hothers path (sidePath_ne path).symm, ht]
  unfold restored LosesSource
  cases hfile : failed.files path with
  | some left =>
    simp only [ne_eq, reduceCtorEq, not_false_eq_true, if_true, hfile, Option.some.injEq, false_and, false_or,
      exists_eq_left']
    by_cases hfault : m.fault failed.calls (.unlink (sidePath path)) = none
    · simp [hfault]
    · simp [hfault, hside]
  | none =>
    by_cases hreplace : m.fault failed.calls (.replace (sidePath path) path) = none
    · simp [hreplace]
    · by_cases hfault : m.fault (failed.calls + 1) (.unlink (sidePath path)) = none
      · simp [hreplace, hfault, hfile, Disk.tick]
      · simp [hreplace, hfault, hfile, hside, Disk.tick]

theorem decryptAside_on_error {aside failed : Disk} {e : FileError} {data : Bytes}
    (hrun : (decryptFile m (sidePath path) path key).on aside = (.error e, failed))
    (hside : failed.files (sidePath path) = some data) :
    ∃ t, (decryptAside m key (sidePath path) path).on aside = (.error e, t) ∧
      ((t.files path = some data ∨ t.files (sidePath path) = some data) ↔ ¬ LosesSource m path data failed) := by
  obtain ⟨t, ht, hothers, hgone⟩ := discard_on m (restored m path data failed) (sidePath path)
  refine ⟨t, on_ensuring_ok ?_ ht, restored_iff hside hothers hgone⟩
  rw [on_handle_error hrun]
  exact on_bind_ok (restore_on hside)

theorem decryptAside_on_ok {aside done : Disk} {u : Unit} (hrun : (decryptFile m (sidePath path) path key).on aside = (.ok u, done)) :
    ∃ t, (decryptAside m key (sidePath path) path).on aside = (.ok u, t) := by
  obtain ⟨t, ht, -⟩ := discard_on m done (sidePath path)
  exact ⟨t, on_ensuring_ok (on_handle_ok hrun) ht⟩

theorem decryptFileInplace_on {sniffed aside : Disk} (hsniff : (isEncryptedFile m path).on d = (.ok true, sniffed))
    (hmove : (replace m path (sidePath path)).on sniffed = (.ok (), aside)) :
    (decryptFileInplace m path key).on d = (do
      decryptAside m key (sidePath path) path
      return true : Files Bool).on aside := by
  rw [decryptFileInplace, on_bind_ok hsniff]
  exact on_bind_ok hmove

/-- Behind the move the ciphertext is in the side file, and a failed decryption leaves it there. -/
theorem moved_aside {sniffed aside failed : Disk} {data : Bytes} {e : FileError} (hfile : d.files path = some data)
    (hsniff : (isEncryptedFile m path).on d = (.ok true, sniffed))
    (hmove : (replace m path (sidePath path)).on sniffed = (.ok (), aside))
    (hrun : (decryptFile m (sidePath path) path key).on aside = (.error e, failed)) :
    failed.files (sidePath path) = some data := by
  obtain ⟨hsame, -⟩ := (isEncryptedFile_spec hfile).on_ok rfl hsniff
  obtain ⟨moved, hmoved, rfl⟩ := replace_spec.on_ok rfl hmove
  rw [hsame.2 path (Set.notMem_empty path), hfile] at hmoved
  have hagrees := (decryptFile_spec (sidePath_not_temp path)).on_error rfl hrun
  rw [hagrees.2 _ (sidePath_not_temp path), Disk.put_files, hmoved]

theorem keepsSource_iff : KeepsSource m d path key ↔ ¬ Lost m d path key := by
  constructor
  · rintro h ⟨data, sniffed, aside, e, failed, hfile, hsniff, hmove, hrun, hloses⟩
    obtain ⟨t, ht, hiff⟩ := decryptAside_on_error hrun (moved_aside hfile hsniff hmove hrun)
    have hon : (decryptFileInplace m path key).on d = (.error e, t) := by
      rw [decryptFileInplace_on hsniff hmove]
      exact on_bind_error ht
    exact hiff.mp (h data e t hfile hon) hloses
  · intro h data e t hfile hon
    cases hsniff : (isEncryptedFile m path).on d with
    | mk result sniffed =>
      cases result with
      | error e' =>
        rw [decryptFileInplace, on_bind_error hsniff] at hon
        obtain ⟨-, rfl⟩ := Prod.mk.inj hon
        have hsame := (isEncryptedFile_spec hfile).on_error rfl hsniff
        exact .inl ((hsame.2 path (Set.notMem_empty path)).trans hfile)
      | ok encrypted =>
        obtain ⟨hsame, -⟩ := (isEncryptedFile_spec hfile).on_ok rfl hsniff
        have hsniffed : sniffed.files path = some data := (hsame.2 path (Set.notMem_empty path)).trans hfile
        cases encrypted with
        | false =>
          rw [decryptFileInplace, on_bind_ok hsniff] at hon
          cases hon
        | true =>
          cases hmove : (replace m path (sidePath path)).on sniffed with
          | mk result aside =>
            cases result with
            | error e' =>
              rw [decryptFileInplace, on_bind_ok hsniff] at hon
              have hon' := (on_bind_error hmove).symm.trans hon
              obtain ⟨-, rfl⟩ := Prod.mk.inj hon'
              have haside : aside = sniffed.tick := replace_spec.on_error rfl hmove
              rw [haside]
              exact .inl hsniffed
            | ok u =>
              rw [decryptFileInplace_on hsniff hmove] at hon
              cases hrun : (decryptFile m (sidePath path) path key).on aside with
              | mk result failed =>
                cases result with
                | ok u =>
                  obtain ⟨done, hdone⟩ := decryptAside_on_ok hrun
                  rw [on_bind_ok hdone] at hon
                  cases hon
                | error e' =>
                  obtain ⟨left, hleft, hiff⟩ := decryptAside_on_error hrun (moved_aside hfile hsniff hmove hrun)
                  rw [on_bind_error hleft] at hon
                  obtain ⟨-, rfl⟩ := Prod.mk.inj hon
                  exact hiff.mpr fun hloses => h ⟨data, sniffed, aside, e', failed, hfile, hsniff, hmove, hrun, hloses⟩

end Inplace

/-- Both hold in every run but those. -/
theorem decrypt_keeps_iff (m : Machine) (d : Disk) (sourcePath destPath path : Path) (key : Option Bytes) :
    (KeepsDest m d sourcePath destPath key ↔ ¬ Stranded m d sourcePath destPath key) ∧
      (KeepsSource m d path key ↔ ¬ Lost m d path key) :=
  ⟨keepsDest_iff, keepsSource_iff⟩

/-! A rename that fails once the decryption has. -/

/-- Nothing is registered, so nothing can be decrypted, and nothing is moved back. -/
def stuckMachine : Machine where
  cwd := ['/']
  fault _ a := if a = .replace (sidePath "/a".toList) "/a".toList then some "[Errno 5] Input/output error" else none
  cut _ := 0
  draws _ := [⟨"abcdefgh".toList, by decide, by decide⟩]
  classes := []
  keys _ := ⟨none, none⟩
  sealings := []

def oneCiphertext : Disk where
  files q := if q = "/a".toList then some (magic ++ [1, 1, 0, 0]) else none
  calls := 0
  origin _ := none

theorem keepsSource_false : ¬ ∀ (m : Machine) (d : Disk) (path : Path) (key : Option Bytes), KeepsSource m d path key := by
  intro h
  have hstored : oneCiphertext.files "/a".toList = some (magic ++ [1, 1, 0, 0]) := rfl
  have hraised : ((decryptFileInplace stuckMachine "/a".toList none).on oneCiphertext).1 =
      .error (.crypto (.unsupportedAlgorithm "알 수 없는 algorithm_id=1 — SDK 버전이 낮거나 커스텀 cipher 미등록.")) := by
    decide
  have hgone : ((decryptFileInplace stuckMachine "/a".toList none).on oneCiphertext).2.files "/a".toList = none ∧
      ((decryptFileInplace stuckMachine "/a".toList none).on oneCiphertext).2.files (sidePath "/a".toList) = none := by
    decide
  cases hrun : (decryptFileInplace stuckMachine "/a".toList none).on oneCiphertext with
  | mk r t =>
    rw [hrun] at hraised hgone
    obtain hpath | hside := h stuckMachine oneCiphertext "/a".toList none _ _ t hstored (hrun.trans (Prod.ext hraised rfl))
    · exact absurd (hgone.1.symm.trans hpath) (by simp)
    · exact absurd (hgone.2.symm.trans hside) (by simp)

end XgenSdk.Storage
