import XgenSdk.Storage.SealedStreams

/-! Reading back what was written: the reader looks at the first bytes, the
writer at the settings. -/
namespace XgenSdk.Storage.Sniff
open Chunks (Reader)
open Streams SealedStreams
variable {g : Gcm} {others : List CipherClass}

/-- A cipher of this class never writes more plaintext than it reads ciphertext. -/
def NoLonger (cls : CipherClass) : Prop :=
  ∀ key cipher, cls.fromKey key = .ok cipher → ∀ reader algHeader aad log,
    let run := (cipher.decryptBody reader algHeader aad).on (Session.start log)
    run.1 = .ok () → run.2.written.length ≤ reader.data.length

theorem aes_noLonger (g : Gcm) : NoLonger (aes256Gcm g) := by
  intro key cipher hcipher reader algHeader aad log run hok
  obtain ⟨key, rfl⟩ : ∃ key, cipher = Aes256GcmCipher.cipher g key := by
    change Aes256GcmCipher.fromKey g key = .ok cipher at hcipher
    unfold Aes256GcmCipher.fromKey at hcipher
    split at hcipher
    · exact ⟨_, (Except.ok.inj hcipher).symm⟩
    · cases hcipher
  by_cases hnonce : algHeader.length = nonceLen
  · by_cases hlong : tagLen ≤ reader.data.length
    · have hrun : run = _ := decryptBody_judged g key aad hnonce hlong rfl
      rw [hrun]
      change (xorStream _ _ (released reader).flatten).length ≤ _
      rw [xorStream_length, released_flatten, Chunks.release, List.length_take]
      omega
    · have hrun : run = _ := decryptBody_short g key aad hnonce (by omega)
      rw [hrun] at hok
      cases hok
  · have hrun : run = _ := decryptBody_badNonce g key aad hnonce
    rw [hrun] at hok
    cases hok

theorem lift_ok {α β : Type} {x : Except CryptoError α} {f : α → Streaming β} {s : Session} {b : β}
    (h : ((Raising.lift x >>= f).on s).1 = .ok b) : ∃ a, x = .ok a ∧ (Raising.lift x >>= f).on s = (f a).on s := by
  rw [Raising.on_bind, Raising.on_lift] at h ⊢
  cases x with
  | error e => cases h
  | ok a => exact ⟨a, rfl, rfl⟩

theorem instance_fromKey {cls : CipherClass} {keys : KeySetting} {given : Option Bytes} {cipher : FileCipher}
    (h : cls.instance keys given = .ok cipher) : ∃ key, cls.fromKey key = .ok cipher := by
  unfold CipherClass.instance at h
  split at h
  · cases hkey : resolveKey keys given with
    | error e =>
      rw [hkey] at h
      cases h
    | ok key =>
      rw [hkey] at h
      exact ⟨some key, h⟩
  · exact ⟨none, h⟩

/-- A header is never part of what a read returns, so the read is shorter than its input. -/
theorem decryptStream_shorter {classes : List CipherClass} (hclasses : ∀ cls ∈ classes, NoLonger cls)
    {keys : KeySetting} {given : Option Bytes} {reader : Reader UInt8} {log : List Sealing}
    (hok : ((decryptStream classes keys reader given).on (Session.start log)).1 = .ok ()) :
    ((decryptStream classes keys reader given).on (Session.start log)).2.written.length < reader.data.length := by
  obtain ⟨e, henv, hon⟩ := lift_ok hok
  rw [decryptStream, hon] at hok ⊢
  obtain ⟨id, high, low, haad, -, -, -, hdata⟩ := readEnvelope_ok henv
  have hlonger : e.body.data.length < reader.data.length := by
    rw [hdata, haad]
    simp only [List.length_append, fixedHeader, List.length_cons]
    omega
  cases hfind : classes.find? (·.algorithmId = e.algId) with
  | none =>
    rw [hfind] at hok
    cases hok
  | some cls =>
    rw [hfind] at hok
    obtain ⟨cipher, hinstance, hon⟩ := lift_ok hok
    obtain ⟨key, hkey⟩ := instance_fromKey hinstance
    dsimp only at hok ⊢
    rw [hon] at hok ⊢
    have hshort := hclasses cls (List.mem_of_find?_eq_some hfind) key cipher hkey
      e.body e.algHeader e.aad log hok
    exact Nat.lt_of_le_of_lt hshort hlonger

theorem toBytes_on (call : Streaming Unit) (log : List Sealing) : (toBytes call).on log =
    ((call.on (Session.start log)).1.map fun _ => (call.on (Session.start log)).2.written,
      (call.on (Session.start log)).2.sealings) := by
  change toBytes call log = _
  rw [toBytes]
  cases call.on (Session.start log) with
  | mk r s => cases r <;> rfl

theorem toBytes_ok {call : Streaming Unit} {log : List Sealing} {data : Bytes}
    (h : ((toBytes call).on log).1 = .ok data) :
    (call.on (Session.start log)).1 = .ok () ∧ (call.on (Session.start log)).2.written = data := by
  cases hr : call.on (Session.start log) with
  | mk r s =>
    simp only [toBytes_on, hr] at h
    cases r with
    | error e => cases h
    | ok u => exact ⟨rfl, Except.ok.inj h⟩

theorem toBytes_of_ok {call : Streaming Unit} {log : List Sealing} {s : Session}
    (h : call.on (Session.start log) = (.ok (), s)) : (toBytes call).on log = (.ok s.written, s.sealings) := by
  rw [toBytes_on, h]
  rfl

theorem decryptBytes_ne {classes : List CipherClass} (hclasses : ∀ cls ∈ classes, NoLonger cls)
    {keys : KeySetting} {given : Option Bytes} {data : Bytes} {log : List Sealing} :
    ((decryptBytes classes keys data given).on log).1 ≠ .ok data := by
  intro h
  obtain ⟨hok, hwritten⟩ := toBytes_ok h
  have hshorter := decryptStream_shorter hclasses hok
  rw [hwritten] at hshorter
  exact Nat.lt_irrefl _ hshorter

/-- The algorithm the write is asked for is AES-256-GCM, by name or by a mode other than UDE. -/
def WritesAes (setting : ModeSetting) (algorithm : Option String) : Prop :=
  algorithm = some defaultAlgorithm ∨ algorithm = none ∧ ∀ n, encryptionMode setting n ≠ .ude

theorem WritesAes.algorithm {setting : ModeSetting} {algorithm : Option String} (h : WritesAes setting algorithm)
    (n : Nat) : algorithm.getD ((resolveWriteAlgorithm setting n).getD defaultAlgorithm) = defaultAlgorithm := by
  obtain rfl | ⟨rfl, hmode⟩ := h
  · rfl
  · have hn := hmode n
    unfold resolveWriteAlgorithm
    cases hm : encryptionMode setting n with
    | disable => rfl
    | aes => rfl
    | ude => exact absurd hm hn

section Write
variable {setting : ModeSetting} {keys : KeySetting} {given : Option Bytes} {key : Bytes} {drawn : Drawn}
  {data : Bytes} {algorithm : Option String} {encrypt : Option Bool} {log : List Sealing}

theorem write_plain (hflag : resolveEncryptFlag setting 0 encrypt = false) :
    (encryptBytesIfEnabled (registry g others) setting keys drawn data given algorithm encrypt).on log =
      (.ok data, log) := by
  rw [encryptBytesIfEnabled, hflag]
  rfl

theorem write_sealed (hflag : resolveEncryptFlag setting 0 encrypt = true) (halgorithm : WritesAes setting algorithm)
    (hkey : resolveKey keys given = .ok key) :
    let upload : Upload := ⟨key, drawn, Reader.full data⟩
    (encryptBytesIfEnabled (registry g others) setting keys drawn data given algorithm encrypt).on log =
      (.ok (upload.output g), upload.sealing g :: log) := by
  intro upload
  obtain ⟨hok, hwritten, hsealings⟩ := upload.run_ok g log
  have hcipher : getCipher (registry g others) keys defaultAlgorithm given =
      .ok (Aes256GcmCipher.cipher g key) := instance_aes hkey
  have hrun : ((Aes256GcmCipher.cipher g key).encryptStream drawn (Reader.full data)).on (Session.start log) =
      (.ok (), (upload.run g log).2) := by
    rw [← hok]
    rfl
  rw [encryptBytesIfEnabled, hflag, if_neg (by decide)]
  dsimp only
  rw [halgorithm.algorithm, encryptBytes, hcipher, Raising.on_bind, Raising.on_lift]
  change (toBytes _).on log = _
  rw [toBytes_of_ok hrun, hwritten, hsealings, upload.output_eq]

theorem isEncryptedData_output (g : Gcm) (upload : Upload) : isEncryptedData (upload.output g) = true := by
  rw [upload.output_body]
  simp [isEncryptedData, header, fixedHeader, magic]

end Write

/-- A read returns the written bytes exactly if the write encrypted them or
they do not begin with the magic. -/
theorem read_returns_written_iff (g : Gcm) (others : List CipherClass) (hothers : ∀ cls ∈ others, NoLonger cls)
    (setting : ModeSetting) (keys keys' : KeySetting) (given given' : Option Bytes) (drawn : Drawn)
    (data : Bytes) (algorithm : Option String) (encrypt : Option Bool) (log : List Sealing)
    (halgorithm : WritesAes setting algorithm)
    (hkey : resolveEncryptFlag setting 0 encrypt = true → ∃ key, resolveKey keys given = .ok key)
    (hsame : resolveKey keys' given' = resolveKey keys given) :
    ∃ stored log',
      (encryptBytesIfEnabled (registry g others) setting keys drawn data given algorithm encrypt).on log =
        (.ok stored, log') ∧
      ∀ later, log' ⊆ later →
        (((decryptBytesIfEncrypted (registry g others) keys' stored given').on later).1 = .ok data ↔
          resolveEncryptFlag setting 0 encrypt = true ∨ isEncryptedData data = false) := by
  have hclasses : ∀ cls ∈ registry g others, NoLonger cls := by
    intro cls hcls
    obtain rfl | hcls := List.mem_cons.mp hcls
    · exact aes_noLonger g
    · exact hothers cls hcls
  cases hflag : resolveEncryptFlag setting 0 encrypt with
  | false =>
    refine ⟨data, log, write_plain hflag, fun later _ => ?_⟩
    cases hmagic : isEncryptedData data with
    | false =>
      rw [decryptBytesIfEncrypted, hmagic]
      simp
    | true =>
      rw [decryptBytesIfEncrypted, hmagic, if_neg (by decide)]
      simpa using decryptBytes_ne hclasses
  | true =>
    obtain ⟨key, hk⟩ := hkey hflag
    refine ⟨_, _, write_sealed hflag halgorithm hk, fun later hlater => ?_⟩
    have hopens : OpensTo ((decryptStream (registry g others) keys'
        ⟨Upload.output g ⟨key, drawn, Reader.full data⟩, []⟩ given').on (Session.start later)) data _ :=
      module_opens (hlater List.mem_cons_self) (by simp [WholeHeader]) others (hsame.trans hk)
    have hread := toBytes_of_ok (Prod.ext hopens.returned rfl)
    rw [decryptBytesIfEncrypted, isEncryptedData_output, if_neg (by decide), decryptBytes]
    simp only [true_or, iff_true]
    exact (congrArg Prod.fst hread).trans (congrArg Except.ok hopens.written)

/-- Encryption is off and the document is the text `XSE1 notes`. -/
theorem plaintext_with_magic_unreadable :
    let document : Bytes := [0x58, 0x53, 0x45, 0x31, 0x20, 0x6E, 0x6F, 0x74, 0x65, 0x73]
    let keys : KeySetting := ⟨none, none⟩
    (encryptBytesIfEnabled (registry zeroGcm []) ⟨none, none⟩ keys hello.drawn document (some hello.key)
      none none).on [] = (.ok document, []) ∧
    ∃ text, ((decryptBytesIfEncrypted (registry zeroGcm []) keys document (some hello.key)).on []).1 =
      .error (.decryption text) :=
  ⟨rfl, _, rfl⟩

/-- With the resolver answering `True`, the same document reads back. -/
theorem read_returns_written_enabled :
    let document : Bytes := [0x58, 0x53, 0x45, 0x31, 0x20, 0x6E, 0x6F, 0x74, 0x65, 0x73]
    let setting : ModeSetting := ⟨some fun _ => .ok (.bool true), none⟩
    ∃ stored log',
      (encryptBytesIfEnabled (registry zeroGcm []) setting ⟨none, none⟩ hello.drawn document
        (some hello.key) none none).on [] = (.ok stored, log') ∧
      ((decryptBytesIfEncrypted (registry zeroGcm []) ⟨none, none⟩ stored (some hello.key)).on log').1 =
        .ok document := by
  intro document setting
  obtain ⟨stored, log', hwrite, hread⟩ := read_returns_written_iff zeroGcm [] (by simp) setting
    ⟨none, none⟩ ⟨none, none⟩ (some hello.key) (some hello.key) hello.drawn document none none []
    (.inr ⟨rfl, fun _ => Mode.noConfusion⟩) (fun _ => ⟨hello.key, rfl⟩) rfl
  exact ⟨stored, log', hwrite, (hread log' (List.Subset.refl _)).mpr (.inl rfl)⟩

end XgenSdk.Storage.Sniff
