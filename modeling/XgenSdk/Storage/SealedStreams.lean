import XgenSdk.Storage.Streams
import Mathlib.Data.List.Nodup

/-! Uploads write sealed streams; a stream opens exactly if an upload wrote it. -/
namespace XgenSdk.Storage.SealedStreams
open Chunks (Reader)
open Streams

/-- One call of `Aes256GcmCipher.encrypt_stream`. -/
structure Upload where
  key : Bytes
  drawn : Drawn
  source : Reader UInt8

/-- The header of every AES-256-GCM stream with this nonce. -/
def header (drawn : Drawn) : Bytes := fixedHeader 1 0 12 ++ drawn.val

namespace Upload

def run (g : Gcm) (upload : Upload) (log : List Sealing) : Except CryptoError Unit × Session :=
  ((Aes256GcmCipher.cipher g upload.key).encryptStream upload.drawn upload.source).on (Session.start log)

/-- The bytes the call leaves in its writer. -/
def output (g : Gcm) (upload : Upload) : Bytes := (upload.run g []).2.written

/-- The message the call seals. -/
def sealing (g : Gcm) (upload : Upload) : Sealing where
  key := upload.key
  nonce := upload.drawn.val
  aad := header upload.drawn
  ciphertext := xorStream (g.stream upload.key upload.drawn.val) 0 upload.source.data

end Upload

/-- Header, ciphertext and tag of a sealed message. -/
def sealedBytes (g : Gcm) (m : Sealing) : Bytes :=
  m.aad ++ (m.ciphertext ++ g.tag m.key m.nonce m.aad m.ciphertext)

/-- The messages sealed once the uploads ran one after the other. -/
def history (g : Gcm) (uploads : List Upload) : List Sealing :=
  uploads.foldl (fun log upload => (upload.run g log).2.sealings) []

theorem buildEnvelope_drawn (drawn : Drawn) : buildEnvelope 1 drawn.val = .ok (header drawn) := by
  have hlen := drawn.property
  rw [buildEnvelope_ok (by decide) (by rw [hlen]; decide), hlen]
  rfl

/-- An upload writes its header, its ciphertext and the tag, and seals one message. -/
theorem Upload.run_ok (g : Gcm) (upload : Upload) (log : List Sealing) :
    (upload.run g log).1 = .ok () ∧ (upload.run g log).2.written = sealedBytes g (upload.sealing g) ∧
      (upload.run g log).2.sealings = upload.sealing g :: log := by
  have hflat : (upload.source.chunks chunkSize).flatten = upload.source.data :=
    Reader.chunks_flatten (by decide) _
  have hrun : upload.run g log = (.ok (), Session.seal g upload.key upload.drawn.val (header upload.drawn)
      (feedAll (g.stream upload.key upload.drawn.val) (upload.source.chunks chunkSize)
        { Session.start log with written := header upload.drawn })) := by
    simp only [Upload.run, FileCipher.encryptStream, Aes256GcmCipher.cipher, Raising.on_bind, Raising.on_lift,
      buildEnvelope_drawn, put, Raising.on_write, Aes256GcmCipher.encryptBody, encryptChunks_on, digest]
    rfl
  rw [hrun]
  refine ⟨rfl, ?_, ?_⟩
  · simp [Session.seal, feedAll, Session.start, sealedBytes, Upload.sealing, hflat]
  · simp [Session.seal, feedAll, Session.start, Upload.sealing, hflat]

theorem Upload.output_eq (g : Gcm) (upload : Upload) : upload.output g = sealedBytes g (upload.sealing g) :=
  (upload.run_ok g []).2.1

theorem mem_history {g : Gcm} {uploads : List Upload} {m : Sealing} :
    m ∈ history g uploads ↔ ∃ upload ∈ uploads, upload.sealing g = m := by
  have hfold : ∀ log, m ∈ uploads.foldl (fun log upload => (upload.run g log).2.sealings) log ↔
      m ∈ log ∨ ∃ upload ∈ uploads, upload.sealing g = m := by
    induction uploads with
    | nil => simp
    | cons upload rest ih =>
      intro log
      rw [List.foldl_cons, ih, (upload.run_ok g log).2.2]
      simp only [List.mem_cons, exists_eq_or_imp]
      constructor
      · intro h
        obtain (rfl | h) | h := h
        · exact .inr (.inl rfl)
        · exact .inl h
        · exact .inr (.inr h)
      · intro h
        obtain h | rfl | h := h
        · exact .inl (.inr h)
        · exact .inl (.inl rfl)
        · exact .inr h
  rw [history, hfold]
  simp

section Opening
variable {g : Gcm} {key : Bytes} {log : List Sealing} {input : Bytes} {short : List (Option Nat)}

/-- The first two reads, those of the header, are not short. -/
def WholeHeader (short : List (Option Nat)) : Prop := ∀ m ∈ short.take 2, m = none

theorem readEnvelope_header (drawn : Drawn) (body : Bytes) (hshort : WholeHeader short) :
    readEnvelope ⟨header drawn ++ body, short⟩ =
      .ok ⟨1, drawn.val, header drawn, ⟨body, short.drop 2⟩⟩ := by
  have hlen := drawn.property
  exact readEnvelope_fixed (by rw [hlen]; rfl) (by rw [hlen]; decide) hshort

/-- The body of a sealed message opens to its plaintext. -/
theorem decryptBody_sealed {upload : Upload} {s : Session} (hmem : upload.sealing g ∈ s.sealings)
    (hfresh : s.handed = []) (short : List (Option Nat)) :
    let m := upload.sealing g
    let body : Reader UInt8 := ⟨m.ciphertext ++ g.tag m.key m.nonce m.aad m.ciphertext, short⟩
    let run := (Aes256GcmCipher.decryptBody g upload.key body upload.drawn.val (header upload.drawn)).on s
    run.1 = .ok () ∧ run.2.written = s.written ++ upload.source.data ∧
      run.2.handed.flatten = Chunks.release tagLen body.data ∧
      run.2.verified = s.verified ++ [Chunks.keep tagLen body.data] := by
  intro m body run
  have htag : (g.tag m.key m.nonce m.aad m.ciphertext).length = tagLen := g.tag_length _ _ _ _
  have hrelease : Chunks.release tagLen body.data = m.ciphertext := Chunks.release_append _ htag
  have hkeep : Chunks.keep tagLen body.data = g.tag m.key m.nonce m.aad m.ciphertext :=
    Chunks.keep_append _ htag
  have hlong : tagLen ≤ body.data.length := by
    simp only [body, List.length_append, htag]
    omega
  have hrun : run = (.ok (), judged (g.stream upload.key upload.drawn.val) body s) := by
    refine (decryptBody_judged _ _ _ upload.drawn.property hlong hfresh).trans ?_
    rw [if_pos]
    exact ⟨by rw [hkeep, hrelease]; rfl, by rw [hrelease]; exact hmem⟩
  rw [hrun]
  have hflat := released_flatten body
  refine ⟨rfl, ?_, ?_, rfl⟩
  · change s.written ++ xorStream _ s.handed.flatten.length (released body).flatten = _
    rw [hflat, hrelease, hfresh]
    change s.written ++ xorStream _ 0 (xorStream _ 0 upload.source.data) = _
    rw [xorStream_xorStream]
  · change (s.handed ++ released body).flatten = _
    rw [hfresh, List.nil_append, hflat]

/-- The call raises one of the subclasses of `StorageCryptoError`. -/
def Raises (call : Streaming Unit) (s : Session) : Prop :=
  ∃ e, (call.on s).1 = .error e ∧ e.isSubclass = true

theorem decryptBody_outcome (reader : Reader UInt8) (algHeader aad : Bytes) {s : Session}
    (hfresh : s.handed = []) :
    (∃ m ∈ s.sealings, m.key = key ∧ m.aad = aad ∧
        reader.data = m.ciphertext ++ g.tag m.key m.nonce m.aad m.ciphertext ∧ m.nonce = algHeader) ∨
      Raises (Aes256GcmCipher.decryptBody g key reader algHeader aad) s := by
  by_cases hnonce : algHeader.length = nonceLen
  · by_cases hlong : tagLen ≤ reader.data.length
    · by_cases hgood : Chunks.keep tagLen reader.data =
          g.tag key algHeader aad (Chunks.release tagLen reader.data) ∧
            ⟨key, algHeader, aad, Chunks.release tagLen reader.data⟩ ∈ s.sealings
      · refine .inl ⟨_, hgood.2, rfl, rfl, ?_, rfl⟩
        rw [← hgood.1, Chunks.release_append_keep]
      · have hrun := congrArg Prod.fst (decryptBody_judged g key aad hnonce hlong hfresh)
        rw [if_neg hgood] at hrun
        exact .inr ⟨_, hrun, rfl⟩
    · exact .inr ⟨_, congrArg Prod.fst (decryptBody_short g key aad hnonce (by omega)), rfl⟩
  · exact .inr ⟨_, congrArg Prod.fst (decryptBody_badNonce g key aad hnonce), rfl⟩

theorem readEnvelope_error {reader : Reader UInt8} {e : CryptoError} (h : readEnvelope reader = .error e) :
    e.isSubclass = true := by
  unfold readEnvelope at h
  dsimp only at h
  split at h
  · rw [← Except.error.inj h]
    rfl
  split at h
  · rw [← Except.error.inj h]
    rfl
  split at h
  · rw [← Except.error.inj h]
    rfl
  split at h
  · rw [← Except.error.inj h]
    rfl
  split at h
  · rw [← Except.error.inj h]
    rfl
  · cases h

/-- What opens is, byte for byte, a message sealed under the key. -/
def Opens (g : Gcm) (key : Bytes) (log : List Sealing) (input : Bytes) : Prop :=
  ∃ m ∈ log, m.key = key ∧ sealedBytes g m = input

theorem envelope_outcome (g : Gcm) (key : Bytes) (log : List Sealing) {e : Envelope}
    (h : readEnvelope ⟨input, short⟩ = .ok e) :
    Opens g key log input ∨
      Raises (Aes256GcmCipher.decryptBody g key e.body e.algHeader e.aad) (Session.start log) := by
  obtain ⟨id, high, low, haad, -, -, -, hdata⟩ := readEnvelope_ok h
  obtain ⟨m, hmem, hkey, hm, hbody, -⟩ | hraise :=
    decryptBody_outcome (g := g) (s := Session.start log) e.body e.algHeader e.aad rfl
  · exact .inl ⟨m, hmem, hkey, by rw [sealedBytes, ← hbody, hm, ← hdata]⟩
  · exact .inr hraise

theorem Raises.of_error {α : Type} {x : Except CryptoError α} {f : α → Streaming Unit} {s : Session}
    {e : CryptoError} (h : x = .error e) (he : e.isSubclass = true) : Raises (Raising.lift x >>= f) s :=
  ⟨e, by rw [Raising.on_bind, Raising.on_lift, h], he⟩

theorem Raises.of_ok {α : Type} {x : Except CryptoError α} {f : α → Streaming Unit} {s : Session} {a : α}
    (h : x = .ok a) (hr : Raises (f a) s) : Raises (Raising.lift x >>= f) s := by
  obtain ⟨e, he, hsub⟩ := hr
  exact ⟨e, by rw [Raising.on_bind, Raising.on_lift, h, he], hsub⟩

/-- `Aes256GcmCipher.decrypt_stream` opens sealed messages only. -/
theorem cipher_outcome (g : Gcm) (key input : Bytes) (short : List (Option Nat)) (log : List Sealing) :
    Opens g key log input ∨
      Raises ((Aes256GcmCipher.cipher g key).decryptStream ⟨input, short⟩) (Session.start log) := by
  cases henv : readEnvelope ⟨input, short⟩ with
  | error e => exact .inr (.of_error henv (readEnvelope_error henv))
  | ok e =>
    obtain hopen | hraise := envelope_outcome g key log henv
    · exact .inl hopen
    · refine .inr (.of_ok henv ?_)
      by_cases hid : e.algId ≠ (Aes256GcmCipher.cipher g key).algorithmId
      · rw [if_pos hid]
        exact ⟨_, rfl, rfl⟩
      · rw [if_neg hid]
        exact hraise

/-- A class that wrote nothing refuses everything, as its contract asks. -/
def Refuses (cls : CipherClass) : Prop :=
  ∀ key, match cls.fromKey key with
    | .error e => e.isSubclass = true
    | .ok cipher => ∀ reader algHeader aad s, Raises (cipher.decryptBody reader algHeader aad) s

theorem instance_aes {keys : KeySetting} {given : Option Bytes} {key : Bytes}
    (h : resolveKey keys given = .ok key) :
    (aes256Gcm g).instance keys given = .ok (Aes256GcmCipher.cipher g key) := by
  have hlen := resolveKey_length h
  have hfrom : Aes256GcmCipher.fromKey g (some key) = .ok (Aes256GcmCipher.cipher g key) := by
    rw [Aes256GcmCipher.fromKey, Option.filter_some_pos (by simpa using hlen)]
  change (resolveKey keys given >>= fun key => Aes256GcmCipher.fromKey g (some key)) = _
  rw [h]
  exact hfrom

theorem instance_refuses {cls : CipherClass} (hcls : Refuses cls) {keys : KeySetting} {given : Option Bytes}
    {e : Envelope} {s : Session} :
    Raises (Raising.lift (cls.instance keys given) >>= fun cipher =>
      cipher.decryptBody e.body e.algHeader e.aad) s := by
  have hfrom : ∀ key, Raises (Raising.lift (cls.fromKey key) >>= fun cipher =>
      cipher.decryptBody e.body e.algHeader e.aad) s := by
    intro key
    have h := hcls key
    cases hk : cls.fromKey key with
    | error e =>
      rw [hk] at h
      exact .of_error rfl h
    | ok cipher =>
      rw [hk] at h
      exact .of_ok rfl (h _ _ _ _)
  unfold CipherClass.instance
  split
  · cases hkey : resolveKey keys given with
    | error e => exact .of_error rfl (resolveKey_error hkey)
    | ok key => exact hfrom (some key)
  · exact hfrom none

/-- The module's `decrypt_stream` opens messages sealed under the key it resolves, and no others. -/
theorem module_outcome {others : List CipherClass} (hothers : ∀ cls ∈ others, Refuses cls)
    (keys : KeySetting) (given : Option Bytes) (input : Bytes) (short : List (Option Nat)) (log : List Sealing) :
    (∃ key, resolveKey keys given = .ok key ∧ Opens g key log input) ∨
      Raises (decryptStream (registry g others) keys ⟨input, short⟩ given) (Session.start log) := by
  cases henv : readEnvelope ⟨input, short⟩ with
  | error e => exact .inr (.of_error henv (readEnvelope_error henv))
  | ok e =>
    by_cases hid : e.algId = 1
    · have hfind : (registry g others).find? (·.algorithmId = e.algId) = some (aes256Gcm g) := by
        exact List.find?_cons_of_pos (decide_eq_true hid.symm)
      cases hkey : resolveKey keys given with
      | error err =>
        have hinstance : (aes256Gcm g).instance keys given = .error err := by
          change (resolveKey keys given >>= fun key => Aes256GcmCipher.fromKey g (some key)) = _
          rw [hkey]
          rfl
        refine .inr (.of_ok henv ?_)
        rw [hfind]
        exact .of_error hinstance (resolveKey_error hkey)
      | ok key =>
        obtain hopen | hraise := envelope_outcome g key log henv
        · exact .inl ⟨key, rfl, hopen⟩
        · refine .inr (.of_ok henv ?_)
          rw [hfind]
          exact .of_ok (instance_aes hkey) hraise
    · refine .inr (.of_ok henv ?_)
      cases hfind : (registry g others).find? (·.algorithmId = e.algId) with
      | none => exact ⟨_, rfl, rfl⟩
      | some cls =>
        have hcls : cls ∈ others := by
          rw [registry, List.find?_cons_of_neg] at hfind
          · exact List.mem_of_find?_eq_some hfind
          · exact Bool.eq_false_iff.mp (decide_eq_false (Ne.symm hid))
        exact instance_refuses (hothers cls hcls)

/-- The call wrote the plaintext, and it handed the body over piece by piece,
all but the sixteen bytes it verified. -/
structure OpensTo (run : Except CryptoError Unit × Session) (plaintext body : Bytes) : Prop where
  returned : run.1 = .ok ()
  written : run.2.written = plaintext
  handed : run.2.handed.flatten = body.take (body.length - tagLen)
  verified : run.2.verified = [body.drop (body.length - tagLen)]

/-- The part of an upload's output that follows the header. -/
def Upload.body (g : Gcm) (upload : Upload) : Bytes :=
  (upload.sealing g).ciphertext ++
    g.tag upload.key upload.drawn.val (header upload.drawn) (upload.sealing g).ciphertext

theorem Upload.output_body (g : Gcm) (upload : Upload) : upload.output g = header upload.drawn ++ upload.body g :=
  upload.output_eq g

theorem body_opens {upload : Upload} (hmem : upload.sealing g ∈ log) (short : List (Option Nat)) :
    OpensTo ((Aes256GcmCipher.decryptBody g upload.key ⟨upload.body g, short⟩ upload.drawn.val
      (header upload.drawn)).on (Session.start log)) upload.source.data (upload.body g) := by
  obtain ⟨hok, hwritten, hhanded, hverified⟩ :=
    decryptBody_sealed (g := g) (s := Session.start log) hmem rfl short
  exact ⟨hok, hwritten, hhanded, hverified⟩

theorem cipher_opens {upload : Upload} (hmem : upload.sealing g ∈ log) (hshort : WholeHeader short) :
    OpensTo (((Aes256GcmCipher.cipher g upload.key).decryptStream ⟨upload.output g, short⟩).on
      (Session.start log)) upload.source.data (upload.body g) := by
  have hrun : ((Aes256GcmCipher.cipher g upload.key).decryptStream ⟨upload.output g, short⟩).on
      (Session.start log) = (Aes256GcmCipher.decryptBody g upload.key ⟨upload.body g, short.drop 2⟩
        upload.drawn.val (header upload.drawn)).on (Session.start log) := by
    rw [FileCipher.decryptStream, Raising.on_bind, Raising.on_lift, upload.output_body,
      readEnvelope_header _ _ hshort]
    rfl
  rw [hrun]
  exact body_opens hmem _

theorem module_opens {upload : Upload} (hmem : upload.sealing g ∈ log) (hshort : WholeHeader short)
    (others : List CipherClass) {keys : KeySetting} {given : Option Bytes}
    (hkey : resolveKey keys given = .ok upload.key) :
    OpensTo ((decryptStream (registry g others) keys ⟨upload.output g, short⟩ given).on
      (Session.start log)) upload.source.data (upload.body g) := by
  have hrun : (decryptStream (registry g others) keys ⟨upload.output g, short⟩ given).on
      (Session.start log) = (Aes256GcmCipher.decryptBody g upload.key ⟨upload.body g, short.drop 2⟩
        upload.drawn.val (header upload.drawn)).on (Session.start log) := by
    rw [decryptStream, Raising.on_bind, Raising.on_lift, upload.output_body, readEnvelope_header _ _ hshort]
    change (Raising.lift ((aes256Gcm g).instance keys given) >>= _).on _ = _
    rw [instance_aes hkey]
    rfl
  rw [hrun]
  exact body_opens hmem _

/-- Whatever comes of it, the body reaches the cipher once and in order. -/
theorem decryptBody_calls (g : Gcm) (key aad : Bytes) (drawn : Drawn) (reader : Reader UInt8) (log : List Sealing) :
    let run := (Aes256GcmCipher.decryptBody g key reader drawn.val aad).on (Session.start log)
    run.2.handed.flatten = reader.data.take (reader.data.length - tagLen) ∧
      run.2.verified = if tagLen ≤ reader.data.length then
        [reader.data.drop (reader.data.length - tagLen)] else [] := by
  intro run
  by_cases hlong : tagLen ≤ reader.data.length
  · have hrun : run = _ := decryptBody_judged g key aad drawn.property hlong rfl
    rw [hrun, if_pos hlong]
    exact ⟨released_flatten reader, rfl⟩
  · have hrun : run = _ := decryptBody_short g key aad drawn.property (by omega)
    rw [hrun, if_neg hlong]
    exact ⟨released_flatten reader, rfl⟩

/-- A strict prefix of an upload's output is no upload's output. -/
theorem prefix_not_output {uploads : List Upload} (hfresh : (uploads.map (·.drawn)).Nodup) {upload : Upload}
    (hmem : upload ∈ uploads) (hbefore : input <+: upload.output g) (hne : input ≠ upload.output g)
    {other : Upload} (hother : other ∈ uploads) : input ≠ other.output g := by
  intro heq
  have hheader : header other.drawn <+: upload.output g := by
    refine List.IsPrefix.trans ?_ hbefore
    rw [heq, other.output_body]
    exact List.prefix_append _ _
  have hdrawn : other.drawn = upload.drawn := by
    rw [upload.output_body] at hheader
    have hsame : header other.drawn = header upload.drawn := by
      have hlen : (header other.drawn).length = (header upload.drawn).length := by
        simp [header, other.drawn.property, upload.drawn.property]
      exact (List.prefix_of_prefix_length_le hheader (List.prefix_append _ _) (Nat.le_of_eq hlen)).eq_of_length hlen
    exact Subtype.ext (List.append_cancel_left hsame)
  have hsame : other = upload := List.inj_on_of_nodup_map hfresh hother hmem hdrawn
  exact hne (heq.trans (by rw [hsame]))

end Opening

/-- AES-256-GCM on five bytes under the zero key and nonce: the key stream, and the tag of `hello`. -/
def zeroGcm : Gcm where
  stream := fun _ _ pos =>
    [206, 167, 64, 61, 77, 96, 107, 110, 7, 78, 197, 211, 186, 243, 157, 24].getD pos 0
  tag := fun _ _ _ _ => [95, 88, 164, 247, 57, 204, 204, 164, 205, 95, 207, 95, 17, 96, 79, 137]
  tag_length := fun _ _ _ _ => rfl

def hello : Upload where
  key := List.replicate 32 0
  drawn := ⟨List.replicate 12 0, rfl⟩
  source := ⟨[104, 101, 108, 108, 111], [some 1, none]⟩

end XgenSdk.Storage.SealedStreams
