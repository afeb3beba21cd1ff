import XgenSdk.Storage.Crypto

/-! What the stream calls do to a session: which pieces reach the cipher, which
tag is verified, and which inputs have a readable header. -/
namespace XgenSdk.Storage.Streams
open Chunks (Reader)
variable {stream : Nat → UInt8}

@[simp] theorem xorStream_length (pos : Nat) (data : Bytes) :
    (xorStream stream pos data).length = data.length := by
  induction data generalizing pos with
  | nil => rfl
  | cons b bs ih => simp [xorStream, ih]

theorem xorStream_append (pos : Nat) (first second : Bytes) :
    xorStream stream pos (first ++ second) =
      xorStream stream pos first ++ xorStream stream (pos + first.length) second := by
  induction first generalizing pos with
  | nil => simp [xorStream]
  | cons b bs ih =>
    have hpos : pos + 1 + bs.length = pos + (b :: bs).length := by
      rw [List.length_cons]
      omega
    rw [List.cons_append, xorStream, ih, hpos, xorStream, List.cons_append]

/-- The key stream takes itself back. -/
theorem xorStream_xorStream (pos : Nat) (data : Bytes) :
    xorStream stream pos (xorStream stream pos data) = data := by
  induction data generalizing pos with
  | nil => rfl
  | cons b bs ih => rw [xorStream, xorStream, ih, UInt8.xor_assoc, UInt8.xor_self, UInt8.xor_zero]

/-- The session after the pieces are fed one after the other. -/
def feedAll (stream : Nat → UInt8) (pieces : List Bytes) (s : Session) : Session :=
  { s with
    written := s.written ++ xorStream stream s.handed.flatten.length pieces.flatten
    handed := s.handed ++ pieces }

@[simp] theorem feedAll_nil (s : Session) : feedAll stream [] s = s := by
  simp [feedAll, xorStream]

theorem feedAll_cons (piece : Bytes) (pieces : List Bytes) (s : Session) :
    feedAll stream (piece :: pieces) s = feedAll stream pieces (s.feed stream piece) := by
  simp [feedAll, Session.feed, xorStream_append]

@[simp] theorem feedAll_sealings (pieces : List Bytes) (s : Session) :
    (feedAll stream pieces s).sealings = s.sealings := rfl

@[simp] theorem feedAll_verified (pieces : List Bytes) (s : Session) :
    (feedAll stream pieces s).verified = s.verified := rfl

theorem encryptChunks_on (chunks : List Bytes) (s : Session) :
    (Aes256GcmCipher.encryptChunks stream chunks).on s = (.ok (), feedAll stream chunks s) := by
  induction chunks generalizing s with
  | nil => simp [Aes256GcmCipher.encryptChunks]
  | cons chunk rest ih =>
    simp only [Aes256GcmCipher.encryptChunks, Raising.on_bind, feed, Raising.on_write]
    rw [ih, feedAll_cons]

/-- The loop hands over what the hold-back buffer lets go of and returns what it keeps. -/
theorem decryptChunks_on (tail : Bytes) (chunks : List Bytes) (s : Session) :
    (Aes256GcmCipher.decryptChunks stream tail chunks).on s =
      (.ok (Chunks.holdBack tagLen tail chunks).2, feedAll stream (Chunks.holdBack tagLen tail chunks).1 s) := by
  induction chunks generalizing tail s with
  | nil => simp [Aes256GcmCipher.decryptChunks, Chunks.holdBack]
  | cons chunk rest ih =>
    unfold Aes256GcmCipher.decryptChunks Chunks.holdBack
    split
    · simp only [Raising.on_bind, feed, Raising.on_write]
      rw [ih, feedAll_cons]
    · exact ih _ _

/-- The pieces `_decrypt_body` hands to `cipher.decrypt`. -/
def released (reader : Reader UInt8) : List Bytes :=
  (Chunks.holdBack tagLen [] (reader.chunks chunkSize)).1

theorem released_flatten (reader : Reader UInt8) :
    (released reader).flatten = Chunks.release tagLen reader.data := by
  have h := (Chunks.holdBack_chunks tagLen (reader.chunks chunkSize)).1
  rwa [Reader.chunks_flatten (by decide)] at h

theorem held_back (reader : Reader UInt8) :
    (Chunks.holdBack tagLen [] (reader.chunks chunkSize)).2 = Chunks.keep tagLen reader.data := by
  have h := (Chunks.holdBack_chunks tagLen (reader.chunks chunkSize)).2
  rwa [Reader.chunks_flatten (by decide)] at h

/-- The session of a call that reached `cipher.verify`. -/
def judged (stream : Nat → UInt8) (reader : Reader UInt8) (s : Session) : Session :=
  { feedAll stream (released reader) s with verified := s.verified ++ [Chunks.keep tagLen reader.data] }

section Body
variable (g : Gcm) (key aad : Bytes) {algHeader : Bytes} {reader : Reader UInt8} {s : Session}

theorem decryptBody_badNonce (h : algHeader.length ≠ nonceLen) :
    (Aes256GcmCipher.decryptBody g key reader algHeader aad).on s =
      (.error (.decryption ("AES-GCM nonce 길이 오류: " ++ toString algHeader.length)), s) := by
  rw [Aes256GcmCipher.decryptBody, if_pos h, Raising.on_throw]

theorem decryptBody_short (h : algHeader.length = nonceLen) (hshort : reader.data.length < tagLen) :
    (Aes256GcmCipher.decryptBody g key reader algHeader aad).on s =
      (.error (.decryption "암호문이 절단되었습니다 (인증 태그 불완전)."),
        feedAll (g.stream key algHeader) (released reader) s) := by
  have hkept : (Chunks.keep tagLen reader.data).length ≠ tagLen := by
    rw [Chunks.length_keep]
    omega
  rw [Aes256GcmCipher.decryptBody, if_neg (not_not_intro h), Raising.on_bind, decryptChunks_on, held_back]
  simp only [if_pos hkept, Raising.on_throw, released]

/-- A body that can hold a tag is judged by the tag it ends with. -/
theorem decryptBody_judged (h : algHeader.length = nonceLen) (hlong : tagLen ≤ reader.data.length)
    (hfresh : s.handed = []) :
    (Aes256GcmCipher.decryptBody g key reader algHeader aad).on s =
      (if Chunks.keep tagLen reader.data = g.tag key algHeader aad (Chunks.release tagLen reader.data) ∧
          ⟨key, algHeader, aad, Chunks.release tagLen reader.data⟩ ∈ s.sealings then .ok ()
        else .error (.decryption "복호화 무결성 검증 실패 — 키 불일치 또는 데이터 변조."),
        judged (g.stream key algHeader) reader s) := by
  have hkept : (Chunks.keep tagLen reader.data).length = tagLen := by
    rw [Chunks.length_keep]
    omega
  have hhanded : (feedAll (g.stream key algHeader) (released reader) s).handed.flatten =
      Chunks.release tagLen reader.data := by
    rw [feedAll, hfresh, List.nil_append, released_flatten]
  rw [Aes256GcmCipher.decryptBody, if_neg (not_not_intro h), Raising.on_bind, decryptChunks_on, held_back]
  simp only [hkept, ne_eq, not_true_eq_false, if_false, Raising.on_bind, verify, Raising.on_read,
    Raising.on_write, Raising.on_pure]
  change _ = (_, judged (g.stream key algHeader) reader s)
  have hsession : (feedAll (g.stream key algHeader)
      (Chunks.holdBack tagLen [] (reader.chunks chunkSize)).1 s).handed.flatten =
        Chunks.release tagLen reader.data := hhanded
  rw [hsession, feedAll_sealings]
  by_cases hgood : Chunks.keep tagLen reader.data =
      g.tag key algHeader aad (Chunks.release tagLen reader.data) ∧
        ⟨key, algHeader, aad, Chunks.release tagLen reader.data⟩ ∈ s.sealings
  · rw [if_pos (decide_eq_true hgood), if_pos hgood]
    rfl
  · rw [if_neg (Bool.eq_false_iff.mp (decide_eq_false hgood)), if_neg hgood]
    rfl

end Body

theorem eight_of_length {data : Bytes} (h : data.length = 8) :
    ∃ a b c d e f i j, data = [a, b, c, d, e, f, i, j] := by
  match data, h with
  | [a, b, c, d, e, f, i, j], _ => exact ⟨a, b, c, d, e, f, i, j, rfl⟩

/-- The first eight bytes, as `_build_envelope` lays them out. -/
def fixedHeader (id high low : UInt8) : Bytes := magic ++ [envelopeVersion] ++ [id] ++ [high, low]

theorem buildEnvelope_ok {id : Nat} {algHeader : Bytes} (hid : 0 < id ∧ id < 256)
    (hlen : algHeader.length ≤ maxAlgHeaderLen) :
    buildEnvelope id algHeader = .ok (fixedHeader (UInt8.ofNat id) (UInt8.ofNat (algHeader.length / 256))
      (UInt8.ofNat algHeader.length) ++ algHeader) := by
  rw [buildEnvelope, if_neg (not_not_intro hid), if_neg (by omega)]
  rfl

/-- What is accepted as a header is one, byte for byte. -/
theorem readEnvelope_ok {reader : Reader UInt8} {e : Envelope} (h : readEnvelope reader = .ok e) :
    ∃ id high low, e.aad = fixedHeader id high low ++ e.algHeader ∧ e.algId = id.toNat ∧
      high.toNat * 256 + low.toNat = e.algHeader.length ∧ e.algHeader.length ≤ maxAlgHeaderLen ∧
      reader.data = e.aad ++ e.body.data := by
  unfold readEnvelope at h
  dsimp only at h
  split at h
  · cases h
  split at h
  · cases h
  split at h
  · cases h
  split at h
  · cases h
  split at h
  · cases h
  rename_i hfixed hmagic hversion hmax hheader
  have hlen8 := not_ne_iff.mp hfixed
  have hmagic := not_ne_iff.mp hmagic
  have hversion := not_ne_iff.mp hversion
  have hheader := not_ne_iff.mp hheader
  have hrest : (reader.read fixedHeaderLen).2.data = reader.data.drop (reader.allowance fixedHeaderLen) := rfl
  have hdata : (reader.read fixedHeaderLen).1 ++ (reader.read fixedHeaderLen).2.data = reader.data :=
    List.take_append_drop _ _
  have hbody : ∀ n, ((reader.read fixedHeaderLen).2.read n).1 ++ ((reader.read fixedHeaderLen).2.read n).2.data =
      (reader.read fixedHeaderLen).2.data := fun n => List.take_append_drop _ _
  obtain ⟨a, b, c, d, v, id, high, low, hfixed⟩ := eight_of_length hlen8
  rw [hfixed] at hmagic hversion hmax hheader h hdata
  have hv : v = envelopeVersion := UInt8.toNat_inj.mp hversion
  have hm : [a, b, c, d] = magic := hmagic
  have he := Except.ok.inj h
  have hfixed' : [a, b, c, d, v, id, high, low] = fixedHeader id high low := by
    rw [fixedHeader, ← hm, ← hv]
    rfl
  subst he
  refine ⟨id, high, low, by rw [hfixed'], rfl, hheader.symm, ?_, ?_⟩
  · rw [hheader]
    exact Nat.not_lt.mp hmax
  · rw [List.append_assoc, hbody, hdata]

/-- A written header reads back, whatever follows it, if the two reads of it are not short. -/
theorem readEnvelope_fixed {id high low : UInt8} {algHeader body : Bytes} {short : List (Option Nat)}
    (hlen : high.toNat * 256 + low.toNat = algHeader.length) (hmax : algHeader.length ≤ maxAlgHeaderLen)
    (hshort : ∀ m ∈ short.take 2, m = none) :
    readEnvelope ⟨fixedHeader id high low ++ algHeader ++ body, short⟩ =
      .ok ⟨id.toNat, algHeader, fixedHeader id high low ++ algHeader, ⟨body, short.drop 2⟩⟩ := by
  have hfirst : ∀ m ∈ short.take 1, m = none :=
    fun m hm => hshort m (List.take_subset_take_left short (by omega) hm)
  have hsecond : ∀ m ∈ short.tail.take 1, m = none := by
    intro m hm
    refine hshort m ?_
    match short, hm with
    | a :: b :: rest, hm =>
      rw [List.tail_cons] at hm
      simp only [List.take_succ_cons, List.take_zero, List.mem_singleton] at hm
      subst hm
      simp
  have hheader : (⟨fixedHeader id high low ++ algHeader ++ body, short⟩ : Reader UInt8).read fixedHeaderLen =
      (fixedHeader id high low, ⟨algHeader ++ body, short.tail⟩) := by
    rw [List.append_assoc]
    exact Reader.read_append rfl hfirst
  have halg : (⟨algHeader ++ body, short.tail⟩ : Reader UInt8).read (high.toNat * 256 + low.toNat) =
      (algHeader, ⟨body, short.tail.tail⟩) := Reader.read_append hlen.symm hsecond
  have hdrop : short.tail.tail = short.drop 2 := by
    rw [← List.drop_one, ← List.drop_one, List.drop_drop]
  unfold readEnvelope
  rw [hheader]
  have hmagic : (fixedHeader id high low).take 4 = magic := rfl
  have hid : byteAt (fixedHeader id high low) 5 = id.toNat := rfl
  have hversion : byteAt (fixedHeader id high low) 4 = envelopeVersion.toNat := rfl
  have hhigh : byteAt (fixedHeader id high low) 6 = high.toNat := rfl
  have hlow : byteAt (fixedHeader id high low) 7 = low.toNat := rfl
  have hsize : (fixedHeader id high low).length = fixedHeaderLen := rfl
  dsimp only
  rw [if_neg (not_not_intro hsize), if_neg (not_not_intro hmagic), if_neg (not_not_intro hversion),
    hhigh, hlow, if_neg (by omega), halg]
  dsimp only
  rw [if_neg (not_not_intro hlen.symm), hid, hdrop]

end XgenSdk.Storage.Streams
