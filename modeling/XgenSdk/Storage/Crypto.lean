import XgenSdk.Lib.Raising
import XgenSdk.Lib.Chunks
import XgenSdk.Storage.Modes

/-! The envelope, the cipher contract with its AES-256-GCM instance, the
registry, and the byte helpers that sniff before they decrypt. -/
namespace XgenSdk.Storage
open Chunks (Reader)

def magic : Bytes := [0x58, 0x53, 0x45, 0x31]
def envelopeVersion : UInt8 := 1
def fixedHeaderLen : Nat := 8
def maxAlgHeaderLen : Nat := 1024
def chunkSize : Nat := 64 * 1024
def nonceLen : Nat := 12
def tagLen : Nat := 16

/-- GCM as a key stream applied position by position and a tag over what was
authenticated and the ciphertext. -/
structure Gcm where
  stream : Bytes → Bytes → Nat → UInt8
  tag : Bytes → Bytes → Bytes → Bytes → Bytes
  tag_length : ∀ key nonce aad ciphertext, (tag key nonce aad ciphertext).length = tagLen

/-- A message a tag was computed for. -/
structure Sealing where
  key : Bytes
  nonce : Bytes
  aad : Bytes
  ciphertext : Bytes
  deriving DecidableEq, Repr

/-- What a stream call leaves behind: the writer, the pieces given to
`cipher.encrypt` or `cipher.decrypt`, the tags given to `cipher.verify`, and
every message sealed so far, by this call or before it. -/
structure Session where
  written : Bytes
  handed : List Bytes
  verified : List Bytes
  sealings : List Sealing

def Session.start (sealings : List Sealing) : Session := ⟨[], [], [], sealings⟩

def xorStream (stream : Nat → UInt8) : Nat → Bytes → Bytes
  | _, [] => []
  | pos, b :: bs => (b ^^^ stream pos) :: xorStream stream (pos + 1) bs

abbrev Streaming := Raising Session CryptoError

/-- `writer.write(data)`. -/
def put (data : Bytes) : Streaming Unit := Raising.write fun s => { s with written := s.written ++ data }

def Session.feed (stream : Nat → UInt8) (piece : Bytes) (s : Session) : Session :=
  { s with
    written := s.written ++ xorStream stream s.handed.flatten.length piece
    handed := s.handed ++ [piece] }

/-- `writer.write(cipher.encrypt(piece))`, and the same with `decrypt`. -/
def feed (stream : Nat → UInt8) (piece : Bytes) : Streaming Unit := Raising.write (Session.feed stream piece)

def Session.seal (g : Gcm) (key nonce aad : Bytes) (s : Session) : Session :=
  let ciphertext := xorStream (g.stream key nonce) 0 s.handed.flatten
  { s with
    written := s.written ++ g.tag key nonce aad ciphertext
    sealings := ⟨key, nonce, aad, ciphertext⟩ :: s.sealings }

/-- `writer.write(cipher.digest())`. -/
def digest (g : Gcm) (key nonce aad : Bytes) : Streaming Unit := Raising.write (Session.seal g key nonce aad)

/-- `cipher.verify(tag)`: only the tag of a message that was sealed passes. -/
def verify (g : Gcm) (key nonce aad tag : Bytes) : Streaming Bool := do
  let s ← Raising.read
  Raising.write fun s => { s with verified := s.verified ++ [tag] }
  let ciphertext := s.handed.flatten
  return decide (tag = g.tag key nonce aad ciphertext ∧ ⟨key, nonce, aad, ciphertext⟩ ∈ s.sealings)

def buildEnvelope (algorithmId : Nat) (algHeader : Bytes) : Except CryptoError Bytes :=
  if ¬ (0 < algorithmId ∧ algorithmId < 256) then
    .error (.storageCrypto ("algorithm_id 는 1~255 여야 합니다: " ++ toString algorithmId))
  else if algHeader.length > maxAlgHeaderLen then
    .error (.storageCrypto "alg_header 가 상한(1024B)을 초과합니다.")
  else
    .ok (magic ++ [envelopeVersion] ++ [UInt8.ofNat algorithmId] ++
      [UInt8.ofNat (algHeader.length / 256), UInt8.ofNat algHeader.length] ++ algHeader)

/-- What `_read_envelope` returns, with the reader it leaves. -/
structure Envelope where
  algId : Nat
  algHeader : Bytes
  aad : Bytes
  body : Reader UInt8

def byteAt (data : Bytes) (i : Nat) : Nat := (data.getD i 0).toNat

def readEnvelope (reader : Reader UInt8) : Except CryptoError Envelope :=
  let (fixed, reader) := reader.read fixedHeaderLen
  if fixed.length ≠ fixedHeaderLen then
    .error (.decryption "암호문 헤더가 불완전합니다 (파일 절단 또는 비암호화 데이터).")
  else if fixed.take 4 ≠ magic then
    .error (.decryption "암호화 매직 헤더가 없습니다 — 이 데이터는 xgen 스토리지 암호화 포맷이 아닙니다.")
  else if byteAt fixed 4 ≠ envelopeVersion.toNat then
    .error (.decryption ("지원하지 않는 엔벨로프 버전입니다: " ++ toString (byteAt fixed 4)))
  else
    let headerLen := byteAt fixed 6 * 256 + byteAt fixed 7
    if headerLen > maxAlgHeaderLen then
      .error (.decryption ("alg_header 길이가 비정상입니다: " ++ toString headerLen))
    else
      let (algHeader, reader) := reader.read headerLen
      if algHeader.length ≠ headerLen then
        .error (.decryption "암호문 헤더가 불완전합니다 (alg_header 절단).")
      else .ok ⟨byteAt fixed 5, algHeader, fixed ++ algHeader, reader⟩

def isEncryptedData (data : Bytes) : Bool := magic.length ≤ data.length && data.take magic.length = magic

/-- What `get_random_bytes(12)` draws. -/
abbrev Drawn := {bytes : Bytes // bytes.length = nonceLen}

/-- An instance of a `FileCipher` subclass. -/
structure FileCipher where
  algorithmId : Nat
  algorithmName : String
  newAlgHeader : Drawn → Except CryptoError Bytes
  encryptBody : Reader UInt8 → Bytes → Bytes → Streaming Unit
  decryptBody : Reader UInt8 → Bytes → Bytes → Streaming Unit

namespace FileCipher

def encryptStream (cipher : FileCipher) (drawn : Drawn) (reader : Reader UInt8) : Streaming Unit := do
  let algHeader ← Raising.lift (cipher.newAlgHeader drawn)
  let envelope ← Raising.lift (buildEnvelope cipher.algorithmId algHeader)
  put envelope
  cipher.encryptBody reader algHeader envelope

def decryptStream (cipher : FileCipher) (reader : Reader UInt8) : Streaming Unit := do
  let envelope ← Raising.lift (readEnvelope reader)
  if envelope.algId ≠ cipher.algorithmId then
    throw (.decryption ("알고리즘 불일치 — 데이터는 id=" ++ toString envelope.algId ++ ", 이 cipher 는 " ++
      cipher.algorithmName ++ "(id=" ++ toString cipher.algorithmId ++
      "). decrypt_file()/decrypt_bytes() (자동 식별) 을 사용하세요."))
  else cipher.decryptBody envelope.body envelope.algHeader envelope.aad

end FileCipher

/-- What a stream call writes into a `BytesIO`; the sealings are the world it runs in. -/
def toBytes (stream : Streaming Unit) : Raising (List Sealing) CryptoError Bytes := fun sealings =>
  match Raising.on stream (Session.start sealings) with
  | (.ok _, s) => (.ok s.written, s.sealings)
  | (.error e, s) => (.error e, s.sealings)

def FileCipher.encryptBytes (cipher : FileCipher) (drawn : Drawn) (data : Bytes) :
    Raising (List Sealing) CryptoError Bytes := toBytes (cipher.encryptStream drawn (Reader.full data))

namespace Aes256GcmCipher

def encryptChunks (stream : Nat → UInt8) : List Bytes → Streaming Unit
  | [] => pure ()
  | chunk :: rest => do
    feed stream chunk
    encryptChunks stream rest

def encryptBody (g : Gcm) (key : Bytes) (reader : Reader UInt8) (algHeader aad : Bytes) : Streaming Unit := do
  encryptChunks (g.stream key algHeader) (reader.chunks chunkSize)
  digest g key algHeader aad

/-- The last sixteen bytes seen may be the tag, so they wait in `tail`. -/
def decryptChunks (stream : Nat → UInt8) (tail : Bytes) : List Bytes → Streaming Bytes
  | [] => pure tail
  | chunk :: rest =>
    if tagLen < (tail ++ chunk).length then do
      feed stream (Chunks.release tagLen (tail ++ chunk))
      decryptChunks stream (Chunks.keep tagLen (tail ++ chunk)) rest
    else decryptChunks stream (tail ++ chunk) rest

def decryptBody (g : Gcm) (key : Bytes) (reader : Reader UInt8) (algHeader aad : Bytes) : Streaming Unit := do
  if algHeader.length ≠ nonceLen then
    throw (.decryption ("AES-GCM nonce 길이 오류: " ++ toString algHeader.length))
  else
    let tail ← decryptChunks (g.stream key algHeader) [] (reader.chunks chunkSize)
    if tail.length ≠ tagLen then
      throw (.decryption "암호문이 절단되었습니다 (인증 태그 불완전).")
    else
      let genuine ← verify g key algHeader aad tail
      if genuine then pure ()
      else throw (.decryption "복호화 무결성 검증 실패 — 키 불일치 또는 데이터 변조.")

def cipher (g : Gcm) (key : Bytes) : FileCipher where
  algorithmId := 1
  algorithmName := "aes256-gcm"
  newAlgHeader := fun drawn => .ok drawn.val
  encryptBody := encryptBody g key
  decryptBody := decryptBody g key

def fromKey (g : Gcm) (key : Option Bytes) : Except CryptoError FileCipher :=
  match key.filter (·.length = keyLen) with
  | some key => .ok (cipher g key)
  | none => .error (.encryptionKey "AES-256 키는 32바이트여야 합니다.")

end Aes256GcmCipher

/-- A `FileCipher` subclass as the registry holds it. -/
structure CipherClass where
  algorithmId : Nat
  algorithmName : String
  requiresKey : Bool
  fromKey : Option Bytes → Except CryptoError FileCipher

def aes256Gcm (g : Gcm) : CipherClass := ⟨1, "aes256-gcm", true, Aes256GcmCipher.fromKey g⟩

/-- AES-256-GCM is registered first; a later class with its id or name is refused. -/
def registry (g : Gcm) (others : List CipherClass) : List CipherClass := aes256Gcm g :: others

def CipherClass.instance (cls : CipherClass) (keys : KeySetting) (key : Option Bytes) :
    Except CryptoError FileCipher := do
  if cls.requiresKey then
    let key ← resolveKey keys key
    cls.fromKey (some key)
  else cls.fromKey none

def getCipher (classes : List CipherClass) (keys : KeySetting) (algorithm : String) (key : Option Bytes) :
    Except CryptoError FileCipher :=
  match classes.find? (·.algorithmName = algorithm) with
  | none => .error (.unsupportedAlgorithm ("알 수 없는 알고리즘: '" ++ algorithm ++ "' (등록됨: " ++
      Py.Json.repr (.arr (((classes.map (·.algorithmName)).mergeSort (· ≤ ·)).map .str)) ++ ")"))
  | some cls => cls.instance keys key

def encryptBytes (classes : List CipherClass) (keys : KeySetting) (drawn : Drawn) (data : Bytes)
    (key : Option Bytes) (algorithm : String) : Raising (List Sealing) CryptoError Bytes := do
  let cipher ← Raising.lift (getCipher classes keys algorithm key)
  cipher.encryptBytes drawn data

/-- The module's `decrypt_stream`: the header says which cipher reads on. -/
def decryptStream (classes : List CipherClass) (keys : KeySetting) (reader : Reader UInt8)
    (key : Option Bytes) : Streaming Unit := do
  let envelope ← Raising.lift (readEnvelope reader)
  match classes.find? (·.algorithmId = envelope.algId) with
  | none => throw (.unsupportedAlgorithm ("알 수 없는 algorithm_id=" ++ toString envelope.algId ++
      " — SDK 버전이 낮거나 커스텀 cipher 미등록."))
  | some cls =>
    let cipher ← Raising.lift (cls.instance keys key)
    cipher.decryptBody envelope.body envelope.algHeader envelope.aad

def decryptBytes (classes : List CipherClass) (keys : KeySetting) (data : Bytes) (key : Option Bytes) :
    Raising (List Sealing) CryptoError Bytes := toBytes (decryptStream classes keys (Reader.full data) key)

/-- The resolver of the mode is asked for the flag, and again for the algorithm. -/
def encryptBytesIfEnabled (classes : List CipherClass) (setting : ModeSetting) (keys : KeySetting)
    (drawn : Drawn) (data : Bytes) (key : Option Bytes) (algorithm : Option String)
    (encrypt : Option Bool) : Raising (List Sealing) CryptoError Bytes :=
  if ¬ resolveEncryptFlag setting 0 encrypt then pure data
  else
    let calls := if encrypt.isNone then 1 else 0
    let algorithm := algorithm.getD ((resolveWriteAlgorithm setting calls).getD defaultAlgorithm)
    encryptBytes classes keys drawn data key algorithm

def decryptBytesIfEncrypted (classes : List CipherClass) (keys : KeySetting) (data : Bytes)
    (key : Option Bytes) : Raising (List Sealing) CryptoError Bytes :=
  if ¬ isEncryptedData data then pure data
  else decryptBytes classes keys data key

end XgenSdk.Storage
