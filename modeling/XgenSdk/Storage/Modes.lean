import XgenSdk.Py.Json

/-! The settings of the storage encryption: which mode writes follow, and where
the key comes from. A resolver is asked anew on every call. -/
namespace XgenSdk.Storage

abbrev Bytes := List UInt8

/-- `StorageCryptoError`, its subclasses, and anything a foreign cipher may raise. -/
inductive CryptoError where
  | storageCrypto (text : String)
  | encryptionKey (text : String)
  | unsupportedAlgorithm (text : String)
  | decryption (text : String)
  | foreign (text : String)
  deriving DecidableEq, Repr

def CryptoError.isSubclass : CryptoError → Bool
  | .encryptionKey _ | .unsupportedAlgorithm _ | .decryption _ => true
  | _ => false

def keyLen : Nat := 32

/-- `MODE_DISABLE`, `MODE_AES`, `MODE_UDE`. -/
inductive Mode where
  | disable
  | aes
  | ude
  deriving DecidableEq, Repr

def defaultAlgorithm : String := "aes256-gcm"

/-- A mode is spelled as the algorithm it writes with. -/
def Mode.name : Mode → String
  | .disable => "disable"
  | .aes => "aes256-gcm"
  | .ude => "ude-aria256"

/-- Only ASCII spellings are compared with, and no other letter lowers into one of theirs. -/
def coerceModeText (text : String) : Option Mode :=
  let s := (Py.strip text).toLower
  if s = "" then none
  else if s ∈ ["disable", "disabled", "off", "none", "false", "0", "no"] then some .disable
  else if s ∈ ["aes-256", "aes256", "aes", "aes256-gcm", "aes-256-gcm", "true", "1", "on", "yes"] then
    some .aes
  else if s ∈ ["ude", "ude-aria256", "ude_aria256", "aria_256_ude", "aria-256-ude"] then some .ude
  else none

def coerceMode : Py.Json → Option Mode
  | .bool b => some (if b then .aes else .disable)
  | .int n => some (if n ≠ 0 then .aes else .disable)
  | .float x => some (if x.isZero then .disable else .aes)
  | .str s => coerceModeText s
  | _ => none

/-- `_ENABLED_RESOLVER`, with what its `n`-th call gives or raises, and the
environment variable `XGEN_STORAGE_ENCRYPTION_ENABLED`. -/
structure ModeSetting where
  resolver : Option (Nat → Except String Py.Json)
  env : Option String

/-- `encryption_mode()`, on the `n`-th call of the resolver. -/
def encryptionMode (setting : ModeSetting) (n : Nat) : Mode :=
  let resolved := match setting.resolver with
    | none => none
    | some ask => match ask n with
      | .ok value => coerceMode value
      | .error _ => none
  match resolved with
  | some mode => mode
  | none => (setting.env.bind coerceModeText).getD .disable

def resolveWriteAlgorithm (setting : ModeSetting) (n : Nat) : Option String :=
  match encryptionMode setting n with
  | .disable => none
  | mode => some mode.name

def encryptionEnabled (setting : ModeSetting) (n : Nat) : Bool := encryptionMode setting n ≠ .disable

def resolveEncryptFlag (setting : ModeSetting) (n : Nat) (explicit : Option Bool) : Bool :=
  explicit.getD (encryptionEnabled setting n)

def base64Digits : List Char :=
  "ABCDEFGHIJKLMNOPQRSTUVWXYZabcdefghijklmnopqrstuvwxyz0123456789+/".toList

def base64Value (c : Char) : Option Nat :=
  let i := base64Digits.idxOf c
  if i < 64 then some i else none

/-- `base64.b64decode(value, validate=True)`. -/
def b64decode : List Char → Option Bytes
  | [] => some []
  | [a, b, '=', '='] => do
    let n := (← base64Value a) * 64 + (← base64Value b)
    return [UInt8.ofNat (n / 16)]
  | [a, b, c, '='] => do
    let n := ((← base64Value a) * 64 + (← base64Value b)) * 64 + (← base64Value c)
    return [UInt8.ofNat (n / 1024), UInt8.ofNat (n / 4)]
  | a :: b :: c :: d :: rest => do
    let n := (((← base64Value a) * 64 + (← base64Value b)) * 64 + (← base64Value c)) * 64 + (← base64Value d)
    let tail ← b64decode rest
    return UInt8.ofNat (n / 65536) :: UInt8.ofNat (n / 256) :: UInt8.ofNat n :: tail
  | _ => none

def hexValue (c : Char) : Option Nat :=
  let i := "0123456789abcdef".toList.idxOf c.toLower
  if i < 16 then some i else none

def isAsciiSpace (c : Char) : Bool := (0x09 ≤ c.toNat && c.toNat ≤ 0x0D) || c = ' '

/-- `bytes.fromhex(value)`; white space may stand between two bytes. -/
def fromHex : List Char → Option Bytes
  | [] => some []
  | [c] => if isAsciiSpace c then some [] else none
  | a :: b :: rest =>
    if isAsciiSpace a then fromHex (b :: rest)
    else do
      let high ← hexValue a
      let low ← hexValue b
      let tail ← fromHex rest
      return UInt8.ofNat (high * 16 + low) :: tail

def decodeKey (value : String) : Except CryptoError Bytes :=
  let text := Py.stripChars value.toList
  if text = [] then .error (.encryptionKey "암호화 키가 비어 있습니다.")
  else match (b64decode text).filter (·.length = keyLen) with
    | some key => .ok key
    | none => match (fromHex text).filter (·.length = keyLen) with
      | some key => .ok key
      | none => .error (.encryptionKey
          "암호화 키 형식 오류 — 32바이트의 base64 또는 hex(64자) 문자열이어야 합니다. generate_key() 로 새 키를 만들 수 있습니다.")

/-- What a key resolver may answer. -/
inductive KeyValue where
  | none
  | bytes (key : Bytes)
  | text (value : String)
  | other (typeName : String)

def coerceKey : KeyValue → Except CryptoError (Option Bytes)
  | .none => .ok none
  | .bytes key =>
    if key.length = keyLen then .ok (some key)
    else .error (.encryptionKey ("키 bytes 길이 오류: " ++ toString key.length ++ " (필요 32)."))
  | .text value =>
    if Py.stripChars value.toList = [] then .ok none
    else (decodeKey value).map some
  | .other typeName => .error (.encryptionKey ("키 타입 오류: " ++ typeName))

/-- `_KEY_RESOLVER` and the environment variable `XGEN_STORAGE_ENCRYPTION_KEY`. -/
structure KeySetting where
  resolver : Option (Except String KeyValue)
  env : Option String

def loadKeyFromEnv (setting : KeySetting) : Except CryptoError (Option Bytes) :=
  match setting.env with
  | none => .ok none
  | some raw => if raw = "" then .ok none else (decodeKey raw).map some

def keyFromEnv (setting : KeySetting) : Except CryptoError Bytes := do
  match ← loadKeyFromEnv setting with
  | some key => return key
  | none => throw (.encryptionKey
      "암호화 키가 없습니다 — app_config(XGEN_STORAGE_ENCRYPTION_KEY) 설정 또는 환경변수 XGEN_STORAGE_ENCRYPTION_KEY 를 주입하세요. generate_key() 로 키를 만들 수 있습니다.")

def resolveKey (setting : KeySetting) : Option Bytes → Except CryptoError Bytes
  | some key =>
    if key.length = keyLen then .ok key
    else .error (.encryptionKey ("키는 32바이트 bytes 여야 합니다 (len=" ++ toString key.length ++ ")."))
  | none => match setting.resolver with
    -- an error of the key itself is passed on, any other exception falls back to the environment
    | some (.ok value) => do
      match ← coerceKey value with
      | some key => return key
      | none => keyFromEnv setting
    | _ => keyFromEnv setting

theorem decodeKey_length {value : String} {key : Bytes} (h : decodeKey value = .ok key) :
    key.length = keyLen := by
  unfold decodeKey at h
  dsimp only at h
  split at h
  · cases h
  · split at h
    · rename_i found hfound
      cases h
      simpa using (Option.filter_eq_some_iff.mp hfound).2
    · split at h
      · rename_i found hfound
        cases h
        simpa using (Option.filter_eq_some_iff.mp hfound).2
      · cases h

theorem coerceKey_length {value : KeyValue} {key : Bytes} (h : coerceKey value = .ok (some key)) :
    key.length = keyLen := by
  cases value with
  | none => cases h
  | bytes given =>
    by_cases hlen : given.length = keyLen
    · rw [coerceKey, if_pos hlen] at h
      cases h
      exact hlen
    · rw [coerceKey, if_neg hlen] at h
      cases h
  | text value =>
    by_cases hblank : Py.stripChars value.toList = []
    · rw [coerceKey, if_pos hblank] at h
      cases h
    · rw [coerceKey, if_neg hblank] at h
      cases hd : decodeKey value with
      | error e =>
        rw [hd] at h
        cases h
      | ok found =>
        rw [hd] at h
        cases h
        exact decodeKey_length hd
  | other typeName => cases h

theorem loadKeyFromEnv_length {setting : KeySetting} {key : Bytes}
    (h : loadKeyFromEnv setting = .ok (some key)) : key.length = keyLen := by
  unfold loadKeyFromEnv at h
  split at h
  · cases h
  · split at h
    · cases h
    · rename_i raw henv hraw
      cases hd : decodeKey raw with
      | error e =>
        rw [hd] at h
        cases h
      | ok found =>
        rw [hd] at h
        cases h
        exact decodeKey_length hd

theorem keyFromEnv_length {setting : KeySetting} {key : Bytes} (h : keyFromEnv setting = .ok key) :
    key.length = keyLen := by
  unfold keyFromEnv at h
  cases hload : loadKeyFromEnv setting with
  | error e =>
    rw [hload] at h
    cases h
  | ok found =>
    rw [hload] at h
    cases found with
    | none => cases h
    | some found =>
      cases h
      exact loadKeyFromEnv_length hload

/-- Whatever path a key comes by, it has 32 bytes. -/
theorem resolveKey_length {setting : KeySetting} {given : Option Bytes} {key : Bytes}
    (h : resolveKey setting given = .ok key) : key.length = keyLen := by
  cases given with
  | some given =>
    by_cases hlen : given.length = keyLen
    · rw [resolveKey, if_pos hlen] at h
      cases h
      exact hlen
    · rw [resolveKey, if_neg hlen] at h
      cases h
  | none =>
    unfold resolveKey at h
    dsimp only at h
    split at h
    · rename_i value hvalue
      cases hc : coerceKey value with
      | error e =>
        rw [hc] at h
        cases h
      | ok found =>
        rw [hc] at h
        cases found with
        | none => exact keyFromEnv_length h
        | some found =>
          cases h
          exact coerceKey_length hc
    · exact keyFromEnv_length h

theorem decodeKey_error {value : String} {e : CryptoError} (h : decodeKey value = .error e) :
    e.isSubclass = true := by
  unfold decodeKey at h
  dsimp only at h
  split at h
  · rw [← Except.error.inj h]
    rfl
  · split at h
    · cases h
    · split at h
      · cases h
      · rw [← Except.error.inj h]
        rfl

theorem map_some_error {value : String} {e : CryptoError} (h : (decodeKey value).map some = .error e) :
    e.isSubclass = true := by
  cases hd : decodeKey value with
  | error e' =>
    rw [hd] at h
    rw [← Except.error.inj h]
    exact decodeKey_error hd
  | ok found =>
    rw [hd] at h
    cases h

theorem coerceKey_error {value : KeyValue} {e : CryptoError} (h : coerceKey value = .error e) :
    e.isSubclass = true := by
  cases value with
  | none => cases h
  | bytes given =>
    by_cases hlen : given.length = keyLen
    · rw [coerceKey, if_pos hlen] at h
      cases h
    · rw [coerceKey, if_neg hlen] at h
      rw [← Except.error.inj h]
      rfl
  | text value =>
    by_cases hblank : Py.stripChars value.toList = []
    · rw [coerceKey, if_pos hblank] at h
      cases h
    · rw [coerceKey, if_neg hblank] at h
      exact map_some_error h
  | other typeName =>
    rw [← Except.error.inj h]
    rfl

theorem keyFromEnv_error {setting : KeySetting} {e : CryptoError} (h : keyFromEnv setting = .error e) :
    e.isSubclass = true := by
  unfold keyFromEnv at h
  cases hload : loadKeyFromEnv setting with
  | error e' =>
    rw [hload] at h
    rw [← Except.error.inj h]
    unfold loadKeyFromEnv at hload
    split at hload
    · cases hload
    · split at hload
      · cases hload
      · exact map_some_error hload
  | ok found =>
    rw [hload] at h
    cases found with
    | none =>
      rw [← Except.error.inj h]
      rfl
    | some found => cases h

/-- A key that cannot be had is reported as such. -/
theorem resolveKey_error {setting : KeySetting} {given : Option Bytes} {e : CryptoError}
    (h : resolveKey setting given = .error e) : e.isSubclass = true := by
  cases given with
  | some given =>
    by_cases hlen : given.length = keyLen
    · rw [resolveKey, if_pos hlen] at h
      cases h
    · rw [resolveKey, if_neg hlen] at h
      rw [← Except.error.inj h]
      rfl
  | none =>
    unfold resolveKey at h
    dsimp only at h
    split at h
    · rename_i value hvalue
      cases hc : coerceKey value with
      | error e' =>
        rw [hc] at h
        rw [← Except.error.inj h]
        exact coerceKey_error hc
      | ok found =>
        rw [hc] at h
        cases found with
        | none => exact keyFromEnv_error h
        | some found => cases h
    · exact keyFromEnv_error h

end XgenSdk.Storage
