import XgenSdk.Py.Utf16
import XgenSdk.Lib.Splice

/-! Text files: how their bytes are read, and written back after masking. -/
namespace XgenSdk.PlainText
open XgenSdk.Py.Utf16 XgenSdk.Splice

/-- A codec of the library; `none` where it raises. -/
structure Codec where
  decode : Bytes → Option Str
  encode : Str → Option Bytes
  /-- `raw.decode(encoding, errors="surrogateescape")`. -/
  decodeEscape : Bytes → Str
  /-- `text.encode(encoding, errors="surrogateescape")`. -/
  encodeEscape : Str → Option Bytes
  /-- `text.encode(encoding, errors="replace")`. -/
  encodeReplace : Str → Bytes

/-- What `chardet.detect` says. -/
structure Guess where
  encoding : Option String
  confident : Bool
  deriving DecidableEq, Repr

/-- The codecs by name and `chardet`; a name without codec is a `LookupError`, and `chardet` may be missing or raise. -/
structure Library where
  codec : String → Option Codec
  utf8 : Codec
  known : codec "utf-8" = some utf8
  detect : Bytes → Option Guess

inductive Errors where
  | strict
  | surrogateescape
  deriving DecidableEq, Repr

/-- `_Decoded`. -/
structure Decoded where
  text : Str
  encoding : String
  bom : Bytes
  errors : Errors
  deriving DecidableEq, Repr

/-- `_BOMS`. -/
def boms : List (Bytes × String) :=
  [([0xFF, 0xFE, 0x00, 0x00], "utf-32-le"), ([0x00, 0x00, 0xFE, 0xFF], "utf-32-be"), ([0xEF, 0xBB, 0xBF], "utf-8"),
    ([0xFF, 0xFE], "utf-16-le"), ([0xFE, 0xFF], "utf-16-be")]

variable (L : Library)

/-- `_round_trip`. -/
def roundTrip (raw : Bytes) (encoding : String) : Option Decoded := do
  let codec ← L.codec encoding
  let text ← codec.decode raw
  let back ← codec.encode text
  if back = raw then some ⟨text, encoding, [], .strict⟩ else none

/-- The loop over the marks: the first that the bytes start with decides. -/
def decodeBom (raw : Bytes) : List (Bytes × String) → Option Decoded
  | [] => none
  | (bom, encoding) :: rest =>
    if bom.isPrefixOf raw then do
      let codec ← L.codec encoding
      let text ← codec.decode (raw.drop bom.length)
      return ⟨text, encoding, bom, .strict⟩
    else decodeBom raw rest

/-- A byte carried by `surrogateescape`. -/
def isEscaped (c : CodePoint) : Bool := 0xDC80 ≤ c.val && c.val ≤ 0xDCFF

/-- `int(len(loose) * _UTF8_BAD_RATIO)`; the ratio is a little over one hundredth. -/
def badLimit (length : Nat) : Nat := max 1 (length / 100)

def guessed (raw : Bytes) : Option Decoded := do
  let guess ← L.detect (raw.take (64 * 1024))
  let detected ← guess.encoding
  if detected ≠ "" ∧ guess.confident ∧ detected.toLower ≠ "cp949" then roundTrip L raw detected else none

/-- `_decode`. -/
def decode (raw : Bytes) : Decoded :=
  match decodeBom L raw boms with
  | some decoded => decoded
  | none => match L.utf8.decode raw with
    | some text => ⟨text, "utf-8", [], .strict⟩
    | none => match roundTrip L raw "cp949" with
      | some strict => strict
      | none =>
        let loose := L.utf8.decodeEscape raw
        if (loose.filter isEscaped).length ≤ badLimit loose.length then ⟨loose, "utf-8", [], .surrogateescape⟩
        else match guessed L raw with
          | some decoded => decoded
          | none => ⟨L.utf8.decodeEscape raw, "utf-8", [], .surrogateescape⟩

def encodeWith (codec : Codec) : Errors → Str → Option Bytes
  | .strict => codec.encode
  | .surrogateescape => codec.encodeEscape

/-- `_encode`; `none` for a `LookupError`. -/
def encode (text : Str) (decoded : Decoded) : Option Bytes :=
  (L.codec decoded.encoding).map fun codec =>
    decoded.bom ++ (encodeWith codec decoded.errors text).getD (codec.encodeReplace text)

/-- `apply_rules` for some policies, on texts that may hold lone surrogates: the text, what is detected, and the
spans of the text that are masked. -/
structure Policies where
  maskText : Str → Str × Nat
  spans : Str → List (Span CodePoint)
  inOrder : ∀ text, InOrder text.length 0 (spans text)
  spliced : ∀ text, (maskText text).1 = splice text (spans text)

/-- `_mask_plain_text`. -/
def maskPlainText (P : Policies) (raw : Bytes) : Option (Bytes × Nat) :=
  let decoded := decode L raw
  let masked := P.maskText decoded.text
  if masked.2 ≠ 0 then (encode L masked.1 decoded).map fun bytes => (bytes, masked.2) else some (raw, masked.2)

/-! What the codecs are relied on for. -/

def isSurrogate (c : CodePoint) : Bool := 0xD800 ≤ c.val && c.val ≤ 0xDFFF

/-- The codecs with a mark take back what they read, and so does UTF-8 with escaped bytes; it has every character. -/
structure Lawful : Prop where
  marked : ∀ bom encoding, (bom, encoding) ∈ boms → ∃ codec, L.codec encoding = some codec ∧
    ∀ raw text, codec.decode raw = some text → codec.encode text = some raw
  escape : ∀ raw, L.utf8.encodeEscape (L.utf8.decodeEscape raw) = some raw
  every : ∀ c, isSurrogate c = false → (L.utf8.encodeEscape [c]).isSome = true

theorem Lawful.utf8 {L : Library} (h : Lawful L) {raw : Bytes} {text : Str} (ht : L.utf8.decode raw = some text) :
    L.utf8.encode text = some raw := by
  obtain ⟨codec, hcodec, hback⟩ := h.marked _ _ (by decide : ([0xEF, 0xBB, 0xBF], "utf-8") ∈ boms)
  obtain rfl := Option.some.inj (L.known.symm.trans hcodec)
  exact hback raw text ht

/-- What was read is written back. -/
structure Faithful (raw : Bytes) (decoded : Decoded) (codec : Codec) : Prop where
  known : L.codec decoded.encoding = some codec
  back : ∃ body, encodeWith codec decoded.errors decoded.text = some body ∧ raw = decoded.bom ++ body
  escaped : decoded.errors = .surrogateescape → codec = L.utf8

variable {L}

theorem Faithful.encode {raw : Bytes} {decoded : Decoded} {codec : Codec} (h : Faithful L raw decoded codec) :
    encode L decoded.text decoded = some raw := by
  obtain ⟨body, hbody, hraw⟩ := h.back
  rw [PlainText.encode, h.known, Option.map_some, hbody, Option.getD_some, hraw]

theorem roundTrip_faithful {raw : Bytes} {encoding : String} {decoded : Decoded} (h : roundTrip L raw encoding = some decoded) :
    ∃ codec, Faithful L raw decoded codec := by
  unfold roundTrip at h
  simp only [Option.bind_eq_bind, Option.bind_eq_some_iff, Option.ite_none_right_eq_some, Option.some.injEq] at h
  obtain ⟨codec, hcodec, text, -, back, hback, hsame, rfl⟩ := h
  exact ⟨codec, hcodec, ⟨back, hback, by rw [hsame]; rfl⟩, nofun⟩

theorem decodeBom_faithful (hL : Lawful L) {raw : Bytes} {decoded : Decoded} {marks : List (Bytes × String)}
    (hmarks : ∀ m ∈ marks, m ∈ boms) (h : decodeBom L raw marks = some decoded) : ∃ codec, Faithful L raw decoded codec := by
  induction marks with
  | nil => cases h
  | cons mark rest ih =>
    obtain ⟨bom, encoding⟩ := mark
    rw [decodeBom] at h
    split at h
    · rename_i hstart
      obtain ⟨codec, hcodec, hback⟩ := hL.marked bom encoding (hmarks _ List.mem_cons_self)
      rw [hcodec] at h
      simp only [Option.bind_eq_bind, Option.bind_some, Option.bind_eq_some_iff] at h
      obtain ⟨text, htext, hdecoded⟩ := h
      obtain rfl := Option.some.inj hdecoded
      refine ⟨codec, hcodec, ⟨raw.drop bom.length, hback _ _ htext, ?_⟩, nofun⟩
      rw [List.isPrefixOf_iff_prefix, List.prefix_iff_eq_append] at hstart
      exact hstart.symm
    · exact ih (fun m hm => hmarks m (List.mem_cons_of_mem _ hm)) h

/-- Whichever way the bytes are read, they are written back as they were. -/
theorem decode_faithful (hL : Lawful L) (raw : Bytes) : ∃ codec, Faithful L raw (decode L raw) codec := by
  have hescape : ∃ codec, Faithful L raw ⟨L.utf8.decodeEscape raw, "utf-8", [], .surrogateescape⟩ codec :=
    ⟨L.utf8, L.known, ⟨raw, hL.escape raw, rfl⟩, fun _ => rfl⟩
  unfold decode
  split
  · rename_i decoded hbom
    exact decodeBom_faithful hL (fun _ hm => hm) hbom
  · split
    · rename_i text htext
      exact ⟨L.utf8, L.known, ⟨raw, hL.utf8 htext, rfl⟩, nofun⟩
    · split
      · rename_i strict hstrict
        exact roundTrip_faithful hstrict
      · dsimp only
        split
        · exact hescape
        · split
          · rename_i decoded hguess
            unfold guessed at hguess
            simp only [Option.bind_eq_bind, Option.bind_eq_some_iff, Option.ite_none_right_eq_some] at hguess
            obtain ⟨_, -, _, -, -, hround⟩ := hguess
            exact roundTrip_faithful hround
          · exact hescape

/-! A codec that writes one character after another. -/

/-- `surrogateescape`. -/
def escapedByte (c : CodePoint) : Bytes := [UInt8.ofNat (c.val - 0xDC00)]

structure PerChar (codec : Codec) where
  bytes : CodePoint → Option Bytes
  question : Bytes
  encode : ∀ text, codec.encode text = (text.mapM bytes).map List.flatten
  encodeEscape : ∀ text,
    codec.encodeEscape text = (text.mapM fun c => if isEscaped c then some (escapedByte c) else bytes c).map List.flatten
  encodeReplace : ∀ text, codec.encodeReplace text = text.flatMap fun c => (bytes c).getD question

section PerChar
variable {codec : Codec} (C : PerChar codec)

/-- The bytes of a character, where it has some. -/
def PerChar.charBytes (errors : Errors) (c : CodePoint) : Option Bytes :=
  match errors with
  | .strict => C.bytes c
  | .surrogateescape => if isEscaped c then some (escapedByte c) else C.bytes c

/-- What a character is written as. -/
def PerChar.written (errors : Errors) (c : CodePoint) : Bytes := (C.charBytes errors c).getD C.question

theorem encodeWith_eq (errors : Errors) (text : Str) :
    encodeWith codec errors text = (text.mapM (C.charBytes errors)).map List.flatten := by
  cases errors with
  | strict => exact C.encode text
  | surrogateescape => exact C.encodeEscape text

theorem mapM_eq_some {f : CodePoint → Option Bytes} {text : Str} {out : List Bytes} (question : Bytes) (h : text.mapM f = some out) :
    (∀ c ∈ text, (f c).isSome = true) ∧ out = text.map fun c => (f c).getD question := by
  induction text generalizing out with
  | nil =>
    obtain rfl := Option.some.inj h
    exact ⟨fun _ hc => (nomatch hc), rfl⟩
  | cons c text ih =>
    simp only [List.mapM_cons, Option.bind_eq_bind, Option.bind_eq_some_iff, Option.pure_def, Option.some.injEq] at h
    obtain ⟨b, hb, rest, hrest, rfl⟩ := h
    obtain ⟨hall, rfl⟩ := ih hrest
    refine ⟨List.forall_mem_cons.mpr ⟨by rw [hb]; rfl, hall⟩, ?_⟩
    rw [List.map_cons, hb]
    rfl

/-- Written back, a text is its characters one after another. -/
theorem encoded_eq {errors : Errors} {text : Str} (h : errors = .surrogateescape → ∀ c ∈ text, (C.charBytes errors c).isSome = true) :
    (encodeWith codec errors text).getD (codec.encodeReplace text) = text.flatMap (C.written errors) := by
  rw [encodeWith_eq C]
  cases hchars : text.mapM (C.charBytes errors) with
  | some out =>
    rw [(mapM_eq_some C.question hchars).2, List.flatMap_def]
    rfl
  | none =>
    cases errors with
    | strict => exact C.encodeReplace text
    | surrogateescape =>
      have hsome : ∀ {text : Str}, (∀ c ∈ text, (C.charBytes .surrogateescape c).isSome = true) →
          (text.mapM (C.charBytes .surrogateescape)).isSome = true := by
        intro text htext
        induction text with
        | nil => rfl
        | cons c text ih =>
          obtain ⟨b, hb⟩ := Option.isSome_iff_exists.mp (htext c List.mem_cons_self)
          obtain ⟨rest, hrest⟩ := Option.isSome_iff_exists.mp (ih fun d hd => htext d (List.mem_cons_of_mem c hd))
          rw [List.mapM_cons, hb, hrest]
          rfl
      have := hsome (h rfl)
      rw [hchars] at this
      cases this

end PerChar

/-- A text with its spans masked, in bytes: those of each character outside the spans, and of the masks between. -/
def bytesFrom (write : CodePoint → Bytes) (text : Str) : Nat → List (Span CodePoint) → Bytes
  | p, [] => (text.drop p).flatMap write
  | p, s :: rest => (slice text p s.lo).flatMap write ++ s.body.flatMap write ++ bytesFrom write text s.hi rest

theorem flatMap_spliceFrom (write : CodePoint → Bytes) (text : Str) (p : Nat) (spans : List (Span CodePoint)) :
    (spliceFrom text p spans).flatMap write = bytesFrom write text p spans := by
  induction spans generalizing p with
  | nil => rfl
  | cons s rest ih => rw [spliceFrom, List.flatMap_append, List.flatMap_append, ih, bytesFrom]

/-- What masking leaves of the bytes: all of them where nothing is detected, else all outside the masks. -/
structure Kept (P : Policies) (raw : Bytes) (codec : Codec) (C : PerChar codec) : Prop where
  original : raw = (decode L raw).bom ++ (decode L raw).text.flatMap (C.written (decode L raw).errors)
  masked : (P.maskText (decode L raw).text).2 ≠ 0 → maskPlainText L P raw =
    some ((decode L raw).bom ++ bytesFrom (C.written (decode L raw).errors) (decode L raw).text 0 (P.spans (decode L raw).text),
      (P.maskText (decode L raw).text).2)

/-- Reading and writing keep the bytes, and masking changes only those of the matches. -/
theorem plain_text_kept (L : Library) (hL : Lawful L) (P : Policies) (raw : Bytes) :
    encode L (decode L raw).text (decode L raw) = some raw ∧
    ((P.maskText (decode L raw).text).2 = 0 → maskPlainText L P raw = some (raw, 0)) ∧
    ∃ codec, L.codec (decode L raw).encoding = some codec ∧
      ∀ C : PerChar codec, (∀ s ∈ P.spans (decode L raw).text, ∀ c ∈ s.body, isSurrogate c = false) →
        Kept (L := L) P raw codec C := by
  obtain ⟨codec, hfaithful⟩ := decode_faithful hL raw
  refine ⟨hfaithful.encode, fun hnone => ?_, codec, hfaithful.known, fun C hmasks => ?_⟩
  · simp [maskPlainText, hnone]
  · obtain ⟨body, hbody, hraw⟩ := hfaithful.back
    rw [encodeWith_eq C, Option.map_eq_some_iff] at hbody
    obtain ⟨chunks, hchunks, rfl⟩ := hbody
    obtain ⟨hall, rfl⟩ := mapM_eq_some C.question hchunks
    constructor
    · exact hraw.trans (by rw [List.flatMap_def]; rfl)
    · intro hhits
      have hwritten : (decode L raw).errors = .surrogateescape → ∀ c ∈ (P.maskText (decode L raw).text).1,
          (C.charBytes (decode L raw).errors c).isSome = true := by
        intro hescape c hc
        rw [P.spliced] at hc
        rcases mem_spliceFrom hc with hc | ⟨s, hs, hc⟩
        · exact hall c hc
        · have hevery := hL.every c (hmasks s hs c hc)
          rw [← hfaithful.escaped hescape] at hevery
          have hone := encodeWith_eq C .surrogateescape [c]
          change codec.encodeEscape [c] = _ at hone
          rw [hone, Option.isSome_map] at hevery
          obtain ⟨out, hout⟩ := Option.isSome_iff_exists.mp hevery
          rw [hescape]
          exact (mapM_eq_some C.question hout).1 c List.mem_cons_self
      have hencode : encode L (P.maskText (decode L raw).text).1 (decode L raw) =
          some ((decode L raw).bom ++ (P.maskText (decode L raw).text).1.flatMap (C.written (decode L raw).errors)) := by
        rw [PlainText.encode, hfaithful.known, Option.map_some, encoded_eq C hwritten]
      rw [maskPlainText, if_pos hhits, hencode, Option.map_some, P.spliced, splice, flatMap_spliceFrom]

/-! UTF-8 for bytes of which those from 0x80 on are broken. -/

/-- The bytes of a character in UTF-8. -/
def utf8Bytes (c : CodePoint) : Option Bytes :=
  if isSurrogate c then none else some (String.utf8EncodeChar (Char.ofNat c.val))

def asciiPoint (b : UInt8) : CodePoint := Fin.ofNat 0x110000 b.toNat

/-- A byte by itself, escaped where it is broken. -/
def loosePoint (b : UInt8) : CodePoint := if b < 0x80 then asciiPoint b else Fin.ofNat 0x110000 (0xDC00 + b.toNat)

def brokenUtf8 : Codec where
  decode raw := if raw.all fun b => b < 0x80 then some (raw.map asciiPoint) else none
  encode text := (text.mapM utf8Bytes).map List.flatten
  decodeEscape raw := raw.map loosePoint
  encodeEscape text := (text.mapM fun c => if isEscaped c then some (escapedByte c) else utf8Bytes c).map List.flatten
  encodeReplace text := text.flatMap fun c => (utf8Bytes c).getD [0x3F]

def refusing : Codec where
  decode _ := none
  encode _ := none
  decodeEscape _ := []
  encodeEscape _ := none
  encodeReplace _ := []

/-- No other codec reads the bytes, and `chardet` is missing. -/
def brokenLibrary : Library where
  codec name := some (if name = "utf-8" then brokenUtf8 else refusing)
  utf8 := brokenUtf8
  known := rfl
  detect _ := none

theorem loosePoint_bytes (b : UInt8) :
    (if isEscaped (loosePoint b) then some (escapedByte (loosePoint b)) else utf8Bytes (loosePoint b)) = some [b] := by
  have hall : ∀ n : Fin 256, (if isEscaped (loosePoint (UInt8.ofFin n)) then some (escapedByte (loosePoint (UInt8.ofFin n)))
      else utf8Bytes (loosePoint (UInt8.ofFin n))) = some [UInt8.ofFin n] := by decide +kernel
  exact hall b.toFin

theorem asciiPoint_bytes (b : UInt8) (hb : b < 0x80) : utf8Bytes (asciiPoint b) = some [b] := by
  have hall : ∀ n : Fin 256, UInt8.ofFin n < 0x80 → utf8Bytes (asciiPoint (UInt8.ofFin n)) = some [UInt8.ofFin n] := by
    decide +kernel
  exact hall b.toFin hb

theorem mapM_single {f : CodePoint → Option Bytes} {g : UInt8 → CodePoint} {raw : Bytes} (h : ∀ b ∈ raw, f (g b) = some [b]) :
    ((raw.map g).mapM f).map List.flatten = some raw := by
  induction raw with
  | nil => rfl
  | cons b raw ih =>
    have hrest := ih fun d hd => h d (List.mem_cons_of_mem b hd)
    obtain ⟨out, hout, hflat⟩ := Option.map_eq_some_iff.mp hrest
    rw [List.map_cons, List.mapM_cons, h b List.mem_cons_self, hout]
    exact congrArg (fun rest => some (b :: rest)) hflat

theorem brokenLibrary_lawful : Lawful brokenLibrary := by
  refine ⟨fun bom encoding _ => ⟨_, rfl, fun raw text htext => ?_⟩, fun raw => ?_, fun c hc => ?_⟩
  · split at htext
    · obtain ⟨hall, heq⟩ := Option.ite_none_right_eq_some.mp htext
      obtain rfl := Option.some.inj heq
      rw [List.all_eq_true] at hall
      rename_i hname
      rw [if_pos hname]
      exact mapM_single fun b hb => asciiPoint_bytes b (by simpa using hall b hb)
    · cases htext
  · exact mapM_single fun b _ => loosePoint_bytes b
  · have hescaped : isEscaped c = false := by
      simp only [isEscaped, isSurrogate, Bool.and_eq_false_iff, decide_eq_false_iff_not] at hc ⊢
      omega
    change (brokenUtf8.encodeEscape [c]).isSome = true
    simp [brokenUtf8, hescaped, utf8Bytes, hc]

/-- A policy on the letter `b`. -/
def letterPolicies : Policies where
  spans text := if text.getD 2 0 = 0x62 then [⟨2, 3, [0x2A]⟩] else []
  maskText text := if text.getD 2 0 = 0x62 then (splice text [⟨2, 3, [0x2A]⟩], 1) else (text, 0)
  inOrder text := by
    split
    · rename_i h
      have hlength : 2 < text.length := by
        by_contra hno
        rw [List.getD_eq_getElem?_getD, List.getElem?_eq_none (Nat.not_lt.mp hno)] at h
        exact absurd h (by decide)
      exact ⟨Nat.zero_le _, by decide, hlength, trivial⟩
    · trivial
  spliced text := by
    split
    · rfl
    · rfl

theorem plain_text_kept_broken :
    encode brokenLibrary (decode brokenLibrary [0x61, 0x80, 0x62]).text (decode brokenLibrary [0x61, 0x80, 0x62]) =
        some [0x61, 0x80, 0x62] ∧
      maskPlainText brokenLibrary letterPolicies [0x61, 0x80, 0x62] = some ([0x61, 0x80, 0x2A], 1) := by
  obtain ⟨hback, -, codec, hcodec, hkept⟩ := plain_text_kept brokenLibrary brokenLibrary_lawful letterPolicies [0x61, 0x80, 0x62]
  refine ⟨hback, ?_⟩
  have hdecode : decode brokenLibrary [0x61, 0x80, 0x62] = ⟨[0x61, 0xDC80, 0x62], "utf-8", [], .surrogateescape⟩ := by
    decide
  rw [hdecode] at hcodec
  obtain rfl : brokenUtf8 = codec := Option.some.inj hcodec
  have hspans : letterPolicies.spans [0x61, 0xDC80, 0x62] = [⟨2, 3, [0x2A]⟩] := rfl
  have hmasks : ∀ s ∈ letterPolicies.spans (decode brokenLibrary [0x61, 0x80, 0x62]).text, ∀ c ∈ s.body,
      isSurrogate c = false := by
    rw [hdecode, hspans]
    intro s hs c hc
    obtain rfl := List.mem_singleton.mp hs
    obtain rfl := List.mem_singleton.mp hc
    rfl
  have hmasked := (hkept ⟨utf8Bytes, [0x3F], fun _ => rfl, fun _ => rfl, fun _ => rfl⟩ hmasks).masked
    (by rw [hdecode]; decide)
  rw [hmasked, hdecode]
  decide

end XgenSdk.PlainText
