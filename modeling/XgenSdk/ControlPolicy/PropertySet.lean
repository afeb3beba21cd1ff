import XgenSdk.ControlPolicy.PlainText
import XgenSdk.Lib.Sorting
import XgenSdk.Lib.Dict
import XgenSdk.Py.Struct
import Mathlib.Data.List.DropRight

/-! OLE property sets: their sections, the values of a section, and masking the
texts among them. Raising is `none`. -/
namespace XgenSdk.PropertySet
open XgenSdk.Py.Utf16 XgenSdk.Py.Struct XgenSdk.Splice XgenSdk.Sorting XgenSdk.PlainText

def sectionAt (data : Bytes) (i : Nat) : Option (Nat × Bytes) := do
  let offset ← unpack 4 data (44 + i * 20)
  let size ← unpack 4 data offset
  if offset + size > data.length ∨ size < 8 then none else some (offset, slice data offset (offset + size))

/-- `_property_sections`. -/
def propertySections (data : Bytes) : Option (List (Nat × Bytes)) := do
  if data.length < 48 ∨ unpack 2 data 0 ≠ some 0xFFFE then none
  else do
    let count ← unpack 4 data 24
    if ¬ (1 ≤ count ∧ count ≤ 16) ∨ data.length < 28 + count * 20 then none
    else (List.range count).mapM (sectionAt data)

/-! One section. -/

/-- A row of the table in front of the values. -/
structure Entry where
  pid : Nat
  offset : Nat
  deriving DecidableEq, Repr

def entryAt (part : Bytes) (i : Nat) : Option Entry := do
  let pid ← unpack 4 part (8 + i * 8)
  let offset ← unpack 4 part (8 + i * 8 + 4)
  return ⟨pid, offset⟩

/-- The code page after an entry: that of a VT_I2 under id 1. -/
def codepageStep (part : Bytes) (codepage : Nat) (e : Entry) : Option Nat :=
  if e.pid = 1 then do
    let kind ← unpack 4 part e.offset
    if kind = 2 then unpack 2 part (e.offset + 4) else some codepage
  else some codepage

def encodingName (codepage : Nat) : String :=
  if codepage = 1200 then "utf-16-le" else if codepage = 65001 then "utf-8" else "cp" ++ toString codepage

/-- Where the value at each offset ends: at the next offset, the last at the end of the section. -/
def boundsFrom (size : Nat) : List Entry → Dict Nat Nat → Dict Nat Nat
  | [], bounds => bounds
  | e :: rest, bounds => boundsFrom size rest (bounds.set e.offset ((rest.head?.map Entry.offset).getD size))

/-- What is read of a section before its values. -/
structure Layout where
  count : Nat
  entries : List Entry
  encoding : String
  ordered : List Entry
  bounds : Dict Nat Nat

def readLayout (part : Bytes) : Option Layout := do
  let size ← unpack 4 part 0
  let count ← unpack 4 part 4
  let entries ← (List.range count).mapM (entryAt part)
  let codepage ← entries.foldlM (codepageStep part) 1252
  let ordered := byKey Entry.offset entries
  return ⟨count, entries, encodingName codepage, ordered, boundsFrom size ordered Dict.empty⟩

variable (L : Library) (P : Policies)

/-- `VT_LPSTR`. -/
def narrow : Nat := 0x1E

/-- `VT_LPWSTR`. -/
def wide : Nat := 0x1F

/-- `_PROPERTY_TEXTISH`. -/
def textish : List Nat := [0x08, 0x41, 0x101E, 0x101F, 0x100C]

def kindOf (value : Bytes) : Nat := if 4 ≤ value.length then leNat (value.take 4) else 0

def isText (pid : Nat) (value : Bytes) : Bool :=
  1 < pid && (kindOf value == narrow || kindOf value == wide) && 8 ≤ value.length

/-- `text.rstrip("\0")`. -/
def rstripNul (text : Str) : Str := text.rdropWhile fun c => c = 0

/-- The encoding of a kind of text, and the bytes that its length counts as one. -/
def textEncoding (encoding : String) (kind : Nat) : String := if kind = wide then "utf-16-le" else encoding

def unitSize (kind : Nat) : Nat := if kind = wide then 2 else 1

/-- The text of a value of a text kind. -/
def readText (encoding : String) (value : Bytes) : Option Str := do
  let length ← unpack 4 value 4
  let codec ← L.codec (textEncoding encoding (kindOf value))
  let text ← codec.decode (slice value 8 (8 + length * unitSize (kindOf value)))
  return rstripNul text

/-- Zero bytes up to a multiple of four. -/
def padded (value : Bytes) : Bytes := value ++ List.replicate ((4 - value.length % 4) % 4) 0

/-- UTF-16 raises where a code page writes a question mark. -/
def encodeText (codec : Codec) (kind : Nat) (text : Str) : Option Bytes :=
  if kind = wide then codec.encode text else some (codec.encodeReplace text)

/-- A value of a kind with a new text. -/
def writeText (encoding : String) (kind : Nat) (text : Str) : Option Bytes := do
  let codec ← L.codec (textEncoding encoding kind)
  let body ← encodeText codec kind (text ++ [0])
  let length ← pack32 (body.length / unitSize kind)
  return padded (leBytes 4 kind ++ length ++ body)

structure MaskedValue where
  bytes : Bytes
  hits : Nat
  text : Option Str
  deriving DecidableEq, Repr

def maskValue (encoding : String) (pid : Nat) (value : Bytes) : Option MaskedValue :=
  if isText pid value then do
    let text ← readText L encoding value
    let result := P.maskText text
    if result.1 ≠ text then do
      let written ← writeText L encoding (kindOf value) result.1
      return ⟨written, result.2, some text⟩
    else return ⟨value, 0, some text⟩
  else some ⟨value, 0, none⟩

/-- A value that may hold text in a form that is not rewritten. -/
def leftover (pid : Nat) (value : Bytes) : Option Bytes :=
  if 1 < pid ∧ kindOf value ∈ textish then some (value.drop 4) else none

/-- The value at an offset of a section. -/
def valueAt (part : Bytes) (bounds : Dict Nat Nat) (offset : Nat) : Option Bytes :=
  (bounds.get offset).map (slice part offset)

structure Values where
  values : Dict Nat Bytes
  hits : Nat
  texts : List Str
  leftovers : List Bytes

def maskEntry (part : Bytes) (layout : Layout) (state : Values) (e : Entry) : Option Values := do
  let value ← valueAt part layout.bounds e.offset
  let masked ← maskValue L P layout.encoding e.pid value
  return ⟨state.values.set e.offset masked.bytes, state.hits + masked.hits, state.texts ++ masked.text.toList,
    state.leftovers ++ (leftover e.pid value).toList⟩

/-- The values in the order of their offsets, and where each is placed. -/
def placeValues (values : Dict Nat Bytes) (start : Nat) : List Entry → Dict Nat Nat × Bytes → Option (Dict Nat Nat × Bytes)
  | [], done => some done
  | e :: rest, (placed, body) => do
    let value ← values.get e.offset
    placeValues values start rest (placed.set e.offset (start + body.length), body ++ value)

def tableRow (placed : Dict Nat Nat) (e : Entry) : Option Bytes := do
  let pid ← pack32 e.pid
  let place ← placed.get e.offset
  let offset ← pack32 place
  return pid ++ offset

structure MaskedSection where
  bytes : Bytes
  hits : Nat
  texts : List Str
  leftovers : List Bytes
  deriving DecidableEq, Repr

/-- `_mask_property_section`. -/
def maskPropertySection (part : Bytes) : Option MaskedSection := do
  let layout ← readLayout part
  let done ← layout.entries.foldlM (maskEntry L P part layout) ⟨Dict.empty, 0, [], []⟩
  if done.hits = 0 then return ⟨part, 0, done.texts, done.leftovers⟩
  else do
    let start := 8 + layout.count * 8
    let (placed, body) ← placeValues done.values start layout.ordered (Dict.empty, [])
    let table ← layout.entries.mapM (tableRow placed)
    let size ← pack32 (start + body.length)
    let count ← pack32 layout.count
    return ⟨size ++ count ++ table.flatten ++ body, done.hits, done.texts, done.leftovers⟩

/-! The whole set. -/

/-- The offsets of the sections written into the head. -/
def placeSections : Nat → Nat → List Bytes → Bytes → Option Bytes
  | _, _, [], head => some head
  | i, cursor, part :: rest, head => do
    let offset ← pack32 cursor
    placeSections (i + 1) (cursor + part.length) rest (overwrite (44 + i * 20) offset head)

structure MaskedSet where
  bytes : Bytes
  hits : Nat
  leftovers : List Bytes
  deriving DecidableEq, Repr

/-- `_mask_property_set`. -/
def maskPropertySet (data : Bytes) : Option MaskedSet := do
  let parts ← propertySections data
  let sections ← parts.mapM fun part => maskPropertySection L P part.2
  let hits := (sections.map MaskedSection.hits).sum
  let leftovers := sections.flatMap MaskedSection.leftovers
  if hits = 0 then return ⟨data, 0, leftovers⟩
  else do
    let head := data.take (28 + parts.length * 20)
    let head ← placeSections 0 head.length (sections.map MaskedSection.bytes) head
    return ⟨head ++ (sections.map MaskedSection.bytes).flatten, hits, leftovers⟩

/-- `apply_rules(text, [])`. -/
def noPolicies : Policies where
  maskText text := (text, 0)
  spans _ := []
  inOrder _ := trivial
  spliced _ := rfl

/-- `_property_texts`. -/
def propertyTexts (data : Bytes) : List Str :=
  (do
    let parts ← propertySections data
    let sections ← parts.mapM fun part => maskPropertySection L noPolicies part.2
    return sections.flatMap MaskedSection.texts : Option (List Str)).getD []

end XgenSdk.PropertySet
