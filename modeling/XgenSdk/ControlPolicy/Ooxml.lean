import XgenSdk.ControlPolicy.HtmlUnescape
import XgenSdk.Lib.Pieces

/-! Masking an XML part of an Office document: the chunks of paragraphs and
cells, the text nodes of a chunk, and the masks over the nodes. -/
namespace XgenSdk.Ooxml
open XgenSdk.Splice XgenSdk.Rules XgenSdk.Html XgenSdk.Matches XgenSdk.Pieces

/-- `\w`; what the Unicode tables add is a parameter. -/
abbrev WordTable := Char → Bool

def isWord (table : WordTable) (c : Char) : Bool :=
  c = '_' || isAsciiLetter c || isAsciiDigit c || (0x80 ≤ c.toNat && table c)

/-- `(?:[A-Za-z][\w.-]*:)?` before one of some names. -/
def isName (table : WordTable) (locals : List Text) (name : Text) : Bool :=
  let before := name.takeWhile (· ≠ ':')
  locals.contains name ||
    (before.head?.any isAsciiLetter && before.tail.all (fun c => isWord table c || c = '.' || c = '-') &&
      before.length < name.length && locals.contains (name.drop (before.length + 1)))

/-! `_OOXML_TEXT_RE`. -/

def textNames : List Text := ["t".toList, "delText".toList, "instrText".toList, "text".toList]

/-- The name of a tag, up to a blank or its end. -/
def tagName (s : Text) : Text := s.takeWhile fun c => !Py.isSpace c && c ≠ '>'

/-- Group 1: up to the first `>`. -/
def opening (s : Text) : Text := s.take ((s.takeWhile (· ≠ '>')).length + 1)

def afterOpening (s : Text) : Text := s.drop ((s.takeWhile (· ≠ '>')).length + 1)

/-- Group 3. -/
def content (s : Text) : Text := (afterOpening s).takeWhile (· ≠ '<')

def afterContent (s : Text) : Text := (afterOpening s).dropWhile (· ≠ '<')

/-- Group 4. -/
def closing (name : Text) : Text := '<' :: '/' :: (name ++ ['>'])

/-- The length of the `_OOXML_TEXT_RE` match at the head of a text. -/
def textLength (table : WordTable) : Text → Option Nat
  | '<' :: s =>
    let name := tagName s
    if isName table textNames name && (closing name).isPrefixOf (afterContent ('<' :: s)) then
      some ((opening ('<' :: s)).length + (content ('<' :: s)).length + (closing name).length)
    else none
  | _ => none

/-! `_OOXML_GROUP_TAG_RE`. -/

/-- A tag of a group: where it starts and ends, whether it closes, whether it closes itself. -/
structure GroupTag where
  start : Nat
  stop : Nat
  closes : Bool
  selfClosing : Bool
  deriving DecidableEq, Repr

def isGroupName (table : WordTable) (name : Text) : Bool :=
  name = "w:p".toList || name = "a:p".toList || isName table ["si".toList, "is".toList, "comment".toList] name

def groupName (s : Text) : Text := s.takeWhile fun c => !Py.isSpace c && c ≠ '/' && c ≠ '>'

/-- The length of the match at the head of a text, with its first and last group. -/
def groupTagAt (table : WordTable) : Text → Option (Nat × Bool × Bool)
  | '<' :: s =>
    let closes := s.head? = some '/'
    let name := groupName (if closes then s.tail else s)
    let inside := s.takeWhile (· ≠ '>')
    if isGroupName table name && inside.length < s.length then
      -- a slash that belongs to the opening bracket is not the one before the closing one
      let rest := (if closes then inside.tail else inside).drop name.length
      some (inside.length + 2, closes, rest.getLast? = some '/')
    else none
  | _ => none

def groupTagsFrom (table : WordTable) : Nat → List (Matches.Part Char) → List GroupTag
  | _, [] => []
  | pos, .single _ :: rest => groupTagsFrom table (pos + 1) rest
  | pos, .found r :: rest =>
    match groupTagAt table r with
    | some (_, closes, selfClosing) =>
      ⟨pos, pos + r.length, closes, selfClosing⟩ :: groupTagsFrom table (pos + r.length) rest
    | none => groupTagsFrom table (pos + r.length) rest

def groupTags (table : WordTable) (xml : Text) : List GroupTag :=
  groupTagsFrom table 0 (parts (fun s => (groupTagAt table s).map Prod.fst) xml)

/-- A chunk, and whether its nodes are read as one text. -/
structure Chunk where
  start : Nat
  stop : Nat
  joined : Bool
  deriving DecidableEq, Repr

/-- The loop of `_ooxml_groups`. -/
def chunksFrom (length : Nat) : Nat → Nat → List GroupTag → List Chunk
  | last, depth, [] => [⟨last, length, depth > 0⟩]
  | last, depth, tag :: rest =>
    let depth' := if !tag.selfClosing then (if tag.closes then depth - 1 else depth + 1) else depth
    ⟨last, tag.start, depth > 0⟩ :: ⟨tag.start, tag.stop, false⟩ :: chunksFrom length tag.stop depth' rest

/-- `_ooxml_groups`. -/
def ooxmlGroups (table : WordTable) (xml : Text) : List Chunk :=
  chunksFrom xml.length 0 0 (groupTags table xml)

/-! `_mask_ooxml_fragment`. -/

/-- Where the content of a text node lies. -/
structure Node where
  start : Nat
  stop : Nat
  deriving DecidableEq, Repr

def nodesFrom : Nat → List (Matches.Part Char) → List Node
  | _, [] => []
  | pos, .single _ :: rest => nodesFrom (pos + 1) rest
  | pos, .found r :: rest =>
    ⟨pos + (opening r).length, pos + (opening r).length + (content r).length⟩ :: nodesFrom (pos + r.length) rest

/-- `_OOXML_TEXT_RE.finditer`. -/
def textNodes (table : WordTable) (fragment : Text) : List Node := nodesFrom 0 (parts (textLength table) fragment)

/-- One node from `cursor` on. -/
def cutNode (piece : Text) (start : Nat) : Nat → List (Span Char) → Text
  | cursor, [] => if cursor < start + piece.length then piece.drop (cursor - start) else []
  | cursor, s :: rest =>
    let stop := start + piece.length
    if s.lo < stop then
      let kept := if cursor < s.lo then slice piece (cursor - start) (s.lo - start) else []
      let mask := if start ≤ s.lo then s.body else []
      let cursor := max cursor (min s.hi stop)
      kept ++ mask ++
        -- a match that goes on in the next node
        (if stop < s.hi then (if cursor < stop then piece.drop (cursor - start) else [])
          else cutNode piece start cursor rest)
    else if cursor < stop then piece.drop (cursor - start) else []

/-- The loop over the nodes of a group: the new text of each that is touched. -/
def cutNodes : Nat → List (Span Char) → List Text → List (Option Text)
  | _, _, [] => []
  | start, spans, piece :: rest =>
    let ahead := spans.dropWhile fun s => s.hi ≤ start
    let stop := start + piece.length
    (if ahead.head?.any fun s => s.lo < stop then some (cutNode piece start start ahead) else none) ::
      cutNodes stop ahead rest

/-- One group of nodes, with its hits. -/
def maskGroup (rules : List MaskingRule) (texts : List Text) : List (Option Text) × Nat :=
  let spans := findMaskedSpans texts.flatten rules
  if spans.isEmpty then (texts.map fun _ => none, 0) else (cutNodes 0 spans texts, spans.length)

/-- `xml.sax.saxutils.escape`. -/
def xmlEscape (text : Text) : Text := escape text

def raw (fragment : Text) (node : Node) : Text := slice fragment node.start node.stop

/-- `_mask_ooxml_fragment`. -/
def maskOoxmlFragment (unescape : Unescape) (table : WordTable) (fragment : Text) (rules : List MaskingRule) (joined : Bool) :
    Text × Nat :=
  let nodes := textNodes table fragment
  if nodes.isEmpty then (fragment, 0)
  else
    let pieces := nodes.map fun node => unescape (raw fragment node)
    let groups := if joined then [pieces] else pieces.map fun piece => [piece]
    let masked := groups.map (maskGroup rules)
    let replaced := (masked.flatMap Prod.fst).map fun text => text.map xmlEscape
    let hits := (masked.map Prod.snd).sum
    if replaced.all Option.isNone then (fragment, hits)
    else
      (splice fragment (List.zipWith (fun node text => ⟨node.start, node.stop, text.getD (raw fragment node)⟩) nodes replaced),
        hits)

/-- `_mask_ooxml_part`. -/
def maskOoxmlPart (unescape : Unescape) (table : WordTable) (xml : Text) (rules : List MaskingRule) : Text × Nat :=
  let masked := (ooxmlGroups table xml).map fun chunk =>
    maskOoxmlFragment unescape table (slice xml chunk.start chunk.stop) rules chunk.joined
  (masked.flatMap Prod.fst, (masked.map Prod.snd).sum)

end XgenSdk.Ooxml
