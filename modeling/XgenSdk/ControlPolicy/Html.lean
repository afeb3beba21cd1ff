import XgenSdk.Py.Json
import XgenSdk.Lib.Search
import XgenSdk.ControlPolicy.Rules

/-! Masking an HTML document: the scan that cuts it into text, raw text and
markup, and the masking of one piece. Positions are those of the source. -/
namespace XgenSdk.Html
open XgenSdk.Search XgenSdk.Splice XgenSdk.Rules

/-- `document.find(sub, start)`; `none` for `-1`. -/
def findFrom (document sub : Text) (start : Nat) : Option Nat :=
  (search (literal sub) (document.drop start)).map fun r => start + r.1

/-- Where the run of `p` from `i` on ends. -/
def runEnd (document : Text) (p : Char → Bool) (i : Nat) : Nat :=
  i + ((document.drop i).takeWhile p).length

/-- `_TAG_NAME`, `_ATTR_NAME` after its first character, `_UNQUOTED`. -/
def tagNameChar (c : Char) : Bool := !Py.isSpace c && c ≠ '/' && c ≠ '>'
def attrNameChar (c : Char) : Bool := !Py.isSpace c && c ≠ '/' && c ≠ '>' && c ≠ '='
def unquotedChar (c : Char) : Bool := !Py.isSpace c && c ≠ '>'

/-- `_TagScanner.found`: for each quote, where it was looked for and what was found. -/
abbrev Found := List (Char × Nat × Option Nat)

/-- `_TagScanner._find`. -/
def find (document : Text) (found : Found) (quote : Char) (start : Nat) : Option Nat × Found :=
  let result := findFrom document [quote] start
  match found.lookup quote with
  | some (asked, hit) =>
    if asked ≤ start ∧ (hit = none ∨ ∃ k ∈ hit, start ≤ k) then (hit, found)
    else (result, (quote, start, result) :: found)
  | none => (result, (quote, start, result) :: found)

def isQuote (c : Char) : Bool := c = '"' || c = '\''

/-- The loop of `_TagScanner.end` from `i` on; `none` where `fuel` rounds do not suffice. -/
def tagLoop (document : Text) : Nat → Found → Nat → Option (Nat × Found)
  | fuel, found, i =>
    if document.length ≤ i then some (document.length, found)
    else match fuel with
      | 0 => none
      | fuel + 1 =>
        let i := runEnd document Py.isSpace i
        match document[i]? with
        | none => some (document.length, found)
        | some ch =>
          if ch = '>' then some (i + 1, found)
          else if ch = '/' then tagLoop document fuel found (i + 1)
          else
            let i := runEnd document attrNameChar (i + 1)
            let j := runEnd document Py.isSpace i
            if document[j]? = some '=' then
              let j := runEnd document Py.isSpace (j + 1)
              match document[j]? with
              | none => tagLoop document fuel found j
              | some quote =>
                if isQuote quote then
                  match find document found quote (j + 1) with
                  | (some close, found) => tagLoop document fuel found (close + 1)
                  | (none, found) =>
                    match findFrom document ['>'] j with
                    | none => some (document.length, found)
                    | some gt => some (gt + 1, found)
                else tagLoop document fuel found (runEnd document unquotedChar j)
            else tagLoop document fuel found j

/-- `_TagScanner.end`. -/
def tagEnd (document : Text) (found : Found) (pos : Nat) : Option (Nat × Found) :=
  tagLoop document (document.length + 1) found (runEnd document tagNameChar pos)

inductive Kind where
  | text
  | raw
  | markup
  deriving DecidableEq, Repr

structure Segment where
  start : Nat
  stop : Nat
  kind : Kind
  deriving DecidableEq, Repr

def isAsciiLetter (c : Char) : Bool := ('A' ≤ c && c ≤ 'Z') || ('a' ≤ c && c ≤ 'z')

/-- What may follow `<` in a tag; at the end of the document nothing follows, and that passes too. -/
def opensTag : Text → Bool
  | '<' :: c :: _ => isAsciiLetter c || c = '/' || c = '!' || c = '?'
  | ['<'] => true
  | _ => false

/-- A letter as a case-insensitive pattern compares it: the dotted and dotless
`i` and the long `s` match theirs. -/
def caseless (c : Char) : Char :=
  if c = 'İ' ∨ c = 'ı' then 'i' else if c = 'ſ' then 's' else c.toLower

def sameCaseless (a b : Text) : Bool := a.map caseless = b.map caseless

def matchRawName (s name : Text) : Option Text :=
  let found := s.take name.length
  match s.drop name.length with
  | c :: _ => if sameCaseless found name && (Py.isSpace c || c = '/' || c = '>') then some found else none
  | [] => none

/-- The name `_HTML_RAW_TEXT` matches at the head of `s`. -/
def rawTextName : Text → Option Text
  | '<' :: s => (matchRawName s "script".toList).or (matchRawName s "style".toList)
  | _ => none

/-- What the closing tag of `name` takes from the head of `s`. -/
def closingAt (name : Text) : Text → Option Nat
  | '<' :: '/' :: s =>
    if sameCaseless (s.take name.length) name then
      let spaces := (s.drop name.length).takeWhile Py.isSpace
      if (s.drop (name.length + spaces.length)).head? = some '>' then some (2 + name.length + spaces.length + 1)
      else none
    else none
  | _ => none

def openers : List (Text × Text) :=
  [("<!--".toList, "-->".toList), ("<![CDATA[".toList, "]]>".toList)]

/-- The text before a tag, where there is any. -/
def flush (textStart stop : Nat) : List Segment :=
  if textStart < stop then [⟨textStart, stop, .text⟩] else []

/-- A comment or CDATA section from `lt` on, with where the scan goes on. -/
def sectionAt (document : Text) (lt : Nat) (opener closer : Text) : List Segment × Nat :=
  let inner := lt + opener.length
  match findFrom document closer inner with
  | none => ([⟨lt, inner, .markup⟩, ⟨inner, document.length, .raw⟩], document.length)
  | some close =>
    ([⟨lt, inner, .markup⟩, ⟨inner, close, .raw⟩, ⟨close, close + closer.length, .markup⟩],
      close + closer.length)

/-- A script or style element from `lt` on. -/
def rawTextAt (document : Text) (lt openEnd : Nat) (name : Text) : List Segment × Nat :=
  match search (closingAt name) (document.drop openEnd) with
  | none =>
    (⟨lt, openEnd, .markup⟩ :: (if openEnd < document.length then [⟨openEnd, document.length, .raw⟩] else []),
      document.length)
  | some (k, n) =>
    (⟨lt, openEnd, .markup⟩ :: (if openEnd < openEnd + k then [⟨openEnd, openEnd + k, .raw⟩] else []) ++
      [⟨openEnd + k, openEnd + k + n, .markup⟩], openEnd + k + n)

/-- The segments of whatever opens at `lt`. -/
def markupAt (document : Text) (found : Found) (lt : Nat) : Option ((List Segment × Nat) × Found) :=
  match openers.find? fun o => o.1.isPrefixOf (document.drop lt) with
  | some o => some (sectionAt document lt o.1 o.2, found)
  | none => match rawTextName (document.drop lt) with
    | some name => (tagEnd document found (lt + 1 + name.length)).map fun r =>
        (rawTextAt document lt r.1 name, r.2)
    | none => (tagEnd document found (lt + 1)).map fun r => (([⟨lt, r.1, .markup⟩], r.1), r.2)

/-- The loop of `_html_segments`; `none` where `fuel` rounds do not suffice. -/
def segmentLoop (document : Text) : Nat → Found → Nat → Nat → Option (List Segment)
  | fuel, found, pos, textStart =>
    match findFrom document ['<'] pos with
    | none => some (flush textStart document.length)
    | some lt => match fuel with
      | 0 => none
      | fuel + 1 =>
        if !opensTag (document.drop lt) then segmentLoop document fuel found (lt + 1) textStart
        else do
          let (cut, found) ← markupAt document found lt
          let rest ← segmentLoop document fuel found cut.2 cut.2
          return flush textStart lt ++ cut.1 ++ rest

def htmlSegmentsWithin (fuel : Nat) (document : Text) : Option (List Segment) :=
  segmentLoop document fuel [] 0 0

/-- `_html_segments`; the rounds are always enough. -/
def htmlSegments (document : Text) : List Segment :=
  (htmlSegmentsWithin document.length document).getD []

/-- `html.unescape` on one character reference. -/
abbrev Unescape := Text → Text

def isAsciiDigit (c : Char) : Bool := '0' ≤ c && c ≤ '9'
def isHexDigit (c : Char) : Bool := isAsciiDigit c || ('a' ≤ c && c ≤ 'f') || ('A' ≤ c && c ≤ 'F')
def isAsciiAlnum (c : Char) : Bool := isAsciiLetter c || isAsciiDigit c

/-- A run of `p` of an allowed length with a semicolon behind it, and its length with the semicolon. -/
def closedRun (p : Char → Bool) (least most : Nat) (s : Text) : Option Nat :=
  let n := (s.takeWhile p).length
  if least ≤ n ∧ n ≤ most ∧ (s.drop n).head? = some ';' then some (n + 1) else none

/-- The length of the `_HTML_ENTITY` match at the head of a text. -/
def entityLength : Text → Option Nat
  | '&' :: '#' :: x :: s =>
    if x = 'x' ∨ x = 'X' then (closedRun isHexDigit 1 6 s).map (· + 3)
    else (closedRun isAsciiDigit 1 7 (x :: s)).map (· + 2)
  | '&' :: c :: s => if isAsciiLetter c then (closedRun isAsciiAlnum 1 31 s).map (· + 2) else none
  | _ => none

/-- An unescaped reference: where it lies in the decoded text and in the segment. -/
structure Entity where
  lo : Nat
  hi : Nat
  rawLo : Nat
  rawHi : Nat
  deriving DecidableEq, Repr

structure Decoded where
  text : Text
  entities : List Entity
  deriving DecidableEq, Repr

/-- The references of the segment from `pos` on, at most `fuel` characters of it. -/
def decodeFrom (unescape : Unescape) (segment : Text) : Nat → Nat → Decoded → Decoded
  | 0, _, d => d
  | fuel + 1, pos, d =>
    match (segment.drop pos) with
    | [] => d
    | c :: _ => match entityLength (segment.drop pos) with
      | none => decodeFrom unescape segment fuel (pos + 1) { d with text := d.text ++ [c] }
      | some n =>
        let reference := slice segment pos (pos + n)
        let value := unescape reference
        -- an unknown reference is text as it stands
        if value = reference then
          decodeFrom unescape segment fuel (pos + n) { d with text := d.text ++ reference }
        else
          decodeFrom unescape segment fuel (pos + n)
            ⟨d.text ++ value, d.entities ++ [⟨d.text.length, d.text.length + value.length, pos, pos + n⟩]⟩

def decode (unescape : Unescape) (segment : Text) : Decoded :=
  decodeFrom unescape segment segment.length 0 ⟨[], []⟩

/-- `raw_range`: the range of the segment behind a character of the decoded text. -/
def rawRange (entities : List Entity) (index : Nat) : Nat × Nat :=
  match (entities.takeWhile fun e => e.lo ≤ index).getLast? with
  | none => (index, index + 1)
  | some e =>
    if index < e.hi then (e.rawLo, e.rawHi)
    else (index + e.rawHi - e.hi, index + e.rawHi - e.hi + 1)

/-- `html.escape(mask, quote=False)`. -/
def escape (mask : Text) : Text :=
  mask.flatMap fun c =>
    if c = '&' then "&amp;".toList else if c = '<' then "&lt;".toList
    else if c = '>' then "&gt;".toList else [c]

/-- `s.replace(old, new)` for a nonempty `old`; `skip` characters of a found `old` are left to drop. -/
def replaceFrom (old new : Text) : Nat → Text → Text
  | _, [] => []
  | skip + 1, _ :: s => replaceFrom old new skip s
  | 0, c :: s =>
    if old.isPrefixOf (c :: s) then new ++ replaceFrom old new (old.length - 1) s
    else c :: replaceFrom old new 0 s

def replace (s old new : Text) : Text := replaceFrom old new 0 s

/-- `_raw_safe`. -/
def rawSafe (mask : Text) : Text :=
  replace (replace (replace mask "</".toList "<\\/".toList) "-->".toList "-- >".toList)
    "]]>".toList "]] >".toList

/-- Where the spans lie in the segment, with what is written there. -/
def locate (entities : List Entity) (write : Text → Text) : Nat → List (Span Char) → List (Span Char)
  | _, [] => []
  | last, s :: rest =>
    let lo := max last (rawRange entities s.lo).1
    let hi := max last (rawRange entities (s.hi - 1)).2
    ⟨lo, hi, write s.body⟩ :: locate entities write hi rest

/-- The replacements `_mask_html_text` makes in a segment. -/
def edits (unescape : Unescape) (segment : Text) (rules : List MaskingRule) (decodeEntities : Bool) :
    List (Span Char) :=
  let decoded := if decodeEntities && segment.contains '&' then decode unescape segment else ⟨segment, []⟩
  locate decoded.entities (if decodeEntities then escape else rawSafe) 0 (findMaskedSpans decoded.text rules)

/-- `_mask_html_text`. -/
def maskHtmlText (unescape : Unescape) (segment : Text) (rules : List MaskingRule) (decodeEntities : Bool) :
    Text × Nat :=
  let found := edits unescape segment rules decodeEntities
  if found.isEmpty then (segment, 0) else (splice segment found, found.length)

def content (document : Text) (s : Segment) : Text := slice document s.start s.stop

/-- A segment as it is written, with its hits. -/
def maskSegment (unescape : Unescape) (rules : List MaskingRule) (document : Text) (s : Segment) : Text × Nat :=
  let piece := content document s
  if s.kind ≠ .markup ∧ piece ≠ [] then
    let masked := maskHtmlText unescape piece rules (s.kind = .text)
    if masked.2 ≠ 0 then masked else (piece, 0)
  else (piece, 0)

/-- `mask_html_document`. -/
def maskHtmlDocument (unescape : Unescape) (document : Text) (rules : List MaskingRule) : Text × Nat :=
  if document = [] ∨ rules = [] then (document, 0)
  else
    let pieces := (htmlSegments document).map (maskSegment unescape rules document)
    let hits := (pieces.map Prod.snd).sum
    (if hits ≠ 0 then pieces.flatMap Prod.fst else document, hits)

end XgenSdk.Html
