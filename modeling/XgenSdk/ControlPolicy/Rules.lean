import XgenSdk.Lib.Splice
import XgenSdk.Lib.MergeForest
import Mathlib.Data.List.Sort

/-! Applying masking rules to a text, and finding which ranges of the original
text they mask. A compiled pattern is the ordered list of matches it gives for
each text, every match with its replacement. -/
namespace XgenSdk.Rules
open XgenSdk.Splice XgenSdk.MergeForest

abbrev Text := List Char

/-- A match and what the mask expands to there. -/
structure Match where
  start : Nat
  stop : Nat
  expansion : Text
  deriving DecidableEq, Repr

/-- An empty match hides nothing, so nothing is put in its place. -/
def Match.replacement (m : Match) : Text := if m.stop = m.start then [] else m.expansion

def Match.span (m : Match) : Span Char := ⟨m.start, m.stop, m.replacement⟩

def Match.nonempty (m : Match) : Bool := m.start < m.stop

/-- A compiled policy; matches come in order, without overlap and in bounds. -/
structure MaskingRule where
  policyId : Option Int
  policyName : String
  policyType : String
  finditer : Text → List Match
  ordered : ∀ text, InOrder text.length 0 ((finditer text).map Match.span)

/-- `pattern.sub(replacement, text)`. -/
def MaskingRule.substitute (rule : MaskingRule) (text : Text) : Text :=
  splice text ((rule.finditer text).map Match.span)

/-- The matches that hide something. -/
def MaskingRule.hits (rule : MaskingRule) (text : Text) : List Match :=
  (rule.finditer text).filter Match.nonempty

/-! Applying rules. -/

def sampleLimit : Nat := 3

structure Sample where
  original : Text
  masked : Text
  deriving DecidableEq, Repr

structure Detection where
  policyId : Option Int
  policyName : String
  policyType : String
  count : Nat
  samples : List Sample
  deriving DecidableEq, Repr

structure MaskingResult where
  text : Text
  detections : List Detection
  totalDetected : Nat
  changedPolicyIds : List Int
  changedPolicyNames : List String
  policiesUsed : Nat
  deriving DecidableEq, Repr

/-- The first samples of distinct originals. -/
def collectSamples (text : Text) : List Sample → List Match → List Sample
  | samples, [] => samples
  | samples, hit :: hits =>
    let original := slice text hit.start hit.stop
    if samples.any fun s => s.original = original then collectSamples text samples hits
    else
      let samples := samples ++ [⟨original, hit.replacement⟩]
      if sampleLimit ≤ samples.length then samples else collectSamples text samples hits

def applyRule (mask : Bool) (result : MaskingResult) (rule : MaskingRule) : MaskingResult :=
  let hits := rule.hits result.text
  if hits.isEmpty then result
  else
    let found := { result with
      detections := result.detections ++ [{
        policyId := rule.policyId, policyName := rule.policyName, policyType := rule.policyType
        count := hits.length, samples := collectSamples result.text [] hits }]
      totalDetected := result.totalDetected + hits.length }
    let masked := rule.substitute result.text
    if !mask || masked = result.text then found
    else { found with
      text := masked
      changedPolicyIds := found.changedPolicyIds ++ rule.policyId.toList
      changedPolicyNames := found.changedPolicyNames ++ [rule.policyName] }

def applyRules (text : Text) (rules : List MaskingRule) (mask : Bool) : MaskingResult :=
  let result : MaskingResult := ⟨text, [], 0, [], [], rules.length⟩
  if text.isEmpty || rules.isEmpty then result else rules.foldl (applyRule mask) result

/-! Finding the masked spans. -/

/-- A piece of the current text: original text from `start` on where there is
no unit, else (part of) the mask of a unit. -/
structure Piece where
  unit : Option Nat
  start : Nat
  body : Text
  deriving DecidableEq, Repr

def Piece.cut (p : Piece) (a b : Nat) : Piece :=
  ⟨p.unit, if p.unit.isNone then p.start + a else p.start, slice p.body a b⟩

/-- Mask units: a forest of merges, and the hull of the original text at each root. -/
structure Units where
  parent : List Nat
  lo : List Nat
  hi : List Nat
  deriving DecidableEq, Repr

def Units.find (units : Units) (u : Nat) : Units × Nat :=
  let found := MergeForest.find units.parent.length units.parent u
  ({ units with parent := found.1 }, found.2)

/-- The scan of one rule: pieces done, pieces ahead, and where in the text of
the previous rule the pieces ahead begin. -/
structure Scan where
  out : List Piece
  queue : List Piece
  offset : Nat
  deriving DecidableEq, Repr

/-- Move past the pieces that end before `ms`, cutting the one it falls into. -/
def skipTo (ms : Nat) (out : List Piece) (offset : Nat) : List Piece → Scan
  | [] => ⟨out, [], offset⟩
  | p :: queue =>
    if offset + p.body.length ≤ ms then skipTo ms (out ++ [p]) (offset + p.body.length) queue
    else if offset < ms then
      ⟨out ++ [p.cut 0 (ms - offset)], p.cut (ms - offset) p.body.length :: queue, ms⟩
    else ⟨out, p :: queue, offset⟩

/-- What a match has taken so far: the range of original text and the roots of
the masks among it. -/
structure Taken where
  units : Units
  first : Option Nat
  last : Option Nat
  roots : List Nat
  deriving DecidableEq, Repr

def Taken.add (t : Taken) (p : Piece) (take : Nat) : Taken :=
  match p.unit with
  | none => { t with
      first := some (match t.first with | none => p.start | some a => min a p.start)
      last := some (match t.last with | none => p.start + take | some b => max b (p.start + take)) }
  | some u =>
    let found := t.units.find u
    { t with
      units := found.1
      roots := if t.roots.contains found.2 then t.roots else t.roots ++ [found.2] }

/-- Take pieces up to `me`, cutting the one it falls into. -/
def takeTo (me : Nat) (taken : Taken) (offset : Nat) : List Piece → Taken × List Piece × Nat
  | [] => (taken, [], offset)
  | p :: queue =>
    if offset < me then
      let take := min p.body.length (me - offset)
      let taken := taken.add p take
      if take < p.body.length then (taken, p.cut take p.body.length :: queue, offset + take)
      else takeTo me taken (offset + take) queue
    else (taken, p :: queue, offset)

/-- One new unit over everything taken. -/
def Taken.close (t : Taken) : Units :=
  let boundsLo := t.roots.map (fun r => t.units.lo.getD r 0) ++ t.first.toList
  let boundsHi := t.roots.map (fun r => t.units.hi.getD r 0) ++ t.last.toList
  let unit := t.units.parent.length
  { parent := hang unit t.roots (t.units.parent ++ [unit])
    lo := t.units.lo ++ [boundsLo.min?.getD 0]
    hi := t.units.hi ++ [boundsHi.max?.getD 0] }

structure Progress where
  scan : Scan
  units : Units
  ghosts : List Nat
  deriving DecidableEq, Repr

/-- One match of a rule: its pieces become the mask of a new unit; a mask
without characters leaves only a ghost. -/
def maskMatch (s : Progress) (m : Match) : Progress :=
  let scan := skipTo m.start s.scan.out s.scan.offset s.scan.queue
  let (taken, queue, offset) := takeTo m.stop ⟨s.units, none, none, []⟩ scan.offset scan.queue
  let unit := taken.units.parent.length
  let rep := m.replacement
  { scan := ⟨scan.out ++ (if rep.isEmpty then [] else [⟨some unit, 0, rep⟩]), queue, offset⟩
    units := taken.close
    ghosts := s.ghosts ++ (if rep.isEmpty then [unit] else []) }

structure Masking where
  pieces : List Piece
  units : Units
  ghosts : List Nat
  deriving DecidableEq, Repr

def joined (pieces : List Piece) : Text := pieces.flatMap Piece.body

def maskRule (state : Masking) (rule : MaskingRule) : Masking :=
  let hits := rule.hits (joined state.pieces)
  if hits.isEmpty then state
  else
    let done := hits.foldl maskMatch ⟨⟨[], state.pieces, 0⟩, state.units, state.ghosts⟩
    ⟨done.scan.out ++ done.scan.queue, done.units, done.ghosts⟩

/-- The bodies of the pieces of `root` at the head, and what follows them. -/
def gather (root : Nat) : Units → List Piece → Text × List Piece × Units
  | units, [] => ([], [], units)
  | units, p :: rest =>
    match p.unit with
    | none => ([], p :: rest, units)
    | some u =>
      let found := units.find u
      if found.2 = root then
        let tail := gather root found.1 rest
        (p.body ++ tail.1, tail.2)
      else ([], p :: rest, found.1)

/-- One span for each run of pieces of one root, with the roots seen. -/
def pieceSpans (units : Units) (seen : List Nat) : Nat → List Piece → List (Span Char) × List Nat × Units
  | 0, _ => ([], seen, units)
  | _+1, [] => ([], seen, units)
  | fuel+1, p :: rest =>
    match p.unit with
    | none => pieceSpans units seen fuel rest
    | some u =>
      let found := units.find u
      let root := found.2
      let run := gather root found.1 rest
      let tail := pieceSpans run.2.2 (seen ++ [root]) fuel run.2.1
      (⟨run.2.2.lo.getD root 0, run.2.2.hi.getD root 0, p.body ++ run.1⟩ :: tail.1, tail.2)

/-- One empty span for each root that only ghosts have. -/
def ghostSpans (units : Units) (seen : List Nat) : List Nat → List (Span Char)
  | [] => []
  | g :: ghosts =>
    let found := units.find g
    let root := found.2
    if seen.contains root then ghostSpans found.1 seen ghosts
    else ⟨units.lo.getD root 0, units.hi.getD root 0, []⟩ :: ghostSpans found.1 (seen ++ [root]) ghosts

def spanLe (a b : Span Char) : Prop := a.lo < b.lo ∨ (a.lo = b.lo ∧ a.hi ≤ b.hi)

instance : DecidableRel spanLe := fun _ _ => instDecidableOr

/-- Join a span with the following ones that begin inside it. -/
def mergeFrom (last : Span Char) : List (Span Char) → List (Span Char)
  | [] => [last]
  | s :: rest =>
    if s.lo < last.hi then mergeFrom ⟨last.lo, max last.hi s.hi, last.body ++ s.body⟩ rest
    else last :: mergeFrom s rest

def mergeSpans : List (Span Char) → List (Span Char)
  | [] => []
  | s :: rest => mergeFrom s rest

def findMaskedSpans (text : Text) (rules : List MaskingRule) : List (Span Char) :=
  if text.isEmpty || rules.isEmpty then []
  else
    let state := rules.foldl maskRule ⟨[⟨none, 0, text⟩], ⟨[], [], []⟩, []⟩
    if state.units.parent.isEmpty then []
    else
      let found := pieceSpans state.units [] state.pieces.length state.pieces
      let spans := found.1 ++ ghostSpans found.2.2 found.2.1 state.ghosts
      mergeSpans (spans.insertionSort spanLe)

end XgenSdk.Rules
