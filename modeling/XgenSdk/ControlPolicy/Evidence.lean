import XgenSdk.ControlPolicy.Rules
import XgenSdk.Py.Json
import XgenSdk.Lib.Dict
import XgenSdk.Lib.Outcomes
import XgenSdk.Lib.Checks

/-! The typed evidence of a detection, and what recording a result asks of it. -/
namespace XgenSdk.Evidence
open XgenSdk.Py XgenSdk.Rules XgenSdk.Checks XgenSdk.Outcomes

def maxDetections : Nat := 100
def maxSamples : Nat := 100
def maxSampleText : Nat := 16384
def maxNames : Nat := 100
def maxName : Nat := 100

def sources : List String :=
  ["workflow_agent", "workflow_execution_meta", "workflow_guarder", "workflow_rag", "workflow_tool", "document_upload",
    "document_ocr_supplement", "chat_input", "chat_upload", "filestore_upload"]

def policyTypes : List String := ["pii", "forbidden_word", "guarder"]
def entryKeys : List String := ["policy_id", "policy_name", "policy_type", "count", "samples", "enforced"]
def sampleKeys : List String := ["original", "masked"]

structure EvidenceWriteError where
  code : String
  retryable : Bool
  deriving DecidableEq, Repr

def requestInvalid : EvidenceWriteError := ⟨"EVIDENCE_REQUEST_INVALID", false⟩

abbrev Checked := Except EvidenceWriteError

/-- `_text`. -/
def textOf (value : Json) (maximum : Nat) : Checked String :=
  match value with
  | .str s => if maximum < s.length then .error requestInvalid else .ok s
  | _ => .error requestInvalid

/-- `_optional`, and `_text` of an optional value. -/
def optionalText (value : Json) (maximum : Nat) : Checked (Option String) :=
  match value with
  | .null => .ok none
  | value => (textOf value maximum).map some

/-! Samples and detections. -/

structure EvidenceSample where
  original : String
  masked : String
  originalFits : original.length ≤ maxSampleText
  maskedFits : masked.length ≤ maxSampleText

/-- `EvidenceSample(original, masked)`. -/
def EvidenceSample.make (original masked : Json) : Checked EvidenceSample := do
  let original ← textOf original maxSampleText
  let masked ← textOf masked maxSampleText
  if h : original.length ≤ maxSampleText ∧ masked.length ≤ maxSampleText then return ⟨original, masked, h.1, h.2⟩
  else .error requestInvalid

def EvidenceSample.wire (s : EvidenceSample) : Json := .obj [("original", .str s.original), ("masked", .str s.masked)]

structure EvidenceDetection where
  policyId : Option Int
  policyName : String
  count : Nat
  samples : List EvidenceSample
  enforced : Bool
  nameFits : policyName.length ≤ maxName
  samplesFit : samples.length ≤ maxSamples

/-- An optional number that is no `bool`. -/
def optionalId : Json → Checked (Option Int)
  | .null => .ok none
  | .int n => .ok (some n)
  | _ => .error requestInvalid

def countOf : Json → Checked Nat
  | .int n => if n < 0 then .error requestInvalid else .ok n.toNat
  | _ => .error requestInvalid

def flagOf : Json → Checked Bool
  | .bool b => .ok b
  | _ => .error requestInvalid

/-- `EvidenceDetection(policy_id, policy_name, count, samples, enforced)`. -/
def EvidenceDetection.make (policyId policyName count : Json) (samples : List EvidenceSample) (enforced : Json) :
    Checked EvidenceDetection := do
  let policyId ← optionalId policyId
  let policyName ← textOf policyName maxName
  let count ← countOf count
  let enforced ← flagOf enforced
  if h : policyName.length ≤ maxName ∧ samples.length ≤ maxSamples then
    return ⟨policyId, policyName, count, samples, enforced, h.1, h.2⟩
  else .error requestInvalid

def EvidenceDetection.wire (d : EvidenceDetection) : Json :=
  .obj [("policy_id", d.policyId.elim .null .int), ("policy_name", .str d.policyName), ("count", .int d.count),
    ("enforced", .bool d.enforced), ("samples", .arr (d.samples.map EvidenceSample.wire))]

/-- What anyone may see: the samples are left out. -/
def EvidenceDetection.safe (d : EvidenceDetection) : Json :=
  .obj [("policy_id", d.policyId.elim .null .int), ("policy_name", .str d.policyName), ("count", .int d.count),
    ("enforced", .bool d.enforced), ("samples", .arr [])]

structure EvidenceDetections where
  typed : List EvidenceDetection
  fits : typed.length ≤ maxDetections

def EvidenceDetections.make (values : List EvidenceDetection) : Checked EvidenceDetections :=
  if h : values.length ≤ maxDetections then .ok ⟨values, h⟩ else .error requestInvalid

/-- The dict's value at a key, or the default. -/
def valueOr (fields : List (String × Json)) (key : String) (other : Json) : Json := (Json.lookup key fields).getD other

def buildSample : Json → Checked EvidenceSample
  | .obj fields =>
    if fields.all fun f => sampleKeys.contains f.1 then
      EvidenceSample.make (valueOr fields "original" .null) (valueOr fields "masked" (.str ""))
    else .error requestInvalid
  | _ => .error requestInvalid

/-- The samples of an entry, still unread. -/
def rawSamples (fields : List (String × Json)) : Checked (List Json) :=
  match valueOr fields "samples" (.arr []) with
  | .arr raw => if maxSamples < raw.length then .error requestInvalid else .ok raw
  | _ => .error requestInvalid

/-- The body of the loop of `build_detections`. -/
def buildDetection : Json → Checked EvidenceDetection
  | .obj fields =>
    if fields.all fun f => entryKeys.contains f.1 then do
      let raw ← rawSamples fields
      let samples ← raw.mapM buildSample
      EvidenceDetection.make (valueOr fields "policy_id" .null) (valueOr fields "policy_name" (.str ""))
        (valueOr fields "count" (.int raw.length)) samples (valueOr fields "enforced" (.bool true))
    else .error requestInvalid
  | _ => .error requestInvalid

def buildLoop : List EvidenceDetection → List Json → Checked (List EvidenceDetection)
  | normalized, [] => .ok normalized
  | normalized, entry :: entries =>
    if maxDetections ≤ normalized.length then .error requestInvalid
    else do
      let detection ← buildDetection entry
      buildLoop (normalized ++ [detection]) entries

/-- `build_detections`. -/
def buildDetections (entries : List Json) : Checked EvidenceDetections := do
  let normalized ← buildLoop [] entries
  EvidenceDetections.make normalized

/-! Events. -/

structure EvidenceEvent where
  source : String
  policyType : String
  policyIds : List Int
  policyNames : List String
  totalDetected : Nat
  workflowId : Option String
  executionId : Option String
  interactionId : Option String
  nodeId : Option String
  collectionName : Option String
  collectionDisplayName : Option String
  documentName : Option String
  userId : Option Int
  username : Option String
  sessionId : Option String
  deriving DecidableEq, Repr

/-- The texts of an event, each with its limit. -/
def EvidenceEvent.texts (e : EvidenceEvent) : List (Option String × Nat) :=
  [(e.workflowId, 255), (e.executionId, 255), (e.interactionId, 255), (e.nodeId, 128), (e.collectionName, 255),
    (e.collectionDisplayName, 255), (e.documentName, 1024), (e.username, 255), (e.sessionId, 128)]

/-- `EvidenceEvent.__post_init__`. -/
def EvidenceEvent.checked (e : EvidenceEvent) : Checked EvidenceEvent := do
  refuse (!sources.contains e.source || !policyTypes.contains e.policyType) requestInvalid
  refuse (decide (maxNames < e.policyIds.length) || decide (maxNames < e.policyNames.length) ||
    e.policyNames.any fun name => maxName < name.length) requestInvalid
  refuse (e.texts.any fun t => t.1.any fun s => t.2 < s.length) requestInvalid
  refuse (e.userId.any fun n => n ≤ 0) requestInvalid
  return e

/-- What the caller says of where the text was found. -/
structure Context where
  workflowId : Json := .null
  executionId : Json := .null
  interactionId : Json := .null
  nodeId : Json := .null
  collectionName : Json := .null
  collectionDisplayName : Json := .null
  documentName : Json := .null
  userId : Json := .null
  username : Json := .null
  sessionId : Json := .null
  metadata : Json := .null

def Context.texts (c : Context) : List (Json × Nat) :=
  [(c.workflowId, 255), (c.executionId, 255), (c.interactionId, 255), (c.nodeId, 128), (c.collectionName, 255),
    (c.collectionDisplayName, 255), (c.documentName, 1024), (c.username, 255), (c.sessionId, 128)]

/-- An id of zero is nobody's. -/
def actorId : Json → Checked (Option Int)
  | .null => .ok none
  | .int n => if n = 0 then .ok none else if 0 < n then .ok (some n) else .error requestInvalid
  | _ => .error requestInvalid

/-- `_event`. -/
def eventOf (source policyType : String) (policyIds : List Int) (policyNames : List String) (totalDetected : Nat)
    (c : Context) : Checked EvidenceEvent := do
  refuse (!sources.contains source || !policyTypes.contains policyType) requestInvalid
  refuse (decide (maxNames < policyIds.length) || decide (maxNames < policyNames.length) ||
    policyNames.any fun name => maxName < name.length) requestInvalid
  let userId ← actorId c.userId
  let workflowId ← optionalText c.workflowId 255
  let executionId ← optionalText c.executionId 255
  let interactionId ← optionalText c.interactionId 255
  let nodeId ← optionalText c.nodeId 128
  let collectionName ← optionalText c.collectionName 255
  let collectionDisplayName ← optionalText c.collectionDisplayName 255
  let documentName ← optionalText c.documentName 1024
  let username ← optionalText c.username 255
  let sessionId ← optionalText c.sessionId 128
  EvidenceEvent.checked ⟨source, policyType, policyIds, policyNames, totalDetected, workflowId, executionId, interactionId,
    nodeId, collectionName, collectionDisplayName, documentName, userId, username, sessionId⟩

/-- `metadata in (None, {})`. -/
def noMetadata : Json → Bool
  | .null => true
  | .obj fields => fields.isEmpty
  | _ => false

/-! Recording a result. -/

def sampleEntry (s : Sample) : Json :=
  .obj [("original", .str (String.ofList s.original)), ("masked", .str (String.ofList s.masked))]

/-- The dict that `apply_rules` makes of a detection. -/
def entryOf (d : Detection) : Json :=
  .obj [("policy_id", d.policyId.elim .null .int), ("policy_name", .str d.policyName), ("policy_type", .str d.policyType),
    ("count", .int d.count), ("samples", .arr (d.samples.map sampleEntry))]

/-- `by_type`. -/
def byType (detections : List Detection) : Dict String (List Detection) :=
  detections.foldl (fun out d => out.set d.policyType ((out.get d.policyType).getD [] ++ [d])) .empty

/-- The detections and the event that `log_policy_event` makes for one type. -/
def recordOf (source : String) (enforced : Bool) (c : Context) (policyType : String) (entries : List Detection) :
    Checked (EvidenceEvent × EvidenceDetections) := do
  let detections ← buildDetections (entries.map fun d => (entryOf d).set "enforced" (.bool enforced))
  refuse (!noMetadata c.metadata) requestInvalid
  let event ← eventOf source policyType (entries.filterMap Detection.policyId) (entries.map Detection.policyName)
    (entries.map Detection.count).sum c
  return (event, detections)

/-- Finding the subject of an event, and the sink. -/
abbrev Delivery := EvidenceEvent → EvidenceDetections → Checked Unit

/-- The loop of `log_result`. -/
def logLoop (deliver : Delivery) (source : String) (enforced : Bool) (c : Context) :
    Nat → List (String × List Detection) → Checked Nat
  | written, [] => .ok written
  | written, (policyType, entries) :: rest =>
    if policyType = "" then logLoop deliver source enforced c written rest
    else do
      let record ← recordOf source enforced c policyType entries
      deliver record.1 record.2
      logLoop deliver source enforced c (written + 1) rest

/-- `log_result`. -/
def logResult (deliver : Delivery) (source : String) (enforced : Bool) (c : Context) (found : MaskingResult) : Checked Nat :=
  if found.detections.isEmpty then .ok 0 else logLoop deliver source enforced c 0 (byType found.detections).entries

end XgenSdk.Evidence
