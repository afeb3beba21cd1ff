import Mathlib.Data.List.SplitBy
import Mathlib.Data.List.Lex
import Mathlib.Data.Prod.Lex
import Mathlib.Data.String.Basic
import XgenSdk.Lib.Checks
import XgenSdk.Py.Numbers
import XgenSdk.ComfyUi.Mapping
import XgenSdk.Lib.Sorting
import XgenSdk.Py.JsonText

/-! The key that puts node ids in their natural order. -/
namespace XgenSdk.ComfyUi
open XgenSdk.Py XgenSdk.Checks

/-- `\d`. -/
def isDecimal (c : Char) : Bool := (digitValue c).isSome

/-- What `_DIGITS.split` gives, without its empty pieces. -/
def digitPieces (nodeId : String) : List (List Char) := nodeId.toList.splitBy fun a b => isDecimal a == isDecimal b

/-- `sys.get_int_max_str_digits()`. -/
def intMaxStrDigits : Nat := 4300

/-- `int(piece)` of digits; `none` where it raises. -/
def pieceValue (piece : List Char) : Option Nat := if piece.length > intMaxStrDigits then none else natOfChars piece

/-- Numbers, then texts. -/
abbrev KeyPart := Nat ×ₗ Nat ×ₗ String

def numberPart (n : Nat) : KeyPart := toLex (0, toLex (n, ""))

def textPart (piece : List Char) : KeyPart := toLex (1, toLex (0, String.ofList piece))

/-- A piece in the key; `isdigit` is true of more characters than `int` takes. -/
def keyPart (piece : List Char) : Option KeyPart :=
  if isDigits (String.ofList piece) then (pieceValue piece).map numberPart else some (textPart piece)

/-- `natural_key`; `none` where it raises. -/
def naturalKey (nodeId : String) : Option (List KeyPart) := (digitPieces nodeId).mapM keyPart

/-! Where it raises. -/

section Pieces
variable {nodeId : String} {piece : List Char}

def IsNumber (piece : List Char) : Prop := ∀ c ∈ piece, isDecimal c = true

theorem piece_ne_nil (h : piece ∈ digitPieces nodeId) : piece ≠ [] := List.ne_nil_of_mem_splitBy h

/-- Decimal digits only, or none. -/
theorem piece_uniform (h : piece ∈ digitPieces nodeId) : IsNumber piece ∨ ∀ c ∈ piece, isDecimal c = false := by
  have hchain := List.isChain_of_mem_splitBy h
  cases piece with
  | nil => exact absurd rfl (piece_ne_nil h)
  | cons a piece =>
    have htrans : ∀ x y z : Char, (isDecimal x == isDecimal y) = true → (isDecimal y == isDecimal z) = true →
        (isDecimal x == isDecimal z) = true := by
      intro x y z hxy hyz
      rw [beq_iff_eq] at hxy hyz ⊢
      exact hxy.trans hyz
    have hall : ∀ c ∈ piece, isDecimal a = isDecimal c := by
      have : IsTrans Char fun x y => (isDecimal x == isDecimal y) = true := ⟨htrans⟩
      have hpairwise := List.isChain_iff_pairwise.mp hchain
      intro c hc
      simpa using (List.pairwise_cons.mp hpairwise).1 c hc
    cases ha : isDecimal a with
    | true => exact .inl (List.forall_mem_cons.mpr ⟨ha, fun c hc => hall c hc ▸ ha⟩)
    | false => exact .inr (List.forall_mem_cons.mpr ⟨ha, fun c hc => hall c hc ▸ ha⟩)

/-- A piece that `int` takes, or that is not for `int`. -/
def Readable (piece : List Char) : Prop :=
  isDigits (String.ofList piece) = true → IsNumber piece ∧ piece.length ≤ intMaxStrDigits

theorem pieceValue_isSome (hne : piece ≠ []) (hunderscore : '_' ∉ piece) :
    (pieceValue piece).isSome = true ↔ IsNumber piece ∧ piece.length ≤ intMaxStrDigits := by
  unfold pieceValue
  split
  · rename_i hlong
    exact iff_of_false (by simp) fun h => absurd h.2 (not_le.mpr hlong)
  · rename_i hlength
    rw [natOfChars_isSome_iff hunderscore hne]
    exact (and_iff_left (not_lt.mp hlength)).symm

theorem isDigits_of_number (hne : piece ≠ []) (h : IsNumber piece) : isDigits (String.ofList piece) = true := by
  have hempty : String.ofList piece ≠ "" := fun heq => hne (by simpa using congrArg String.toList heq)
  rw [isDigits, String.toList_ofList]
  simp only [hempty, ne_eq, not_false_eq_true, decide_true, Bool.true_and, List.all_eq_true, Bool.or_eq_true]
  exact fun c hc => .inl (h c hc)

theorem underscore_not_mem (h : isDigits (String.ofList piece) = true) : '_' ∉ piece := by
  intro hin
  rw [isDigits, String.toList_ofList, Bool.and_eq_true, List.all_eq_true] at h
  exact absurd (h.2 '_' hin) (by decide)

theorem keyPart_isSome (hne : piece ≠ []) : (keyPart piece).isSome = true ↔ Readable piece := by
  unfold keyPart Readable
  split
  · rename_i hdigits
    rw [Option.isSome_map, pieceValue_isSome hne (underscore_not_mem hdigits)]
    exact ⟨fun h _ => h, fun h => h hdigits⟩
  · rename_i hdigits
    exact iff_of_true rfl fun h => absurd h hdigits

/-! What keys keep apart. -/

/-- The same text, or the same number. -/
def Alike (piece piece' : List Char) : Prop :=
  piece = piece' ∨ (IsNumber piece ∧ IsNumber piece' ∧ natOfChars piece = natOfChars piece')

theorem natOfChars_isSome (hne : piece ≠ []) (h : IsNumber piece) : (natOfChars piece).isSome = true := by
  rw [natOfChars_isSome_iff _ hne]
  · exact h
  · intro hin
    exact absurd (h '_' hin) (by decide)

theorem keyPart_number {n : Nat} (hne : piece ≠ []) (h : IsNumber piece) : keyPart piece = some (numberPart n) ↔
    piece.length ≤ intMaxStrDigits ∧ natOfChars piece = some n := by
  rw [keyPart, if_pos (isDigits_of_number hne h), pieceValue]
  split
  · rename_i hlong
    exact iff_of_false (by simp) fun h => absurd h.1 (not_le.mpr hlong)
  · rename_i hlength
    rw [and_iff_right (not_lt.mp hlength), Option.map_eq_some_iff]
    simp [numberPart]

theorem keyPart_text {piece : List Char} (hne : piece ≠ []) (hreadable : Readable piece) (h : ∀ c ∈ piece, isDecimal c = false) :
    keyPart piece = some (textPart piece) := by
  refine if_neg fun hdigits => ?_
  obtain ⟨c, hc⟩ := List.exists_mem_of_ne_nil piece hne
  have hnumber := (hreadable hdigits).1 c hc
  rw [h c hc] at hnumber
  cases hnumber

theorem numberPart_ne_textPart (n : Nat) : numberPart n ≠ textPart piece := by
  intro heq
  have hkinds : (0 : Nat) = 1 := congrArg (fun p : KeyPart => (ofLex p).1) heq
  exact absurd hkinds (by decide)

theorem keyPart_eq_iff {nodeId' : String} {piece' : List Char} (hpiece : piece ∈ digitPieces nodeId)
    (hpiece' : piece' ∈ digitPieces nodeId') (hreadable : Readable piece) (hreadable' : Readable piece') :
    keyPart piece = keyPart piece' ↔ Alike piece piece' := by
  have hne := piece_ne_nil hpiece
  have hne' := piece_ne_nil hpiece'
  constructor
  · intro heq
    obtain hnumber | htext := piece_uniform hpiece
    · obtain ⟨n, hn⟩ := Option.isSome_iff_exists.mp (natOfChars_isSome hne hnumber)
      have hkey := (keyPart_number hne hnumber).mpr ⟨(hreadable (isDigits_of_number hne hnumber)).2, hn⟩
      rw [hkey] at heq
      obtain hnumber' | htext' := piece_uniform hpiece'
      · exact .inr ⟨hnumber, hnumber', by rw [hn, ((keyPart_number hne' hnumber').mp heq.symm).2]⟩
      · rw [keyPart_text hne' hreadable' htext', Option.some.injEq] at heq
        exact absurd heq (numberPart_ne_textPart n)
    · rw [keyPart_text hne hreadable htext] at heq
      obtain hnumber' | htext' := piece_uniform hpiece'
      · obtain ⟨n, hn⟩ := Option.isSome_iff_exists.mp (natOfChars_isSome hne' hnumber')
        rw [(keyPart_number hne' hnumber').mpr ⟨(hreadable' (isDigits_of_number hne' hnumber')).2, hn⟩, Option.some.injEq] at heq
        exact absurd heq.symm (numberPart_ne_textPart n)
      · rw [keyPart_text hne' hreadable' htext', Option.some.injEq] at heq
        have htexts := congrArg (fun p : KeyPart => (ofLex (ofLex p).2).2.toList) heq
        simp only [textPart, ofLex_toLex, String.toList_ofList] at htexts
        exact .inl htexts
  · rintro (rfl | ⟨hnumber, hnumber', hvalue⟩)
    · rfl
    · obtain ⟨n, hn⟩ := Option.isSome_iff_exists.mp (natOfChars_isSome hne hnumber)
      rw [(keyPart_number hne hnumber).mpr ⟨(hreadable (isDigits_of_number hne hnumber)).2, hn⟩,
        (keyPart_number hne' hnumber').mpr ⟨(hreadable' (isDigits_of_number hne' hnumber')).2, hvalue ▸ hn⟩]

end Pieces

/-! Keys of ids. -/

section Ids
variable {nodeId nodeId' : String}

/-- Every piece of the id can be read. -/
def ReadableId (nodeId : String) : Prop := ∀ piece ∈ digitPieces nodeId, Readable piece

/-- Two ids that differ only in how their numbers are written. -/
def AlikeIds (nodeId nodeId' : String) : Prop := List.Forall₂ Alike (digitPieces nodeId) (digitPieces nodeId')

theorem naturalKey_isSome : (naturalKey nodeId).isSome = true ↔ ReadableId nodeId := by
  rw [naturalKey, mapM_isSome]
  exact forall₂_congr fun piece hpiece => keyPart_isSome (piece_ne_nil hpiece)

theorem naturalKey_eq_iff (h : ReadableId nodeId) (h' : ReadableId nodeId') :
    naturalKey nodeId = naturalKey nodeId' ↔ AlikeIds nodeId nodeId' := by
  rw [naturalKey, naturalKey, mapM_eq_mapM_iff (naturalKey_isSome.mpr h), AlikeIds, List.forall₂_iff_get, List.forall₂_iff_get]
  refine and_congr_right fun _ => forall_congr' fun i => forall₂_congr fun hi hi' => ?_
  have hpiece := List.get_mem (digitPieces nodeId) ⟨i, hi⟩
  have hpiece' := List.get_mem (digitPieces nodeId') ⟨i, hi'⟩
  exact keyPart_eq_iff hpiece hpiece' (h _ hpiece) (h' _ hpiece')

end Ids
end XgenSdk.ComfyUi

/-! Reading a workflow, and listing its nodes. -/
namespace XgenSdk.ComfyUi
open XgenSdk.Py XgenSdk.Checks

/-! Reading. -/

/-- `WorkflowFormatError`. -/
structure FormatError where
  code : String
  message : String
  nodeId : Option String := none
  deriving DecidableEq, Repr

def invalidJson : FormatError := ⟨"invalid_json", "워크플로우 파일을 JSON으로 읽을 수 없습니다.", none⟩

def invalidNode (nodeId message : String) : FormatError := ⟨"invalid_node", message, some nodeId⟩

def orError {α : Type} (found : Option α) (error : FormatError) : Except FormatError α := found.elim (.error error) .ok

/-- The value of a workflow that is given as bytes, as a text or as itself. -/
def workflowData (lib : Libraries) : RawMapping → Except FormatError Json
  | .bytes raw => orError ((utf8Text raw).bind lib.parseJson) invalidJson
  | .value (.str s) => orError (lib.parseJson s.toList) invalidJson
  | .value v => .ok v

/-- `_is_node_shaped`. -/
def isNodeShaped (value : Json) : Bool := value.isObj && value.has "class_type"

/-- `_looks_like_ui_format`. -/
def looksLikeUiFormat (data : Json) : Bool := ["nodes", "links"].any fun key => data.has key && !isNodeShaped (data.get key)

def checkNode (entry : String × Json) : Except FormatError Unit := do
  let (nodeId, node) := entry
  refuse (nodeId = "") (invalidNode nodeId "노드 id는 비어 있지 않은 문자열이어야 합니다.")
  refuse (!node.isObj) (invalidNode nodeId (nodeId ++ " 노드의 모양이 API 형식과 다릅니다."))
  refuse (strip (textOf (node.get "class_type")) = "") (invalidNode nodeId (nodeId ++ " 노드에 class_type이 없습니다."))
  refuse (!(node.get "inputs").isObj) (invalidNode nodeId (nodeId ++ " 노드에 inputs 객체가 없습니다."))
  refuse (!isNull (node.get "_meta") && !(node.get "_meta").isObj) (invalidNode nodeId (nodeId ++ " 노드의 _meta가 객체가 아닙니다."))

/-- `parse_workflow`. -/
def parseWorkflow (lib : Libraries) (raw : RawMapping) : Except FormatError Fields := do
  let data ← workflowData lib raw
  refuse (!data.isObj) ⟨"invalid_json", "워크플로우 JSON은 노드 id를 키로 가진 객체여야 합니다.", none⟩
  refuse (looksLikeUiFormat data) ⟨"ui_format", "API 형식으로 내보낸 JSON을 넣어 주세요.", none⟩
  refuse (fieldsOf data).isEmpty ⟨"empty", "워크플로우에 노드가 없습니다.", none⟩
  (fieldsOf data).forM checkNode
  return fieldsOf data

/-! Listing. -/

/-- `sorted_node_ids`: every key is made before anything is compared. -/
def sortedNodeIds (graph : Fields) : Option (List String) :=
  (graph.mapM fun entry => (naturalKey entry.1).map fun key => (key, entry.1)).map fun keyed =>
    (Sorting.byKey Prod.fst keyed).map Prod.snd

structure NodeInput where
  name : String
  value : Json
  isLink : Bool
  link : Option (Json × Json)
  inferredType : String

structure NodeItem where
  nodeId : String
  classType : String
  title : String
  inputs : List NodeInput

def nodeInput (entry : String × Json) : NodeInput :=
  let link := isLink entry.2
  { name := entry.1
    value := entry.2
    isLink := link
    link := if link then some (entry.2.items.getD 0 .null, entry.2.items.getD 1 .null) else none
    inferredType := if link then "unknown" else inferType entry.2 }

/-- `node_title`. -/
def nodeTitle (node : Json) : String :=
  let title := textOf ((node.get "_meta").get "title")
  if strip title = "" then (node.get "class_type").textOr else title

def nodeOf (graph : Fields) (nodeId : String) : Json := (Json.lookup nodeId graph).getD .null

def nodeItem (graph : Fields) (nodeId : String) : NodeItem :=
  let node := nodeOf graph nodeId
  { nodeId := nodeId
    classType := (node.get "class_type").textOr
    title := nodeTitle node
    inputs := (fieldsOf (node.get "inputs")).map nodeInput }

/-- `list_nodes`. -/
def listNodes (graph : Fields) : Option (List NodeItem) := (sortedNodeIds graph).map fun ids => ids.map (nodeItem graph)

/-- `_raw_output_flag`. -/
def rawOutputFlag (objectInfo : Json) (classType : String) : Option Bool :=
  let entry := objectInfo.get classType
  if entry.has "output_node" then some (entry.get "output_node").truthy else none

def knownOutputClasses : List String := ["SaveImage", "PreviewImage", "SaveAnimatedWEBP", "SaveAnimatedPNG", "SaveVideo"]

/-- `guess_output_class`. -/
def guessOutputClass (classType : String) : Bool :=
  knownOutputClasses.contains classType || "Save".toList.isPrefixOf classType.toList || "Preview".toList.isPrefixOf classType.toList

/-- Whether a node makes a result. -/
def isOutputNode (graph : Fields) (objectInfo : Json) (nodeId : String) : Bool :=
  let classType := ((nodeOf graph nodeId).get "class_type").textOr
  if classType = "" then false else (rawOutputFlag objectInfo classType).getD (guessOutputClass classType)

/-- `output_node_candidates`. -/
def outputNodeCandidates (graph : Fields) (objectInfo : Json) : Option (List String) :=
  (sortedNodeIds graph).map fun ids => ids.filter (isOutputNode graph objectInfo)

/-! Every node once, in an order of its own. -/

section Listed
variable {graph graph' : Fields} {objectInfo : Json} {nodeId : String}

def idsOf (graph : Fields) : List String := graph.map Prod.fst

/-- Nothing raises, every node and every output node is listed once, and the order of the members does not matter. -/
structure ListsAll (graph : Fields) : Prop where
  nodes : ∃ items, listNodes graph = some items ∧ (items.map NodeItem.nodeId).Perm (idsOf graph)
  outputs : ∀ objectInfo, ∃ ids, outputNodeCandidates graph objectInfo = some ids ∧
    ids.Perm ((idsOf graph).filter (isOutputNode graph objectInfo))
  order : ∀ graph', graph'.Perm graph → listNodes graph' = listNodes graph ∧
    ∀ objectInfo, outputNodeCandidates graph' objectInfo = outputNodeCandidates graph objectInfo

/-- Every id can be read, and no two differ only in how their numbers are written. -/
structure WellNumbered (graph : Fields) : Prop where
  readable : ∀ nodeId ∈ idsOf graph, ReadableId nodeId
  apart : ∀ nodeId ∈ idsOf graph, ∀ nodeId' ∈ idsOf graph, AlikeIds nodeId nodeId' → nodeId = nodeId'

def keyOf (nodeId : String) : List KeyPart := (naturalKey nodeId).getD []

theorem naturalKey_of_readable (h : ReadableId nodeId) : naturalKey nodeId = some (keyOf nodeId) := by
  obtain ⟨key, hkey⟩ := Option.isSome_iff_exists.mp (naturalKey_isSome.mpr h)
  rw [keyOf, hkey, Option.getD_some]

theorem sortedNodeIds_of_readable (h : ∀ nodeId ∈ idsOf graph, ReadableId nodeId) :
    sortedNodeIds graph = some (Sorting.byKey keyOf (idsOf graph)) := by
  have hkeyed : (graph.mapM fun entry => (naturalKey entry.1).map fun key => (key, entry.1)) =
      some (graph.map fun entry => (keyOf entry.1, entry.1)) :=
    mapM_map_some fun entry hentry => by rw [naturalKey_of_readable (h _ (List.mem_map_of_mem hentry)), Option.map_some]
  have hpairs : (graph.map fun entry => (keyOf entry.1, entry.1)) = (idsOf graph).map fun nodeId => (keyOf nodeId, nodeId) := by
    rw [idsOf, List.map_map]
    rfl
  have hsorted : Sorting.byKey Prod.fst ((idsOf graph).map fun nodeId => (keyOf nodeId, nodeId)) =
      (Sorting.byKey keyOf (idsOf graph)).map fun nodeId => (keyOf nodeId, nodeId) := by
    refine (List.map_insertionSort _ _ (fun nodeId => (keyOf nodeId, nodeId)) (idsOf graph) fun _ _ _ _ => ?_).symm
    exact Iff.rfl
  rw [sortedNodeIds, hkeyed, Option.map_some, hpairs, hsorted, List.map_map]
  exact congrArg some (List.map_id _)

theorem readable_of_sorted {ids : List String} (h : sortedNodeIds graph = some ids) : ∀ nodeId ∈ idsOf graph, ReadableId nodeId := by
  obtain ⟨keyed, hkeyed, -⟩ := Option.map_eq_some_iff.mp h
  intro nodeId hnodeId
  obtain ⟨entry, hentry, rfl⟩ := List.mem_map.mp hnodeId
  have hsome := mapM_isSome.mp (Option.isSome_of_eq_some hkeyed) entry hentry
  rwa [Option.isSome_map, naturalKey_isSome] at hsome

theorem nodeOf_perm (h : graph'.Perm graph) (hdistinct : (idsOf graph).Nodup) : nodeOf graph' = nodeOf graph := by
  funext nodeId
  rw [nodeOf, nodeOf, Json.lookup_perm h hdistinct]

theorem WellNumbered.listsAll (h : WellNumbered graph) (hdistinct : (idsOf graph).Nodup) : ListsAll graph := by
  have hsorted := sortedNodeIds_of_readable h.readable
  refine ⟨⟨_, by rw [listNodes, hsorted]; rfl, ?_⟩, fun objectInfo => ⟨_, by rw [outputNodeCandidates, hsorted]; rfl, ?_⟩, ?_⟩
  · rw [List.map_map]
    have hid : NodeItem.nodeId ∘ nodeItem graph = id := rfl
    rw [hid, List.map_id]
    exact Sorting.byKey_perm _ _
  · exact (Sorting.byKey_perm _ _).filter _
  · intro graph' hperm
    have hids : (idsOf graph').Perm (idsOf graph) := hperm.map Prod.fst
    have hkeys : ∀ a ∈ idsOf graph, ∀ b ∈ idsOf graph, keyOf a = keyOf b → a = b := by
      intro a ha b hb hab
      refine h.apart a ha b hb ((naturalKey_eq_iff (h.readable a ha) (h.readable b hb)).mp ?_)
      rw [naturalKey_of_readable (h.readable a ha), naturalKey_of_readable (h.readable b hb), hab]
    have hreadable' : ∀ nodeId ∈ idsOf graph', ReadableId nodeId := fun nodeId hnodeId => h.readable nodeId (hids.mem_iff.mp hnodeId)
    have hsorted' := sortedNodeIds_of_readable hreadable'
    have hsame : sortedNodeIds graph' = sortedNodeIds graph := by
      rw [hsorted', hsorted, Sorting.byKey_eq_of_perm hids hkeys]
    have hitem : nodeItem graph' = nodeItem graph := by
      funext nodeId
      rw [nodeItem, nodeItem, nodeOf_perm hperm hdistinct]
    refine ⟨by rw [listNodes, listNodes, hsame, hitem], fun objectInfo => ?_⟩
    have houtput : isOutputNode graph' objectInfo = isOutputNode graph objectInfo := by
      funext nodeId
      rw [isOutputNode, isOutputNode, nodeOf_perm hperm hdistinct]
    rw [outputNodeCandidates, outputNodeCandidates, hsame, houtput]

theorem ListsAll.wellNumbered (h : ListsAll graph) (hdistinct : (idsOf graph).Nodup) : WellNumbered graph := by
  obtain ⟨items, hitems, -⟩ := h.nodes
  obtain ⟨ids, hids, -⟩ := Option.map_eq_some_iff.mp hitems
  have hreadable := readable_of_sorted hids
  refine ⟨hreadable, fun nodeId hnodeId nodeId' hnodeId' halike => ?_⟩
  -- The members in the other order.
  have hback := (h.order graph.reverse (List.reverse_perm graph)).1
  have hreverse : idsOf graph.reverse = (idsOf graph).reverse := List.map_reverse
  have hreadable' : ∀ nodeId ∈ idsOf graph.reverse, ReadableId nodeId := by
    intro nodeId hnodeId
    rw [hreverse, List.mem_reverse] at hnodeId
    exact hreadable nodeId hnodeId
  rw [listNodes, listNodes, sortedNodeIds_of_readable hreadable, sortedNodeIds_of_readable hreadable', hreverse,
    Option.map_some, Option.map_some, Option.some.injEq] at hback
  have hnames := congrArg (List.map NodeItem.nodeId) hback
  rw [List.map_map, List.map_map] at hnames
  have hid (graph : Fields) : NodeItem.nodeId ∘ nodeItem graph = id := rfl
  rw [hid, hid, List.map_id, List.map_id] at hnames
  refine Sorting.eq_of_byKey_reverse hdistinct hnames nodeId hnodeId nodeId' hnodeId' ?_
  rw [keyOf, keyOf, (naturalKey_eq_iff (hreadable nodeId hnodeId) (hreadable nodeId' hnodeId')).mpr halike]

/-- The nodes of a workflow are listed as they should be exactly where its ids are well numbered. -/
theorem listsAll_iff (hdistinct : (idsOf graph).Nodup) : ListsAll graph ↔ WellNumbered graph :=
  ⟨fun h => h.wellNumbered hdistinct, fun h => h.listsAll hdistinct⟩

end Listed

/-! Some ids. -/

def saveNode : Json := .obj [("class_type", .str "SaveImage"), ("inputs", .obj [])]

def superscript : Fields := [("²", saveNode)]

def padded : Fields := [("46", saveNode), ("046", saveNode)]

def plainGraph : Fields := [("90:100", saveNode), ("90:71", saveNode), ("46", saveNode)]

set_option maxRecDepth 8000 in
theorem sortedNodeIds_examples : sortedNodeIds superscript = none ∧ sortedNodeIds padded = some ["46", "046"] ∧
    sortedNodeIds padded.reverse = some ["046", "46"] := by decide

/-- A digit that is not decimal raises, and a number may be written in two ways. -/
theorem superscript_padded : (∀ lib, parseWorkflow lib (.value (.obj superscript)) = .ok superscript) ∧
    (∀ lib, parseWorkflow lib (.value (.obj padded)) = .ok padded) ∧ ¬ ListsAll superscript ∧ ¬ ListsAll padded := by
  obtain ⟨hnone, hpadded, hback⟩ := sortedNodeIds_examples
  refine ⟨fun _ => rfl, fun _ => rfl, fun h => ?_, fun h => ?_⟩
  · obtain ⟨items, hitems, -⟩ := h.nodes
    rw [listNodes, hnone] at hitems
    cases hitems
  · have horder := (h.order padded.reverse (List.reverse_perm padded)).1
    rw [listNodes, listNodes, hpadded, hback, Option.map_some, Option.map_some, Option.some.injEq] at horder
    have hfirst : "046" = "46" := congrArg (fun items : List NodeItem => (items.map NodeItem.nodeId).headD "") horder
    exact absurd hfirst (by decide)

set_option maxRecDepth 8000 in
theorem plainGraph_listed : ListsAll plainGraph := by
  have hreadable : ∀ nodeId ∈ idsOf plainGraph, (naturalKey nodeId).isSome = true := by decide
  have hkeys : ∀ nodeId ∈ idsOf plainGraph, ∀ nodeId' ∈ idsOf plainGraph, keyOf nodeId = keyOf nodeId' → nodeId = nodeId' := by
    decide
  refine (listsAll_iff (by decide)).mpr ⟨fun nodeId h => naturalKey_isSome.mp (hreadable nodeId h), fun nodeId h nodeId' h' halike => ?_⟩
  have hkey := (naturalKey_eq_iff (naturalKey_isSome.mp (hreadable nodeId h)) (naturalKey_isSome.mp (hreadable nodeId' h'))).mpr halike
  exact hkeys nodeId h nodeId' h' (by rw [keyOf, keyOf, hkey])

end XgenSdk.ComfyUi
