import XgenSdk.ControlPolicy.HwpRecords
import XgenSdk.ControlPolicy.HwpPositions

/-! Masking a section: the text of each paragraph with the records that depend
on it, and the texts that other records hold in a slot. -/
namespace XgenSdk.Hwp
open XgenSdk.Py.Utf16 XgenSdk.Py.Struct XgenSdk.Splice

def paraHeader : Nat := 66
def paraText : Nat := 67
def paraCharShape : Nat := 68
def paraLineSeg : Nat := 69
def paraRangeTag : Nat := 70
def ctrlHeader : Nat := 71
def eqEdit : Nat := 88

/-- `find_masked_spans(text, rules)` for the rules at hand. -/
structure Finder where
  find : Str → List (Span CodePoint)
  inOrder : ∀ text, InOrder text.length 0 (find text)
  nonempty : ∀ text, ∀ s ∈ find text, s.lo < s.hi

def recordAt (rs : List Record) (i : Nat) : Record := rs.getD i ⟨0, 0, [], none, false⟩

def Record.setPayload (payload : Bytes) (r : Record) : Record := { r with payload := payload, raw := none }

def Record.drop (r : Record) : Record := { r with dropped := true }

/-! A paragraph. -/

/-- The records one level below a header, by tag, up to the end of its paragraph. -/
def childrenFrom (level index : Nat) : List Record → List (Nat × Nat)
  | [] => []
  | r :: rest =>
    if level < r.level then
      if r.level = level + 1 then (r.tag, index) :: childrenFrom level (index + 1) rest
      else childrenFrom level (index + 1) rest
    else []

/-- `children`; of two entries for a tag the first one counts. -/
def childrenOf (rs : List Record) (index : Nat) : List (Nat × Nat) :=
  childrenFrom (recordAt rs index).level (index + 1) (rs.drop (index + 1))

/-- Numbers of four bytes, as many as there are. -/
def unpackU32s : Bytes → List Nat
  | a :: b :: c :: d :: rest => leNat [a, b, c, d] :: unpackU32s rest
  | _ => []

def packU32s (values : List Nat) : Except HwpError Bytes := do
  let packed ← values.mapM packU32
  return packed.flatten

def pairs : List Nat → List (Nat × Nat)
  | a :: b :: rest => (a, b) :: pairs rest
  | _ => []

def triples : List Nat → List (Nat × Nat × Nat)
  | a :: b :: c :: rest => (a, b, c) :: triples rest
  | _ => []

/-- A shape at its new position, in order; of two at one position the later one stays. -/
def moveShape (w : Rewrite) (shapes : List (Nat × Nat)) (entry : Nat × Nat) : List (Nat × Nat) :=
  let moved := max (w.position entry.1) ((shapes.getLast?.map Prod.fst).getD 0)
  if shapes.getLast?.map Prod.fst = some moved then shapes.dropLast ++ [(moved, entry.2)]
  else shapes ++ [(moved, entry.2)]

def movedShapes (w : Rewrite) (old : Bytes) : List (Nat × Nat) := (pairs (unpackU32s old)).foldl (moveShape w) []

/-- The number of shapes in a header, where the header has one. -/
def countShapes (count : Nat) (head : Bytes) : Except HwpError Bytes :=
  if 14 ≤ head.length then (packU16 count).map fun bytes => overwrite 12 bytes head else .ok head

/-- The shapes of characters, and their number in the header. -/
def editShapes (w : Rewrite) (shapeAt : Option Nat) (rs : List Record) (head : Bytes) :
    Except HwpError (List Record × Bytes) :=
  match shapeAt with
  | none => .ok (rs, head)
  | some i => do
    let shapes := movedShapes w (recordAt rs i).payload
    let payload ← packU32s (shapes.flatMap fun s => [s.1, s.2])
    let counted ← countShapes shapes.length head
    return (rs.modify i (Record.setPayload payload), counted)

def movedRange (w : Rewrite) (range : Nat × Nat × Nat) : List Nat :=
  [w.position range.1, max (w.position range.1) (w.position range.2.1), range.2.2]

def editRanges (w : Rewrite) (rangeAt : Option Nat) (rs : List Record) : Except HwpError (List Record) :=
  match rangeAt with
  | none => .ok rs
  | some i => do
    let payload ← packU32s ((triples (unpackU32s (recordAt rs i).payload)).flatMap (movedRange w))
    return rs.modify i (Record.setPayload payload)

def dropLines (lineAt : Option Nat) (rs : List Record) : List Record :=
  match lineAt with
  | none => rs
  | some i => rs.modify i Record.drop

/-- The records of a paragraph whose text is rewritten. -/
def editParagraph (w : Rewrite) (index textAt : Nat) (children : List (Nat × Nat)) (rs : List Record) :
    Except HwpError (List Record) := do
  let head := (recordAt rs index).payload
  let chars ← packU32 ((leNat (head.take 4) &&& 0x80000000) ||| w.newTotal)
  let shaped ← editShapes w (children.lookup paraCharShape) (rs.modify textAt (Record.setPayload w.payload))
    (overwrite 0 chars head)
  let ranged ← editRanges w (children.lookup paraRangeTag) (dropLines (children.lookup paraLineSeg) shaped.1)
  return ranged.modify index
    (Record.setPayload (if 18 ≤ shaped.2.length then overwrite 16 [0, 0] shaped.2 else shaped.2))

/-- `_mask_paragraph`. -/
def maskParagraph (R : Rounding) (F : Finder) (rs : List Record) (index : Nat) : Except HwpError (List Record × Nat) :=
  let children := childrenOf rs index
  match children.lookup paraText with
  | none => .ok (rs, 0)
  | some textAt =>
    if (recordAt rs index).payload.length < 4 then .ok (rs, 0)
    else
      match parseUnits (recordAt rs textAt).payload with
      | .error e => .error e
      | .ok units =>
        let spans := F.find (paragraphText units).1
        if spans = [] then .ok (rs, 0)
        else
          (editParagraph (rewrite R units (paragraphText units).2 spans) index textAt children rs).map fun edited =>
            (edited, spans.length)

/-! A text in a slot. -/

def fieldCommandAt : Nat := 9
def objectDescriptionAt : Nat := 44
def objectControls : List Bytes := [[116, 98, 108, 32], [103, 115, 111, 32], [101, 113, 101, 100]]

/-- `_wstr_at`: the number of words, and their text. -/
def wstrAt (payload : Bytes) (offset : Nat) : Option (Nat × Str) :=
  if payload.length < offset + 2 then none
  else
    let count := leNat ((payload.drop offset).take 2)
    if payload.length < offset + 2 + count * 2 then none
    else some (count, decode (wordsOf ((payload.drop (offset + 2)).take (count * 2))))

/-- `_string_slot`. -/
def stringSlot (r : Record) : Option Nat :=
  let ctrl := (r.payload.take 4).reverse
  if r.tag = ctrlHeader && 4 ≤ r.payload.length && ctrl.head? = some 37 then some fieldCommandAt
  else if r.tag = ctrlHeader && 4 ≤ r.payload.length && objectControls.contains ctrl &&
    objectDescriptionAt + 2 ≤ r.payload.length then some objectDescriptionAt
  else if r.tag = eqEdit then some 4
  else none

/-- `_utf16_units`. -/
def utf16Units (text : Str) : Nat := (text.map fun c => if 0xFFFF < c.val then 2 else 1).sum

/-- The characters of a mask that fit into `units` words, of which `used` are taken. -/
def fit (units used : Nat) : Str → Str
  | [] => []
  | c :: rest =>
    if units < used + utf16Units [c] then [] else c :: fit units (used + utf16Units [c]) rest

/-- A mask cut or filled up to `units` words. -/
def fitted (units : Nat) (mask : Str) : Str :=
  let kept := fit units 0 (safeMask mask)
  kept ++ List.replicate (units - utf16Units kept) 42

/-- The text from `last` on, with every span as long as before. -/
def fitSpans (text : Str) : Nat → List (Span CodePoint) → Str
  | last, [] => text.drop last
  | last, s :: rest =>
    slice text last s.lo ++ fitted (utf16Units (slice text s.lo s.hi)) s.body ++ fitSpans text s.hi rest

/-- `_mask_same_length`. -/
def maskSameLength (F : Finder) (text : Str) : Str × Nat :=
  let spans := F.find text
  if spans = [] then (text, 0) else (fitSpans text 0 spans, spans.length)

/-- `_mask_string_slot`. -/
def maskStringSlot (F : Finder) (r : Record) : Except HwpError (Record × Nat) :=
  match (stringSlot r).bind fun offset => (wstrAt r.payload offset).map fun found => (offset, found) with
  | none => .ok (r, 0)
  | some (offset, count, text) =>
    if text = [] then .ok (r, 0)
    else
      let masked := maskSameLength F text
      if masked.2 = 0 then .ok (r, 0)
      else do
        let size ← packU16 ((encoded masked.1).length / 2)
        return (r.setPayload (r.payload.take offset ++ size ++ encoded masked.1 ++ r.payload.drop (offset + 2 + count * 2)),
          masked.2)

/-! A section. -/

/-- The loop body of `_mask_section`. -/
def maskRecord (R : Rounding) (F : Finder) (rs : List Record) (index : Nat) : Except HwpError (List Record × Nat) :=
  if (recordAt rs index).tag = paraHeader then maskParagraph R F rs index
  else (maskStringSlot F (recordAt rs index)).map fun masked => (rs.set index masked.1, masked.2)

/-- `n` records from `index` on, with the hits so far. -/
def maskRecords (R : Rounding) (F : Finder) : Nat → Nat → List Record → Nat → Except HwpError (List Record × Nat)
  | 0, _, rs, hits => .ok (rs, hits)
  | n + 1, index, rs, hits =>
    match maskRecord R F rs index with
    | .error e => .error e
    | .ok (rs, more) => maskRecords R F n (index + 1) rs (hits + more)

/-- `_mask_section`. -/
def maskSection (R : Rounding) (F : Finder) (data : Bytes) : Except HwpError (Bytes × Nat) := do
  let rs ← records data
  let masked ← maskRecords R F rs.length 0 rs 0
  if masked.2 = 0 then .ok (data, 0)
  else (packAll (masked.1.filter fun r => !r.dropped)).map fun out => (out, masked.2)

/-! Which records belong to which paragraph: the nesting that the levels of a
flat list stand for. -/

open XgenSdk.Py.Utf16

/-! Records by their place. -/

def outline (rs : List Record) : List (Nat × Nat) := rs.map fun r => (r.tag, r.level)

theorem length_outline (rs : List Record) : (outline rs).length = rs.length := List.length_map _

theorem recordAt_of_lt {rs : List Record} {i : Nat} (h : i < rs.length) : recordAt rs i = rs[i] := List.getD_eq_getElem _ _ h

theorem recordAt_drop (rs : List Record) (n i : Nat) : recordAt (rs.drop n) i = recordAt rs (n + i) := by
  rw [recordAt, recordAt, List.getD_eq_getElem?_getD, List.getD_eq_getElem?_getD, List.getElem?_drop]

theorem recordAt_outline (rs : List Record) (i : Nat) :
    ((recordAt rs i).tag, (recordAt rs i).level) = (outline rs).getD i (0, 0) := by
  induction rs generalizing i with
  | nil => rfl
  | cons r rs ih =>
    cases i with
    | zero => rfl
    | succ i => exact ih i

theorem tag_congr {rs rs' : List Record} (h : outline rs = outline rs') (i : Nat) :
    (recordAt rs i).tag = (recordAt rs' i).tag := by
  have hi := recordAt_outline rs i
  rw [h, ← recordAt_outline rs' i] at hi
  exact (Prod.ext_iff.mp hi).1

theorem level_congr {rs rs' : List Record} (h : outline rs = outline rs') (i : Nat) :
    (recordAt rs i).level = (recordAt rs' i).level := by
  have hi := recordAt_outline rs i
  rw [h, ← recordAt_outline rs' i] at hi
  exact (Prod.ext_iff.mp hi).2

theorem outline_ext {rs rs' : List Record} (hlength : rs.length = rs'.length)
    (h : ∀ i, (recordAt rs i).tag = (recordAt rs' i).tag ∧ (recordAt rs i).level = (recordAt rs' i).level) :
    outline rs = outline rs' := by
  refine List.ext_getElem (by rw [length_outline, length_outline, hlength]) fun i hi hi' => ?_
  rw [length_outline] at hi hi'
  have hrecord := h i
  rw [recordAt_of_lt hi, recordAt_of_lt hi'] at hrecord
  simp only [outline, List.getElem_map]
  rw [hrecord.1, hrecord.2]

/-- The record at a place, if there is one, changed by `f`. -/
def modifyAt (at_ : Option Nat) (f : Record → Record) (rs : List Record) : List Record :=
  match at_ with
  | none => rs
  | some i => rs.modify i f

@[simp] theorem length_modifyAt (at_ : Option Nat) (f : Record → Record) (rs : List Record) :
    (modifyAt at_ f rs).length = rs.length := by
  cases at_ with
  | none => rfl
  | some i => exact List.length_modify _ _ _

theorem recordAt_modifyAt_ne {at_ : Option Nat} {j : Nat} (h : at_ ≠ some j) (f : Record → Record) (rs : List Record) :
    recordAt (modifyAt at_ f rs) j = recordAt rs j := by
  cases at_ with
  | none => rfl
  | some i =>
    have hij : i ≠ j := fun hij => h (by rw [hij])
    rw [modifyAt, recordAt, List.getD_eq_getElem?_getD, List.getElem?_modify_ne _ _ hij, ← List.getD_eq_getElem?_getD]
    rfl

theorem recordAt_modifyAt_self {j : Nat} {rs : List Record} (hj : j < rs.length) (f : Record → Record) :
    recordAt (modifyAt (some j) f rs) j = f (recordAt rs j) := by
  have hlength : j < (rs.modify j f).length := by
    rw [List.length_modify]
    exact hj
  rw [modifyAt, recordAt_of_lt hlength, recordAt_of_lt hj, List.getElem_modify_eq]

theorem outline_modifyAt (at_ : Option Nat) {f : Record → Record} (rs : List Record)
    (hf : ∀ r, (f r).tag = r.tag ∧ (f r).level = r.level) : outline (modifyAt at_ f rs) = outline rs := by
  cases at_ with
  | none => rfl
  | some i =>
    induction rs generalizing i with
    | nil =>
      cases i with
      | zero => rfl
      | succ i => rfl
    | cons r rs ih =>
      cases i with
      | zero =>
        change ((f r).tag, (f r).level) :: outline rs = (r.tag, r.level) :: outline rs
        rw [(hf r).1, (hf r).2]
      | succ i => exact congrArg (List.cons (r.tag, r.level)) (ih i)

/-! The children of a paragraph. -/

theorem childrenFrom_congr {rs rs' : List Record} (h : outline rs = outline rs') (level index : Nat) :
    childrenFrom level index rs = childrenFrom level index rs' := by
  induction rs generalizing rs' index with
  | nil =>
    cases rs' with
    | nil => rfl
    | cons r' rs' => cases h
  | cons r rs ih =>
    cases rs' with
    | nil => cases h
    | cons r' rs' =>
      obtain ⟨hhead, htail⟩ := List.cons.inj h
      obtain ⟨htag, hlevel⟩ := Prod.mk.inj hhead
      rw [childrenFrom, childrenFrom, htag, hlevel, ih htail]

theorem childrenOf_congr {rs rs' : List Record} (h : outline rs = outline rs') (index : Nat) :
    childrenOf rs index = childrenOf rs' index := by
  have hdrop : outline (rs.drop (index + 1)) = outline (rs'.drop (index + 1)) := by
    rw [outline, outline, List.map_drop, List.map_drop]
    exact congrArg (List.drop (index + 1)) h
  rw [childrenOf, childrenOf, level_congr h, childrenFrom_congr hdrop]

theorem childrenFrom_lookup {level index tag j : Nat} {rest : List Record}
    (h : (childrenFrom level index rest).lookup tag = some j) :
    ∃ n, j = index + n ∧ n < rest.length ∧ (recordAt rest n).tag = tag ∧ (recordAt rest n).level = level + 1 ∧
      ∀ i, i < n → level < (recordAt rest i).level := by
  induction rest generalizing index with
  | nil => cases h
  | cons r rest ih =>
    have hlater : level < r.level → (childrenFrom level (index + 1) rest).lookup tag = some j →
        ∃ n, j = index + n ∧ n < (r :: rest).length ∧ (recordAt (r :: rest) n).tag = tag ∧
          (recordAt (r :: rest) n).level = level + 1 ∧ ∀ i, i < n → level < (recordAt (r :: rest) i).level := by
      intro hdeep hrest
      obtain ⟨n, hj, hn, htag, hlevel, hbetween⟩ := ih hrest
      refine ⟨n + 1, by omega, by simpa using hn, htag, hlevel, fun i hi => ?_⟩
      cases i with
      | zero => exact hdeep
      | succ i => exact hbetween i (by omega)
    rw [childrenFrom] at h
    by_cases hdeep : level < r.level
    · rw [if_pos hdeep] at h
      by_cases hnext : r.level = level + 1
      · rw [if_pos hnext, List.lookup_cons] at h
        by_cases htag : tag = r.tag
        · rw [htag, beq_self_eq_true] at h
          exact ⟨0, (Option.some.inj h).symm, by simp, htag.symm, hnext, fun i hi => absurd hi (Nat.not_lt_zero i)⟩
        · rw [beq_false_of_ne htag] at h
          exact hlater hdeep h
      · rw [if_neg hnext] at h
        exact hlater hdeep h
    · rw [if_neg hdeep] at h
      cases h

/-- The record at `j` stands one level below the header at `h`, in its paragraph. -/
structure Child (rs : List Record) (h tag j : Nat) : Prop where
  after : h < j
  within : j < rs.length
  tag : (recordAt rs j).tag = tag
  level : (recordAt rs j).level = (recordAt rs h).level + 1
  between : ∀ i, h < i → i < j → (recordAt rs h).level < (recordAt rs i).level

theorem childrenOf_lookup {rs : List Record} {h tag j : Nat} (hfound : (childrenOf rs h).lookup tag = some j) :
    Child rs h tag j := by
  obtain ⟨n, rfl, hn, htag, hlevel, hbetween⟩ := childrenFrom_lookup hfound
  rw [List.length_drop] at hn
  rw [recordAt_drop] at htag hlevel
  refine ⟨by omega, by omega, htag, hlevel, fun i hhi hi => ?_⟩
  have hdeep := hbetween (i - (h + 1)) (by omega)
  rw [recordAt_drop] at hdeep
  rwa [show h + 1 + (i - (h + 1)) = i by omega] at hdeep

/-- A record has one header only. -/
theorem Child.unique {rs : List Record} {g h a b j : Nat} (hg : Child rs g a j) (hh : Child rs h b j) : g = h := by
  have hlevel := hg.level.symm.trans hh.level
  obtain hlt | heq | hgt := Nat.lt_trichotomy g h
  · have hdeep := hg.between h hlt hh.after
    omega
  · exact heq
  · have hdeep := hh.between g hgt hg.after
    omega

/-! What masking at a place may change. -/

/-- The tags of the records that are edited with a header. -/
def dependents : List Nat := [paraText, paraCharShape, paraLineSeg, paraRangeTag]

def PartOf (rs : List Record) (h j : Nat) : Prop :=
  j = h ∨ ∃ tag ∈ dependents, (childrenOf rs h).lookup tag = some j

/-- The record at `j` is one that masking at `h` may change. -/
def Owns (rs : List Record) (h j : Nat) : Prop :=
  ((recordAt rs h).tag = paraHeader ∧ PartOf rs h j) ∨
    (((recordAt rs h).tag = ctrlHeader ∨ (recordAt rs h).tag = eqEdit) ∧ j = h)

theorem partOf_congr {rs rs' : List Record} (h : outline rs = outline rs') (i j : Nat) :
    PartOf rs i j ↔ PartOf rs' i j := by
  rw [PartOf, PartOf, childrenOf_congr h]

theorem owns_congr {rs rs' : List Record} (h : outline rs = outline rs') (i j : Nat) : Owns rs i j ↔ Owns rs' i j := by
  rw [Owns, Owns, partOf_congr h, tag_congr h]

theorem PartOf.tag {rs : List Record} {h j : Nat} (hheader : (recordAt rs h).tag = paraHeader) (hpart : PartOf rs h j) :
    (recordAt rs j).tag ∈ paraHeader :: dependents := by
  obtain rfl | ⟨tag, htag, hfound⟩ := hpart
  · rw [hheader]
    exact List.mem_cons_self
  · rw [(childrenOf_lookup hfound).tag]
    exact List.mem_cons_of_mem _ htag

theorem PartOf.unique {rs : List Record} {g h j : Nat} (hgtag : (recordAt rs g).tag = paraHeader)
    (hhtag : (recordAt rs h).tag = paraHeader) (hg : PartOf rs g j) (hh : PartOf rs h j) : g = h := by
  have hchild : ∀ {i k : Nat}, (recordAt rs i).tag = paraHeader →
      (∃ tag ∈ dependents, (childrenOf rs k).lookup tag = some i) → False := by
    intro i k hi ⟨tag, htag, hfound⟩
    rw [← (childrenOf_lookup hfound).tag, hi] at htag
    exact absurd htag (by decide)
  obtain rfl | hg := hg
  · obtain rfl | hh := hh
    · rfl
    · exact (hchild hgtag hh).elim
  · obtain rfl | hh := hh
    · exact (hchild hhtag hg).elim
    · obtain ⟨a, -, ha⟩ := hg
      obtain ⟨b, -, hb⟩ := hh
      exact (childrenOf_lookup ha).unique (childrenOf_lookup hb)

/-- No record is masked from two places. -/
theorem Owns.unique {rs : List Record} {g h j : Nat} (hg : Owns rs g j) (hh : Owns rs h j) : g = h := by
  have hslot : ∀ {i k : Nat}, (recordAt rs k).tag = paraHeader → PartOf rs k i →
      (recordAt rs i).tag = ctrlHeader ∨ (recordAt rs i).tag = eqEdit → False := by
    intro i k hk hpart hi
    have htag := hpart.tag hk
    obtain hi | hi := hi
    · rw [hi] at htag
      exact absurd htag (by decide)
    · rw [hi] at htag
      exact absurd htag (by decide)
  obtain ⟨hgtag, hg⟩ | ⟨hgtag, rfl⟩ := hg
  · obtain ⟨hhtag, hh⟩ | ⟨hhtag, rfl⟩ := hh
    · exact hg.unique hgtag hhtag hh
    · exact (hslot hgtag hg hhtag).elim
  · obtain ⟨hhtag, hh⟩ | ⟨hhtag, rfl⟩ := hh
    · exact (hslot hhtag hh hgtag).elim
    · rfl

end XgenSdk.Hwp
