import XgenSdk.ControlPolicy.HwpSection
import Mathlib.Data.Nat.Bitwise

/-! What masking does to a paragraph: its text, the header and the records that
depend on the text stay in step. -/
namespace XgenSdk.Hwp
open XgenSdk.Py.Utf16 XgenSdk.Py.Struct XgenSdk.Splice

/-! Numbers and shapes. -/

theorem packU32_ok {value : Nat} {bytes : Bytes} (h : packU32 value = .ok bytes) :
    value < 2 ^ 32 ∧ bytes = leBytes 4 value := by
  unfold packU32 at h
  split at h
  · rename_i hvalue
    exact ⟨hvalue, (Except.ok.inj h).symm⟩
  · cases h

theorem packU16_ok {value : Nat} {bytes : Bytes} (h : packU16 value = .ok bytes) :
    value < 2 ^ 16 ∧ bytes = leBytes 2 value := by
  unfold packU16 at h
  split at h
  · rename_i hvalue
    exact ⟨hvalue, (Except.ok.inj h).symm⟩
  · cases h

theorem unpackU32s_append {value : Nat} (h : value < 2 ^ 32) (rest : Bytes) :
    unpackU32s (leBytes 4 value ++ rest) = value :: unpackU32s rest := by
  have hback := leNat_leBytes (n := 4) (by omega : value < 256 ^ 4)
  have hfour : leBytes 4 value = [UInt8.ofNat (value % 256), UInt8.ofNat (value / 256 % 256),
      UInt8.ofNat (value / 256 / 256 % 256), UInt8.ofNat (value / 256 / 256 / 256 % 256)] := rfl
  rw [hfour] at hback ⊢
  change leNat _ :: unpackU32s rest = _
  rw [hback]

/-- Numbers of four bytes are read back. -/
theorem packU32s_ok {values : List Nat} {payload : Bytes} (h : packU32s values = .ok payload) :
    unpackU32s payload = values ∧ payload.length = 4 * values.length := by
  induction values generalizing payload with
  | nil =>
    rw [← Except.ok.inj h]
    exact ⟨rfl, rfl⟩
  | cons value values ih =>
    obtain ⟨packed, hpacked, hpayload⟩ := hwpBind_ok h
    rw [List.mapM_cons] at hpacked
    obtain ⟨bytes, hbytes, hpacked⟩ := hwpBind_ok hpacked
    obtain ⟨others, hothers, hpacked⟩ := hwpBind_ok hpacked
    obtain ⟨hvalue, rfl⟩ := packU32_ok hbytes
    have hrest : packU32s values = .ok others.flatten := by
      rw [packU32s, hothers]
      rfl
    obtain ⟨hback, hlength⟩ := ih hrest
    rw [← Except.ok.inj hpayload, ← Except.ok.inj hpacked, List.flatten_cons, unpackU32s_append hvalue, hback,
      List.length_append, hlength, length_leBytes, List.length_cons]
    exact ⟨rfl, by omega⟩

theorem pairs_flatMap (shapes : List (Nat × Nat)) : pairs (shapes.flatMap fun s => [s.1, s.2]) = shapes := by
  induction shapes with
  | nil => rfl
  | cons s shapes ih =>
    rw [List.flatMap_cons, List.cons_append, List.cons_append, List.nil_append, pairs, ih]

/-- Positions strictly increase. -/
def Ascending (shapes : List (Nat × Nat)) : Prop := (shapes.map Prod.fst).Pairwise fun a b => a < b

theorem ascending_concat {shapes : List (Nat × Nat)} {p v : Nat} :
    Ascending (shapes ++ [(p, v)]) ↔ Ascending shapes ∧ ∀ s ∈ shapes, s.1 < p := by
  rw [Ascending, List.map_append, List.pairwise_append]
  simp [Ascending]

theorem Ascending.last_le {shapes : List (Nat × Nat)} (h : Ascending shapes) {s : Nat × Nat} (hs : s ∈ shapes) :
    s.1 ≤ (shapes.getLast?.map Prod.fst).getD 0 := by
  obtain rfl | ⟨init, last, rfl⟩ := shapes.eq_nil_or_concat
  · cases hs
  · rw [List.concat_eq_append] at h hs ⊢
    rw [List.getLast?_concat]
    obtain hs | hs := List.mem_append.mp hs
    · exact Nat.le_of_lt ((ascending_concat.mp h).2 s hs)
    · rw [List.mem_singleton.mp hs]
      exact Nat.le_refl _

theorem moveShape_ascending (w : Rewrite) {shapes : List (Nat × Nat)} (h : Ascending shapes) (entry : Nat × Nat) :
    Ascending (moveShape w shapes entry) := by
  unfold moveShape
  dsimp only
  split
  · rename_i hlast
    obtain rfl | ⟨init, last, rfl⟩ := shapes.eq_nil_or_concat
    · cases hlast
    · rw [List.concat_eq_append] at h hlast ⊢
      rw [List.getLast?_concat, Option.map_some] at hlast
      rw [List.getLast?_concat, Option.map_some, List.dropLast_concat, ← Option.some.inj hlast]
      exact ascending_concat.mpr (ascending_concat.mp h)
  · rename_i hlast
    refine ascending_concat.mpr ⟨h, fun s hs => ?_⟩
    have hle := h.last_le hs
    have hmax := Nat.le_max_right (w.position entry.1) ((shapes.getLast?.map Prod.fst).getD 0)
    refine lt_of_le_of_ne (hle.trans hmax) fun heq => hlast ?_
    obtain rfl | ⟨init, last, rfl⟩ := shapes.eq_nil_or_concat
    · cases hs
    · rw [List.concat_eq_append, List.getLast?_concat, Option.map_some] at *
      exact congrArg some (by simp only [Option.getD_some] at *; omega)

theorem movedShapes_ascending (w : Rewrite) (old : Bytes) : Ascending (movedShapes w old) := by
  have hrun : ∀ entries : List (Nat × Nat), ∀ shapes, Ascending shapes → Ascending (entries.foldl (moveShape w) shapes) := by
    intro entries
    induction entries with
    | nil => exact fun shapes h => h
    | cons entry entries ih => exact fun shapes h => ih _ (moveShape_ascending w h entry)
  exact hrun _ [] List.Pairwise.nil

/-- The top bit of a number of 32 bits, with other bits below it. -/
theorem top_bit {chars total : Nat} (hchars : chars < 2 ^ 32) (htotal : total < 2 ^ 31) :
    ((chars &&& 0x80000000) ||| total) % 2 ^ 31 = total ∧ ((chars &&& 0x80000000) ||| total) / 2 ^ 31 = chars / 2 ^ 31 := by
  have hbit : chars &&& 0x80000000 = 2 ^ 31 * (chars / 2 ^ 31) := by
    rw [show (0x80000000 : Nat) = 2 ^ 31 by rfl, Nat.and_two_pow, Nat.testBit_eq_decide_div_mod_eq, Nat.mul_comm]
    have hdiv : chars / 2 ^ 31 = 0 ∨ chars / 2 ^ 31 = 1 := by omega
    obtain hdiv | hdiv := hdiv
    · rw [hdiv]
      rfl
    · rw [hdiv]
      rfl
  rw [hbit, ← Nat.two_pow_add_eq_or_of_lt htotal]
  omega

/-! The edit of a paragraph. -/

theorem editShapes_ok {w : Rewrite} {at_ : Option Nat} {rs rs' : List Record} {head head' : Bytes}
    (h : editShapes w at_ rs head = .ok (rs', head')) :
    ∃ payload, rs' = modifyAt at_ (Record.setPayload payload) rs ∧ head'.length = head.length ∧
      head'.take 4 = head.take 4 ∧
      ∀ i, at_ = some i → pairs (unpackU32s payload) = movedShapes w (recordAt rs i).payload ∧
        payload.length = 8 * (movedShapes w (recordAt rs i).payload).length ∧
        (14 ≤ head.length → leNat ((head'.drop 12).take 2) = (movedShapes w (recordAt rs i).payload).length) := by
  cases at_ with
  | none =>
    obtain ⟨rfl, rfl⟩ := Prod.mk.inj (Except.ok.inj h)
    exact ⟨[], rfl, rfl, rfl, fun i hi => by cases hi⟩
  | some i =>
    obtain ⟨payload, hpayload, h⟩ := hwpBind_ok h
    obtain ⟨edited, hedited, h⟩ := hwpBind_ok h
    obtain ⟨rfl, rfl⟩ := Prod.mk.inj (Except.ok.inj h)
    obtain ⟨hback, hlength⟩ := packU32s_ok hpayload
    have hflat : ∀ shapes : List (Nat × Nat), (shapes.flatMap fun s => [s.1, s.2]).length = 2 * shapes.length := by
      intro shapes
      induction shapes with
      | nil => rfl
      | cons s shapes ih =>
        rw [List.flatMap_cons, List.length_append, ih, List.length_cons]
        simp only [List.length_cons, List.length_nil]
        omega
    have hpairs : pairs (unpackU32s payload) = movedShapes w (recordAt rs i).payload := by rw [hback, pairs_flatMap]
    have hsize : payload.length = 8 * (movedShapes w (recordAt rs i).payload).length := by
      rw [hlength, hflat]
      omega
    unfold countShapes at hedited
    by_cases hlong : 14 ≤ head.length
    · rw [if_pos hlong] at hedited
      obtain ⟨count, hcount, rfl⟩ := map_ok hedited
      obtain ⟨hsmall, rfl⟩ := packU16_ok hcount
      have htwo := length_leBytes 2 (movedShapes w (recordAt rs i).payload).length
      refine ⟨payload, rfl, length_overwrite (by omega), overwrite_before (by omega) (by omega), fun j hj => ?_⟩
      rw [← Option.some.inj hj]
      refine ⟨hpairs, hsize, fun _ => ?_⟩
      have hread := @overwrite_read 12 (leBytes 2 (movedShapes w (recordAt rs i).payload).length) head (by omega)
      rw [htwo] at hread
      rw [hread, leNat_leBytes (by omega)]
    · rw [if_neg hlong] at hedited
      rw [← Except.ok.inj hedited]
      refine ⟨payload, rfl, rfl, rfl, fun j hj => ?_⟩
      rw [← Option.some.inj hj]
      exact ⟨hpairs, hsize, fun h14 => absurd h14 hlong⟩

theorem editRanges_ok {w : Rewrite} {at_ : Option Nat} {rs rs' : List Record} (h : editRanges w at_ rs = .ok rs') :
    ∃ payload, rs' = modifyAt at_ (Record.setPayload payload) rs := by
  cases at_ with
  | none => exact ⟨[], (Except.ok.inj h).symm⟩
  | some i =>
    obtain ⟨payload, -, h⟩ := hwpBind_ok h
    exact ⟨payload, (Except.ok.inj h).symm⟩

theorem outline_setPayload (at_ : Option Nat) (payload : Bytes) (rs : List Record) :
    outline (modifyAt at_ (Record.setPayload payload) rs) = outline rs := outline_modifyAt at_ rs fun _ => ⟨rfl, rfl⟩

theorem outline_drop (at_ : Option Nat) (rs : List Record) : outline (modifyAt at_ Record.drop rs) = outline rs :=
  outline_modifyAt at_ rs fun _ => ⟨rfl, rfl⟩

theorem dropLines_eq (at_ : Option Nat) (rs : List Record) : dropLines at_ rs = modifyAt at_ Record.drop rs := by
  cases at_ <;> rfl

/-- What an edit made of the records of a paragraph. -/
structure Edited (w : Rewrite) (index textAt : Nat) (children : List (Nat × Nat)) (rs out : List Record) : Prop where
  outline : outline out = outline rs
  others : ∀ j, j ≠ index → (∀ tag ∈ dependents, children.lookup tag ≠ some j) → recordAt out j = recordAt rs j
  text : recordAt out textAt = (recordAt rs textAt).setPayload w.payload
  header : ∃ head, recordAt out index = (recordAt rs index).setPayload head ∧
    head.length = (recordAt rs index).payload.length ∧
    leNat (head.take 4) = (leNat ((recordAt rs index).payload.take 4) &&& 0x80000000) ||| w.newTotal ∧
    ∀ s, children.lookup paraCharShape = some s → 14 ≤ (recordAt rs index).payload.length →
      leNat ((head.drop 12).take 2) = (movedShapes w (recordAt rs s).payload).length
  shapes : ∀ s, children.lookup paraCharShape = some s → ∃ payload,
    recordAt out s = (recordAt rs s).setPayload payload ∧
    pairs (unpackU32s payload) = movedShapes w (recordAt rs s).payload ∧
    payload.length = 8 * (movedShapes w (recordAt rs s).payload).length
  lines : ∀ l, children.lookup paraLineSeg = some l → recordAt out l = (recordAt rs l).drop
  ranges : ∀ r, children.lookup paraRangeTag = some r → ∃ payload, recordAt out r = (recordAt rs r).setPayload payload

/-- A header and its children, at different places. -/
structure Family (index textAt : Nat) (children : List (Nat × Nat)) (rs : List Record) : Prop where
  header : index < rs.length
  text : children.lookup paraText = some textAt
  within : ∀ tag j, children.lookup tag = some j → j < rs.length
  apart : ∀ tag j, children.lookup tag = some j → j ≠ index
  distinct : ∀ tag tag' j, children.lookup tag = some j → children.lookup tag' = some j → tag = tag'

theorem family_childrenOf {rs : List Record} {index textAt : Nat} (hindex : index < rs.length)
    (htext : (childrenOf rs index).lookup paraText = some textAt) : Family index textAt (childrenOf rs index) rs := by
  refine ⟨hindex, htext, fun tag j hj => (childrenOf_lookup hj).within, fun tag j hj => ?_, fun tag tag' j hj hj' => ?_⟩
  · have hafter := (childrenOf_lookup hj).after
    omega
  · rw [← (childrenOf_lookup hj).tag, (childrenOf_lookup hj').tag]

theorem editParagraph_ok {w : Rewrite} {index textAt : Nat} {children : List (Nat × Nat)} {rs out : List Record}
    (hfamily : Family index textAt children rs) (hfour : 4 ≤ (recordAt rs index).payload.length)
    (h : editParagraph w index textAt children rs = .ok out) : Edited w index textAt children rs out := by
  obtain ⟨chars, hchars, h⟩ := hwpBind_ok h
  obtain ⟨⟨rs2, head2⟩, hshaped, h⟩ := hwpBind_ok h
  obtain ⟨ranged, hranged, h⟩ := hwpBind_ok h
  obtain ⟨hvalue, rfl⟩ := packU32_ok hchars
  obtain ⟨shapePayload, rfl, hlength, hfirst, hshape⟩ := editShapes_ok hshaped
  obtain ⟨rangePayload, rfl⟩ := editRanges_ok hranged
  rw [dropLines_eq] at h
  have hcharsLength := length_leBytes 4 ((leNat ((recordAt rs index).payload.take 4) &&& 0x80000000) ||| w.newTotal)
  have hheadLength := length_overwrite (by omega :
    0 + (leBytes 4 ((leNat ((recordAt rs index).payload.take 4) &&& 0x80000000) ||| w.newTotal)).length ≤
      (recordAt rs index).payload.length)
  -- children of different tags, and the header, are different records
  have hne : ∀ {tag tag' j : Nat}, tag ≠ tag' → children.lookup tag = some j → children.lookup tag' ≠ some j :=
    fun hne hj hj' => hne (hfamily.distinct _ _ _ hj hj')
  have hnot : ∀ {tag j : Nat}, children.lookup tag = some j → some index ≠ some j :=
    fun hj hij => hfamily.apart _ _ hj (Option.some.inj hij).symm
  have hnotIndex : ∀ tag, children.lookup tag ≠ some index := fun tag hj => hfamily.apart tag index hj rfl
  have htextNe : ∀ {tag j : Nat}, paraText ≠ tag → children.lookup tag = some j → some textAt ≠ some j := by
    intro tag j htag hj heq
    rw [← Option.some.inj heq] at hj
    exact hne htag hfamily.text hj
  have houtEq : out = modifyAt (some index)
      (Record.setPayload (if 18 ≤ head2.length then overwrite 16 [0, 0] head2 else head2))
      (modifyAt (children.lookup paraRangeTag) (Record.setPayload rangePayload)
        (modifyAt (children.lookup paraLineSeg) Record.drop
          (modifyAt (children.lookup paraCharShape) (Record.setPayload shapePayload)
            (modifyAt (some textAt) (Record.setPayload w.payload) rs)))) := (Except.ok.inj h).symm
  have hshapeAt : ∀ s, children.lookup paraCharShape = some s →
      recordAt (rs.modify textAt (Record.setPayload w.payload)) s = recordAt rs s :=
    fun s hs => recordAt_modifyAt_ne (htextNe (by decide) hs) _ _
  refine ⟨?_, fun j hj hothers => ?_, ?_, ?_, fun s hs => ?_, fun l hl => ?_, fun r hr => ?_⟩
  · rw [houtEq]
    simp only [outline_setPayload, outline_drop]
  · have htextJ : some textAt ≠ some j := by
      rw [← hfamily.text]
      exact hothers _ (by decide)
    rw [houtEq, recordAt_modifyAt_ne (fun hij => hj (Option.some.inj hij).symm),
      recordAt_modifyAt_ne (hothers _ (by decide)), recordAt_modifyAt_ne (hothers _ (by decide)),
      recordAt_modifyAt_ne (hothers _ (by decide)), recordAt_modifyAt_ne htextJ]
  · rw [houtEq, recordAt_modifyAt_ne (hnot hfamily.text), recordAt_modifyAt_ne (hne (by decide) hfamily.text),
      recordAt_modifyAt_ne (hne (by decide) hfamily.text), recordAt_modifyAt_ne (hne (by decide) hfamily.text),
      recordAt_modifyAt_self (hfamily.within _ _ hfamily.text)]
  · refine ⟨if 18 ≤ head2.length then overwrite 16 [0, 0] head2 else head2, ?_, ?_, ?_, fun s hs h14 => ?_⟩
    · rw [houtEq, recordAt_modifyAt_self (by simpa using hfamily.header), recordAt_modifyAt_ne (hnotIndex _),
        recordAt_modifyAt_ne (hnotIndex _), recordAt_modifyAt_ne (hnotIndex _),
        recordAt_modifyAt_ne fun heq => hfamily.apart _ _ hfamily.text (Option.some.inj heq)]
    · split
      · rename_i h18
        rw [length_overwrite (by simpa using h18), hlength, hheadLength]
      · rw [hlength, hheadLength]
    · have htake : (if 18 ≤ head2.length then overwrite 16 [0, 0] head2 else head2).take 4 = head2.take 4 := by
        split
        · exact overwrite_before (by omega) (by omega)
        · rfl
      have hread := @overwrite_read 0
        (leBytes 4 ((leNat ((recordAt rs index).payload.take 4) &&& 0x80000000) ||| w.newTotal))
        (recordAt rs index).payload (Nat.zero_le _)
      rw [hcharsLength, List.drop_zero] at hread
      rw [htake, hfirst, hread, leNat_leBytes (by omega)]
    · have hcount := (hshape s hs).2.2 (by rw [hheadLength]; exact h14)
      rw [hshapeAt s hs] at hcount
      rw [← hcount, List.take_drop, List.take_drop]
      congr 2
      split
      · exact overwrite_before (by omega) (by omega)
      · rfl
  · obtain ⟨hpairs, hsize, -⟩ := hshape s hs
    rw [hshapeAt s hs] at hpairs hsize
    refine ⟨shapePayload, ?_, hpairs, hsize⟩
    rw [houtEq, recordAt_modifyAt_ne (hnot hs), recordAt_modifyAt_ne (hne (by decide) hs),
      recordAt_modifyAt_ne (hne (by decide) hs), hs,
      recordAt_modifyAt_self (by simpa using hfamily.within _ _ hs),
      recordAt_modifyAt_ne (htextNe (by decide) hs)]
  · rw [houtEq, recordAt_modifyAt_ne (hnot hl), recordAt_modifyAt_ne (hne (by decide) hl), hl,
      recordAt_modifyAt_self (by simpa using hfamily.within _ _ hl), recordAt_modifyAt_ne (hne (by decide) hl),
      recordAt_modifyAt_ne (htextNe (by decide) hl)]
  · refine ⟨rangePayload, ?_⟩
    rw [houtEq, recordAt_modifyAt_ne (hnot hr), hr, recordAt_modifyAt_self (by simpa using hfamily.within _ _ hr),
      recordAt_modifyAt_ne (hne (by decide) hr), recordAt_modifyAt_ne (hne (by decide) hr),
      recordAt_modifyAt_ne (htextNe (by decide) hr)]

end XgenSdk.Hwp
