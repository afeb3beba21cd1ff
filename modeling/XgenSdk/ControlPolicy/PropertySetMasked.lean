import XgenSdk.ControlPolicy.PropertySetRelaid

/-! Masking one section: its properties and its texts are read back from what
is written. -/
namespace XgenSdk.PropertySetMasked
open XgenSdk.Py.Utf16 XgenSdk.Py.Struct XgenSdk.Splice XgenSdk.Sorting XgenSdk.PlainText XgenSdk.PropertySet XgenSdk.Checks
  XgenSdk.Pieces XgenSdk.PropertySetSection XgenSdk.PropertySetRelaid

/-- The values of a section stand apart, and that of its code page is whole. -/
structure WellPlaced (part : Bytes) (layout : Layout) : Prop where
  distinct : (layout.entries.map Entry.offset).Nodup
  inside : ∀ e ∈ layout.entries, e.offset ≤ part.length
  codepage : ∀ e ∈ layout.entries, e.pid = 1 → ∀ value, valueAt part layout.bounds e.offset = some value → Readable value

/-- The properties of a section, in the order of its table. -/
def properties (part : Bytes) (layout : Layout) : List Property :=
  layout.entries.map fun e => ⟨e.pid, (valueAt part layout.bounds e.offset).getD []⟩

/-- What masking makes of a section. -/
def SectionMasked (L : Library) (P : Policies) (before after : Bytes) : Prop :=
  ∃ layout layout', readLayout before = some layout ∧ readLayout after = some layout' ∧ layout'.encoding = layout.encoding ∧
    List.Forall₂ (PropertyMasked L P layout.encoding) (properties before layout) (properties after layout')

variable {L : Library} {P : Policies}

/-! The texts of a section. -/

def textAt (L : Library) (part : Bytes) (layout : Layout) (e : Entry) : Option (Option Str) :=
  (valueAt part layout.bounds e.offset).bind (textOf L layout.encoding e.pid)

/-- Without policies, a section gives its texts and stays as it is. -/
theorem noPolicies_texts {part : Bytes} {layout : Layout} {t : Entry → Option Str} (hread : readLayout part = some layout)
    (ht : ∀ e ∈ layout.entries, textAt L part layout e = some (t e)) :
    ∃ left, maskPropertySection L noPolicies part = some ⟨part, 0, layout.entries.flatMap fun e => (t e).toList, left⟩ := by
  have hmasked : ∀ e ∈ layout.entries, maskedAt L noPolicies part layout e =
      some ⟨(valueAt part layout.bounds e.offset).getD [], 0, t e⟩ := by
    intro e he
    obtain ⟨value, hvalue, htext⟩ := Option.bind_eq_some_iff.mp (ht e he)
    rw [maskedAt, hvalue, Option.bind_some, maskValue_noPolicies htext]
    rfl
  obtain ⟨done, hdone, hrec⟩ := foldlM_maskEntry hmasked ⟨Dict.empty, 0, [], []⟩
  have hhits : done.hits = 0 := by rw [hrec.hits]; simp
  refine ⟨done.leftovers, ?_⟩
  rw [maskPropertySection, hread, Option.bind_eq_bind, Option.bind_some, hdone, Option.bind_eq_bind, Option.bind_some,
    if_pos hhits, hrec.texts]
  rfl

/-! A section and the one that is read in its place. -/

/-- Another section with the same entries, each at its own place and with the value that masking gives. -/
structure Viewed (layout : Layout) (masked : Entry → MaskedValue) (moved : Entry → Entry) (part : Bytes) (layout' : Layout) :
    Prop where
  read : readLayout part = some layout'
  encoding : layout'.encoding = layout.encoding
  entries : layout'.entries = layout.entries.map moved
  pid : ∀ e ∈ layout.entries, (moved e).pid = e.pid
  value : ∀ e ∈ layout.entries, valueAt part layout'.bounds (moved e).offset = some (masked e).bytes

section View
variable {part part' : Bytes} {layout layout' : Layout} {masked : Entry → MaskedValue} {moved : Entry → Entry}
  (hP : Counting P) (henc : Encodable L P layout.encoding) (hread : readLayout part = some layout)
  (hmasked : ∀ e ∈ layout.entries, maskedAt L P part layout e = some (masked e))
  (hview : Viewed layout masked moved part' layout')
include hP henc hmasked

theorem entry_masked {e : Entry} (he : e ∈ layout.entries) : ∃ value, valueAt part layout.bounds e.offset = some value ∧
    ValueMasked L P layout.encoding e.pid value (masked e) ∧ textOf L layout.encoding e.pid value = some (masked e).text := by
  obtain ⟨value, hvalue, hmask⟩ := Option.bind_eq_some_iff.mp (hmasked e he)
  exact ⟨value, hvalue, maskValue_masked hP henc hmask, maskValue_textOf hmask⟩

include hview

include hread in
theorem view_masked : SectionMasked L P part part' := by
  refine ⟨layout, layout', hread, hview.read, hview.encoding, ?_⟩
  rw [properties, properties, hview.entries, List.map_map, List.forall₂_map_left_iff, List.forall₂_map_right_iff,
    List.forall₂_same]
  intro e he
  obtain ⟨value, hvalue, hm, -⟩ := entry_masked hP henc hmasked he
  simp only [Function.comp_apply, hvalue, hview.value e he, hview.pid e he, Option.getD_some]
  exact hm.property

/-- The texts of the other section are the masked texts. -/
theorem view_texts : ∃ left, maskPropertySection L noPolicies part' =
    some ⟨part', 0, (layout.entries.flatMap fun e => (masked e).text.toList).map (maskedText P), left⟩ := by
  have htext : ∀ e ∈ layout.entries, textAt L part' layout' (moved e) = some ((masked e).text.map (maskedText P)) := by
    intro e he
    obtain ⟨value, -, hm, htext⟩ := entry_masked hP henc hmasked he
    rw [textAt, hview.value e he, Option.bind_some, hview.encoding, hview.pid e he]
    exact hm.property.textOf htext
  obtain ⟨left, hleft⟩ := noPolicies_texts (t := fun e => (textAt L part' layout' e).getD none) hview.read (by
    rw [hview.entries]
    intro e he
    obtain ⟨f, hf, rfl⟩ := List.mem_map.mp he
    rw [htext f hf, Option.getD_some])
  refine ⟨left, hleft.trans ?_⟩
  rw [hview.entries, List.flatMap_map, List.map_flatMap]
  have hsame : (layout.entries.flatMap fun e => ((textAt L part' layout' (moved e)).getD none).toList) =
      layout.entries.flatMap fun e => (masked e).text.toList.map (maskedText P) := by
    refine List.flatMap_congr fun e he => ?_
    rw [htext e he, Option.getD_some]
    cases (masked e).text <;> rfl
  rw [hsame]

end View

/-! One section. -/

/-- What is left of a section that is masked. -/
structure SectionRewritten (L : Library) (P : Policies) (part : Bytes) (r : MaskedSection) : Prop where
  masked : SectionMasked L P part r.bytes
  size : unpack 4 r.bytes 0 = some r.bytes.length
  long : 8 ≤ r.bytes.length
  read : ∃ left, maskPropertySection L noPolicies part = some ⟨part, 0, r.texts, left⟩
  back : ∃ left, maskPropertySection L noPolicies r.bytes = some ⟨r.bytes, 0, r.texts.map (maskedText P), left⟩

/-- Where nothing is detected, every value stays. -/
theorem unmasked_view {part : Bytes} {layout : Layout} {masked : Entry → MaskedValue} (hP : Counting P)
    (henc : Encodable L P layout.encoding) (hread : readLayout part = some layout)
    (hmasked : ∀ e ∈ layout.entries, maskedAt L P part layout e = some (masked e))
    (hnone : (layout.entries.map fun e => (masked e).hits).sum = 0) : Viewed layout masked id part layout := by
  refine ⟨hread, rfl, (List.map_id _).symm, fun _ _ => rfl, fun e he => ?_⟩
  obtain ⟨value, hvalue, hm, -⟩ := entry_masked hP henc hmasked he
  have hzero : (masked e).hits = 0 := List.sum_eq_zero_iff_forall_eq_nat.mp hnone _ (List.mem_map_of_mem he)
  rw [hm.unmasked hzero]
  exact hvalue

/-- The values that masking gives stand apart as the old ones do. -/
theorem spread_of {part : Bytes} {layout : Layout} {masked : Entry → MaskedValue} {v : Nat → Bytes} (hP : Counting P)
    (henc : Encodable L P layout.encoding) (hread : readLayout part = some layout)
    (hwell : WellPlaced part layout) (hmasked : ∀ e ∈ layout.entries, maskedAt L P part layout e = some (masked e))
    (hv : ∀ e ∈ layout.entries, v e.offset = (masked e).bytes) : Spread layout v := by
  obtain ⟨size, codepage, hlayout⟩ := readLayout_iff.mp hread
  have hs : Spread layout fun _ => [0] := ⟨hlayout.ordered, hwell.distinct, fun _ _ => by simp⟩
  refine ⟨hlayout.ordered, hwell.distinct, fun j hj => ?_⟩
  have hmem : ∀ i (hi : i < layout.ordered.length), layout.ordered[i] ∈ layout.entries := fun i hi => by
    rw [← (byKey_perm Entry.offset layout.entries).mem_iff, ← hlayout.ordered]
    exact List.getElem_mem hi
  obtain ⟨value, hvalue, hm, -⟩ := entry_masked hP henc hmasked (hmem j (Nat.lt_of_succ_lt hj))
  rw [hv _ (hmem j (Nat.lt_of_succ_lt hj))]
  intro hempty
  have hslot := valueAt_ordered part size hs.nodup (Nat.lt_of_succ_lt hj)
  rw [← hlayout.bounds, hvalue, Option.some.injEq, hm.empty hempty, endAt, List.getElem?_eq_getElem hj] at hslot
  have hlength := congrArg List.length hslot
  have hlt : layout.ordered[j].offset < layout.ordered[j + 1].offset := hs.offset_lt (Nat.lt_succ_self j) hj
  rw [Option.map_some, Option.getD_some, length_slice part (hwell.inside _ (hmem (j + 1) hj))] at hlength
  rw [List.length_nil] at hlength
  omega

/-- The section that is written where something is detected. -/
theorem relaid_of {part : Bytes} {layout : Layout} {values : Dict Nat Bytes} {placed : Dict Nat Nat} {v : Nat → Bytes}
    {body size count : Bytes} {table : List Bytes} (hread : readLayout part = some layout)
    (hv : ∀ e ∈ layout.ordered, values.get e.offset = some (v e.offset)) (hs : Spread layout v)
    (hplaced : placeValues values (8 + layout.count * 8) layout.ordered (Dict.empty, []) = some (placed, body))
    (htable : layout.entries.mapM (tableRow placed) = some table) (hsize : pack32 (8 + layout.count * 8 + body.length) = some size)
    (hcount : pack32 layout.count = some count) :
    Relaid layout v (fun k => (placed.get k).getD 0) (size ++ count ++ table.flatten ++ body) := by
  obtain ⟨placed', hplaced', -, hget⟩ := placeValues_eq hv hs.nodup (8 + layout.count * 8) Dict.empty []
  rw [hplaced, List.nil_append, Option.some.injEq, Prod.mk.injEq] at hplaced'
  obtain ⟨rfl, rfl⟩ := hplaced'
  obtain ⟨hsized, rfl⟩ := pack32_eq hsize
  obtain ⟨hsmall, rfl⟩ := pack32_eq hcount
  obtain ⟨_, _, hlayout⟩ := readLayout_iff.mp hread
  have hcounted : layout.entries.length = layout.count := (mapM_range_iff.mp hlayout.entries).1
  have hrow : ∀ e ∈ layout.entries, (e.pid < 256 ^ 4 ∧ (placed.get e.offset).getD 0 < 256 ^ 4) ∧ tableRow placed e =
      some (leBytes 4 e.pid ++ leBytes 4 ((placed.get e.offset).getD 0)) := by
    intro e he
    obtain ⟨i, hi, rfl⟩ := List.getElem_of_mem he
    have hforall := List.forall₂_iff_get.mp (mapM_eq_some_iff.mp htable)
    have hone := hforall.2 i hi (hforall.1 ▸ hi)
    simp only [List.get_eq_getElem, tableRow, Option.bind_eq_bind, Option.bind_eq_some_iff] at hone
    obtain ⟨pid, hpid, place, hplace, offset, hoffset, -⟩ := hone
    obtain ⟨hpidlt, rfl⟩ := pack32_eq hpid
    obtain ⟨hplacelt, rfl⟩ := pack32_eq hoffset
    rw [tableRow, hpid, hplace, Option.getD_some, Option.bind_eq_bind, Option.bind_some, Option.bind_eq_bind, Option.bind_some,
      hoffset]
    exact ⟨⟨hpidlt, hplacelt⟩, rfl⟩
  have hrows : table = rows layout fun k => (placed.get k).getD 0 :=
    Option.some.inj (htable.symm.trans (mapM_map_some fun e he => (hrow e he).2))
  have hlength : (leBytes 4 (8 + layout.count * 8 + (laid layout v).flatten.length) ++ leBytes 4 layout.count ++
      (rows layout fun k => (placed.get k).getD 0).flatten ++ (laid layout v).flatten).length =
      8 + layout.count * 8 + (laid layout v).flatten.length := by
    have hrowlen := startAt_const (Relaid.length_rows layout fun k => (placed.get k).getD 0) (le_refl _)
    have hall : (rows layout fun k => (placed.get k).getD 0).length = layout.count := by rw [rows, List.length_map, hcounted]
    rw [startAt_all, hall] at hrowlen
    rw [List.length_append, List.length_append, List.length_append, length_leBytes, length_leBytes, hrowlen]
  rw [hrows]
  refine ⟨?_, ?_, hsmall, fun e he => (hrow e he).1, hcounted, fun j hj => ?_⟩
  · exact (congrArg (fun n => leBytes 4 n ++ leBytes 4 layout.count ++ (rows layout fun k => (placed.get k).getD 0).flatten ++
      (laid layout v).flatten) hlength).symm
  · exact lt_of_eq_of_lt hlength hsized
  · rw [hget j hj, Option.getD_some, List.length_nil, Nat.zero_add]
    rfl

/-- Masking one section, what is written is read back as its masked properties. -/
theorem maskPropertySection_rewritten (hP : Counting P) {part : Bytes} {r : MaskedSection}
    (hpart : unpack 4 part 0 = some part.length) (hlong : 8 ≤ part.length)
    (hwell : ∀ layout, readLayout part = some layout → WellPlaced part layout ∧ Encodable L P layout.encoding)
    (h : maskPropertySection L P part = some r) : SectionRewritten L P part r := by
  simp only [maskPropertySection, Option.bind_eq_bind, Option.bind_eq_some_iff] at h
  obtain ⟨layout, hread, done, hdone, h⟩ := h
  obtain ⟨hplace, henc⟩ := hwell layout hread
  obtain ⟨masked, hmaskeddef⟩ : ∃ masked : Entry → MaskedValue,
    masked = fun e => (maskedAt L P part layout e).getD ⟨[], 0, none⟩ := ⟨_, rfl⟩
  have hmasked : ∀ e ∈ layout.entries, maskedAt L P part layout e = some (masked e) := by
    intro e he
    obtain ⟨m, hm⟩ := Option.isSome_iff_exists.mp (maskedAt_of_foldlM hdone e he)
    simp only [hmaskeddef, hm, Option.getD_some]
  obtain ⟨done', hdone', hrec⟩ := foldlM_maskEntry hmasked ⟨Dict.empty, 0, [], []⟩
  obtain rfl := Option.some.inj (hdone.symm.trans hdone')
  have htexts : done.texts = layout.entries.flatMap fun e => (masked e).text.toList := by rw [hrec.texts]; rfl
  have hkept : ∃ left, maskPropertySection L noPolicies part =
      some ⟨part, 0, layout.entries.flatMap fun e => (masked e).text.toList, left⟩ :=
    noPolicies_texts hread fun e he => by
      obtain ⟨value, hvalue, -, htext⟩ := entry_masked hP henc hmasked he
      rw [textAt, hvalue, Option.bind_some, htext]
  split at h
  · rename_i hnone
    obtain rfl := Option.some.inj h
    rw [hrec.hits, Nat.zero_add] at hnone
    have hview := unmasked_view hP henc hread hmasked hnone
    rw [← htexts] at hkept
    have hback := view_texts hP henc hmasked hview
    rw [← htexts] at hback
    exact ⟨view_masked hP henc hread hmasked hview, hpart, hlong, hkept, hback⟩
  · simp only [Option.bind_eq_some_iff, Option.pure_def, Option.some.injEq] at h
    obtain ⟨⟨placed, body⟩, hplaced, table, htable, size, hsize, count, hcount, rfl⟩ := h
    have hvalues := hrec.values hplace.distinct
    have hv : ∀ e ∈ layout.entries, (done.values.get e.offset).getD [] = (masked e).bytes := fun e he => by
      rw [hvalues e he, Option.getD_some]
    have hs : Spread layout fun k => (done.values.get k).getD [] := spread_of hP henc hread hplace hmasked hv
    have hordered : ∀ e ∈ layout.ordered, done.values.get e.offset = some ((done.values.get e.offset).getD []) := by
      intro e he
      rw [hs.ordered, (byKey_perm Entry.offset layout.entries).mem_iff] at he
      rw [hvalues e he, Option.getD_some]
    have hrelaid := relaid_of hread hordered hs hplaced htable hsize hcount
    have hnew := hrelaid.readLayout hread hs fun e he hpid => by
      obtain ⟨value, hvalue, hm, -⟩ := entry_masked hP henc hmasked he
      rw [hv e he, hm.fixed hpid.le]
      exact ⟨hvalue, hplace.codepage e he hpid value hvalue⟩
    have hview : Viewed layout masked (moved fun k => (placed.get k).getD 0) (size ++ count ++ table.flatten ++ body) _ :=
      ⟨hnew, rfl, rfl, fun _ _ => rfl, fun e he => (hrelaid.value hs he).trans (congrArg some (hv e he))⟩
    have hback := view_texts hP henc hmasked hview
    rw [← htexts] at hkept hback
    refine ⟨view_masked hP henc hread hmasked hview, hrelaid.size, ?_, hkept, hback⟩
    have hfront := congrArg List.length hrelaid.bytes
    simp only [List.length_append, length_leBytes] at hfront ⊢
    omega

end XgenSdk.PropertySetMasked
