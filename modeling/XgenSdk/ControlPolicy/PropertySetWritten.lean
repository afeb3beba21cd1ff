import XgenSdk.ControlPolicy.PropertySetMasked
import XgenSdk.ControlPolicy.RulePolicies
import XgenSdk.ControlPolicy.HtmlStable

/-! Masking a property set: its sections and their texts are read back from what
is written. -/
namespace XgenSdk.PropertySetWritten
open XgenSdk.Py.Utf16 XgenSdk.Py.Struct XgenSdk.Splice XgenSdk.Rules XgenSdk.Spans XgenSdk.PlainText XgenSdk.RulePolicies
  XgenSdk.PropertySet XgenSdk.Checks XgenSdk.Pieces XgenSdk.PropertySetSection XgenSdk.PropertySetRelaid
  XgenSdk.PropertySetMasked

variable {L : Library} {P : Policies}

/-! The sections of a set. -/

theorem sectionAt_some {data : Bytes} {i : Nat} {part : Nat × Bytes} (h : sectionAt data i = some part) :
    unpack 4 part.2 0 = some part.2.length ∧ 8 ≤ part.2.length := by
  simp only [sectionAt, Option.bind_eq_bind, Option.bind_eq_some_iff, Option.ite_none_left_eq_some] at h
  obtain ⟨offset, -, size, hsize, hfits, h⟩ := h
  obtain rfl := Option.some.inj h
  rw [not_or, Nat.not_lt, Nat.not_lt] at hfits
  have hlength : (slice data offset (offset + size)).length = size := by rw [length_slice data hfits.1, Nat.add_sub_cancel_left]
  have hread : unpack 4 data (offset + 0) = unpack 4 (slice data offset (offset + size)) 0 :=
    unpack_slice (by decide) (by omega)
  rw [Nat.add_zero, hsize] at hread
  exact ⟨by rw [← hread, hlength], by rw [hlength]; exact hfits.2⟩

/-- What a set that is accepted begins with. -/
structure SetOf (data : Bytes) (parts : List (Nat × Bytes)) : Prop where
  long : 48 ≤ data.length
  mark : unpack 2 data 0 = some 0xFFFE
  count : unpack 4 data 24 = some parts.length
  number : 1 ≤ parts.length ∧ parts.length ≤ 16
  room : 28 + parts.length * 20 ≤ data.length
  at_ : ∀ i (hi : i < parts.length), sectionAt data i = some parts[i]

theorem propertySections_iff {data : Bytes} {parts : List (Nat × Bytes)} :
    propertySections data = some parts ↔ SetOf data parts := by
  constructor
  · intro h
    unfold propertySections at h
    split at h
    · cases h
    · rename_i hhead
      rw [not_or, Nat.not_lt, not_not] at hhead
      rw [Option.bind_eq_bind, Option.bind_eq_some_iff] at h
      obtain ⟨count, hcount, h⟩ := h
      split at h
      · cases h
      · rename_i hroom
        rw [not_or, Nat.not_lt, not_not] at hroom
        obtain ⟨hlength, hat⟩ := mapM_range_iff.mp h
        rw [← hlength] at hcount hroom
        exact ⟨hhead.1, hhead.2, hcount, hroom.1, hroom.2, hat⟩
  · intro h
    unfold propertySections
    rw [if_neg (by rw [not_or, Nat.not_lt, not_not]; exact ⟨h.long, h.mark⟩), h.count, Option.bind_eq_bind, Option.bind_some,
      if_neg (by rw [not_or, Nat.not_lt, not_not]; exact ⟨h.number, h.room⟩)]
    exact mapM_range_iff.mpr ⟨rfl, h.at_⟩

/-! Writing the offsets of the sections. -/

theorem unpack_overwrite_before {n p at_ : Nat} {bytes old : Bytes} (hp : p + n ≤ at_) (h : at_ + bytes.length ≤ old.length) :
    unpack n (overwrite at_ bytes old) p = unpack n old p := by
  have hlength := length_overwrite h
  refine unpack_congr ?_ (by omega) (by omega)
  have hsame : (overwrite at_ bytes old).take (p + n) = old.take (p + n) := overwrite_before hp (Nat.le_of_add_right_le h)
  rw [← Nat.add_sub_cancel_left (n := p) (m := n), ← List.drop_take, ← List.drop_take, hsame]

/-- The head with the offsets from a section on. -/
structure Headed (i cursor : Nat) (parts : List Bytes) (old new : Bytes) : Prop where
  length : new.length = old.length
  before : ∀ n p, p + n ≤ 44 + i * 20 → unpack n new p = unpack n old p
  offset : ∀ k < parts.length, unpack 4 new (44 + (i + k) * 20) = some (cursor + startAt parts k)

theorem placeSections_headed {i cursor : Nat} {parts : List Bytes} {head new : Bytes}
    (hroom : 28 + (i + parts.length) * 20 ≤ head.length) (h : placeSections i cursor parts head = some new) :
    Headed i cursor parts head new := by
  induction parts generalizing i cursor head with
  | nil =>
    obtain rfl := Option.some.inj h
    exact ⟨rfl, fun _ _ _ => rfl, fun _ hk => nomatch hk⟩
  | cons part rest ih =>
    rw [placeSections, Option.bind_eq_bind, Option.bind_eq_some_iff] at h
    obtain ⟨offset, hoffset, h⟩ := h
    obtain ⟨hsmall, rfl⟩ := pack32_eq hoffset
    rw [List.length_cons] at hroom
    have hfits : 44 + i * 20 + (leBytes 4 cursor).length ≤ head.length := by rw [length_leBytes]; omega
    have hlength := length_overwrite hfits
    have hrest := ih (by omega) h
    refine ⟨hrest.length.trans hlength, fun n p hp => ?_, fun k hk => ?_⟩
    · rw [hrest.before n p (by omega), unpack_overwrite_before hp hfits]
    · cases k with
      | zero =>
        have hread : ((overwrite (44 + i * 20) (leBytes 4 cursor) head).drop (44 + i * 20)).take (leBytes 4 cursor).length =
            leBytes 4 cursor := overwrite_read (Nat.le_of_add_right_le hfits)
        rw [length_leBytes] at hread hfits
        rw [Nat.add_zero, hrest.before 4 _ (by omega), unpack, if_pos (by omega), hread, leNat_leBytes hsmall]
        rfl
      | succ k =>
        have hnext := hrest.offset k (Nat.lt_of_succ_lt_succ hk)
        rw [show i + (k + 1) = i + 1 + k by omega, hnext]
        simp only [startAt, List.take_succ_cons, List.flatten_cons, List.length_append, Nat.add_assoc]

/-! The whole set. -/

/-- A set of sections one after another behind its head is accepted. -/
theorem setOf_written {data head : Bytes} {parts : List (Nat × Bytes)} {sections : List Bytes} (hset : SetOf data parts)
    (hlength : sections.length = parts.length) (hhead : Headed 0 (28 + parts.length * 20) sections
      (data.take (28 + parts.length * 20)) head)
    (hsize : ∀ part ∈ sections, unpack 4 part 0 = some part.length ∧ 8 ≤ part.length) :
    ∃ parts', SetOf (head ++ sections.flatten) parts' ∧ parts'.map Prod.snd = sections := by
  have hroom := hset.room
  have hnumber := hset.number
  have hlong : head.length = 28 + parts.length * 20 := by rw [hhead.length, List.length_take, Nat.min_eq_left hroom]
  have hfirst : ∀ n p, 0 < n → p + n ≤ 44 → unpack n (head ++ sections.flatten) p = unpack n data p := by
    intro n p hn hp
    have htaken : unpack n (data.take (28 + parts.length * 20) ++ data.drop (28 + parts.length * 20)) p =
        unpack n (data.take (28 + parts.length * 20)) p := unpack_append_left (by rw [List.length_take]; omega) _
    rw [List.take_append_drop] at htaken
    rw [unpack_append_left (by omega), hhead.before n p (by omega), htaken]
  have hat : ∀ i (hi : i < sections.length), sectionAt (head ++ sections.flatten) i =
      some (head.length + startAt sections i, sections[i]) := by
    intro i hi
    obtain ⟨hsmall, height⟩ := hsize _ (List.getElem_mem hi)
    have hoffset := hhead.offset i hi
    rw [Nat.zero_add, ← hlong] at hoffset
    have hread : unpack 4 (head ++ sections.flatten ++ []) (head.length + startAt sections i + 0) = unpack 4 sections[i] 0 :=
      unpack_startAt (by decide) hi (by omega)
    rw [List.append_nil, Nat.add_zero, hsmall] at hread
    have hend : startAt sections (i + 1) ≤ startAt sections sections.length := startAt_mono sections hi
    have hnext := startAt_succ sections hi
    rw [startAt_all] at hend
    have hslice := slice_startAt head sections hi
    rw [hnext, ← Nat.add_assoc] at hslice
    rw [sectionAt, unpack_append_left (by omega), hoffset, Option.bind_eq_bind, Option.bind_some, hread, Option.bind_some, if_neg (by rw [List.length_append]; omega), hslice]
  refine ⟨sections.mapIdx fun i part => (head.length + startAt sections i, part), ⟨?_, ?_, ?_, ?_, ?_, ?_⟩, ?_⟩
  · rw [List.length_append]
    omega
  · rw [hfirst 2 0 (by decide) (by decide), hset.mark]
  · rw [hfirst 4 24 (by decide) (by decide), hset.count, List.length_mapIdx, hlength]
  · rwa [List.length_mapIdx, hlength]
  · rw [List.length_mapIdx, hlength, List.length_append]
    omega
  · intro i hi
    rw [List.length_mapIdx] at hi
    rw [hat i hi, List.getElem_mapIdx]
  · refine List.ext_getElem (by rw [List.length_map, List.length_mapIdx]) fun i _ _ => ?_
    rw [List.getElem_map, List.getElem_mapIdx]

/-- The texts of a set are those of its sections. -/
theorem propertyTexts_of {data : Bytes} {parts : List (Nat × Bytes)} {texts : List (List Str)}
    (hparts : propertySections data = some parts) (h : List.Forall₂ (fun part t =>
      ∃ left, maskPropertySection L noPolicies part = some ⟨part, 0, t, left⟩) (parts.map Prod.snd) texts) :
    propertyTexts L data = texts.flatten := by
  rw [List.forall₂_map_left_iff] at h
  have hsections : ∃ sections, parts.mapM (fun part => maskPropertySection L noPolicies part.2) = some sections ∧
      sections.flatMap MaskedSection.texts = texts.flatten := by
    clear hparts
    induction h with
    | nil => exact ⟨[], rfl, rfl⟩
    | @cons part t parts texts hpart _ ih =>
      obtain ⟨left, hleft⟩ := hpart
      obtain ⟨sections, hsections, htexts⟩ := ih
      refine ⟨⟨part.2, 0, t, left⟩ :: sections, ?_, by rw [List.flatMap_cons, htexts, List.flatten_cons]⟩
      rw [List.mapM_cons, hleft, Option.bind_eq_bind, Option.bind_some, hsections]
      rfl
  obtain ⟨sections, hsections, htexts⟩ := hsections
  rw [propertyTexts, hparts, Option.bind_eq_bind, Option.bind_some, hsections]
  exact htexts

/-- What is left of a set that is masked. -/
structure SetMasked (L : Library) (P : Policies) (data out : Bytes) : Prop where
  sections : ∃ parts parts', propertySections data = some parts ∧ propertySections out = some parts' ∧
    List.Forall₂ (SectionMasked L P) (parts.map Prod.snd) (parts'.map Prod.snd)
  texts : propertyTexts L out = (propertyTexts L data).map (maskedText P)

theorem maskPropertySet_masked (hP : Counting P) {data : Bytes} {out : MaskedSet}
    (hwell : ∀ parts, propertySections data = some parts → ∀ part ∈ parts, ∀ layout, readLayout part.2 = some layout →
      WellPlaced part.2 layout ∧ Encodable L P layout.encoding)
    (h : maskPropertySet L P data = some out) (hhits : out.hits ≠ 0) : SetMasked L P data out.bytes := by
  simp only [maskPropertySet, Option.bind_eq_bind, Option.bind_eq_some_iff] at h
  obtain ⟨parts, hparts, sections, hsections, h⟩ := h
  have hset := propertySections_iff.mp hparts
  have hrewritten : List.Forall₂ (fun part r => SectionRewritten L P part.2 r) parts sections := by
    have hmasked := mapM_eq_some_iff.mp hsections
    rw [List.forall₂_iff_get] at hmasked ⊢
    refine ⟨hmasked.1, fun i hi hj => ?_⟩
    obtain ⟨hsize, hlong⟩ := sectionAt_some (hset.at_ i hi)
    exact maskPropertySection_rewritten hP hsize hlong (hwell parts hparts _ (List.getElem_mem hi)) (hmasked.2 i hi hj)
  split at h
  · obtain rfl := Option.some.inj h
    exact absurd rfl hhits
  · simp only [Option.bind_eq_some_iff, Option.pure_def, Option.some.injEq] at h
    obtain ⟨head, hhead, rfl⟩ := h
    have hlength : (sections.map MaskedSection.bytes).length = parts.length := by
      rw [List.length_map, hrewritten.length_eq]
    have hroom : (data.take (28 + parts.length * 20)).length = 28 + parts.length * 20 := by
      rw [List.length_take, Nat.min_eq_left hset.room]
    rw [hroom] at hhead
    have hheaded := placeSections_headed (by rw [hlength, hroom, Nat.zero_add]) hhead
    obtain ⟨parts', hset', hsame⟩ := setOf_written hset hlength hheaded (by
      intro part hpart
      obtain ⟨r, hr, rfl⟩ := List.mem_map.mp hpart
      obtain ⟨i, hi, rfl⟩ := List.getElem_of_mem hr
      have hone := (List.forall₂_iff_get.mp hrewritten).2 i (hrewritten.length_eq ▸ hi) hi
      exact ⟨hone.size, hone.long⟩)
    have hparts' := propertySections_iff.mpr hset'
    refine ⟨⟨parts, parts', hparts, hparts', ?_⟩, ?_⟩
    · rw [hsame, List.forall₂_map_left_iff, List.forall₂_map_right_iff]
      exact hrewritten.imp fun _ _ hr => hr.masked
    · have hbefore : propertyTexts L data = (sections.map MaskedSection.texts).flatten := propertyTexts_of hparts
        (List.forall₂_map_left_iff.mpr (List.forall₂_map_right_iff.mpr (hrewritten.imp fun _ _ hr => hr.read)))
      have hafter : propertyTexts L (head ++ (sections.map MaskedSection.bytes).flatten) =
          (sections.map fun r => r.texts.map (maskedText P)).flatten := by
        refine propertyTexts_of hparts' ?_
        rw [hsame, List.forall₂_map_left_iff, List.forall₂_map_right_iff, List.forall₂_same]
        intro r hr
        obtain ⟨i, hi, rfl⟩ := List.getElem_of_mem hr
        exact ((List.forall₂_iff_get.mp hrewritten).2 i (hrewritten.length_eq ▸ hi) hi).back
      rw [hbefore, hafter, List.map_flatten, List.map_map]
      rfl

/-! Compiled rules. -/

/-- A code page that has the characters of every mask. -/
structure MasksEncodable (L : Library) (rules : List MaskingRule) (encoding : String) : Prop where
  wide : ∀ codec, L.codec "utf-16-le" = some codec → Wide codec
  narrow : ∀ codec, L.codec encoding = some codec → ∃ has, Repertoire codec has ∧
    ∀ rule ∈ rules, ∀ text, (∀ c ∈ text, has (ofChar c)) → ∀ m ∈ rule.finditer text, ∀ c ∈ m.replacement, has (ofChar c)

theorem MasksEncodable.encodable {rules : List MaskingRule} {encoding : String} (h : MasksEncodable L rules encoding) :
    Encodable L (rulePolicies rules) encoding := by
  refine ⟨h.wide, fun codec hcodec => ?_⟩
  obtain ⟨has, hhas, hrules⟩ := h.narrow codec hcodec
  exact ⟨has, hhas, fun text htext => mem_maskText htext hrules⟩

/-- What is written where something is masked is read back as the masked set. -/
theorem property_set_masked (L : Library) (rules : List MaskingRule) (data : Bytes) (out : MaskedSet)
    (hwell : ∀ parts, propertySections data = some parts → ∀ part ∈ parts, ∀ layout, readLayout part.2 = some layout →
      WellPlaced part.2 layout ∧ MasksEncodable L rules layout.encoding)
    (h : maskPropertySet L (rulePolicies rules) data = some out) (hhits : out.hits ≠ 0) :
    SetMasked L (rulePolicies rules) data out.bytes :=
  maskPropertySet_masked (fun _ hchanged => rulePolicies_counted hchanged)
    (fun parts hparts part hpart layout hlayout =>
      ⟨(hwell parts hparts part hpart layout hlayout).1, (hwell parts hparts part hpart layout hlayout).2.encodable⟩) h hhits

/-! A library of UTF-16 and of what the code pages have in common. -/

def strictUtf16 : Codec where
  decode raw :=
    let text := decode (wordsOf raw)
    if raw.length % 2 = 0 ∧ plain text = true then some text else none
  encode text := if plain text then some (encoded text) else none
  decodeEscape raw := decode (wordsOf raw)
  encodeEscape text := some (encoded text)
  encodeReplace text := encoded (text.map fun c => if isSurrogate c then 0x3F else c)

def commonPage : Codec where
  decode raw := if raw.all fun b => b < 0x80 then some (raw.map asciiPoint) else none
  encode text := if text.all fun c => c.val < 0x80 then some (text.map fun c => UInt8.ofNat c.val) else none
  decodeEscape raw := raw.map loosePoint
  encodeEscape text := some (text.map fun c => UInt8.ofNat c.val)
  encodeReplace text := text.map fun c => if c.val < 0x80 then UInt8.ofNat c.val else 0x3F

def commonLibrary : Library where
  codec name := some (if name = "utf-16-le" then strictUtf16 else commonPage)
  utf8 := commonPage
  known := rfl
  detect _ := none

theorem strictUtf16_wide : Wide strictUtf16 := by
  refine ⟨fun text body h => ?_, fun text body h => ?_⟩
  · obtain ⟨-, h⟩ := Option.ite_none_right_eq_some.mp h
    obtain rfl := Option.some.inj h
    rw [encoded, length_bytesOf]
    exact Nat.mul_mod_right 2 _
  · obtain ⟨hplain, h⟩ := Option.ite_none_right_eq_some.mp h
    obtain rfl := Option.some.inj h
    have hback : decode (wordsOf (encoded text)) = text := by
      rw [encoded, wordsOf_bytesOf]
      refine decode_encode fun c hc => ?_
      have hone := plain_iff.mp hplain c hc
      simp only [isSurrogate, Bool.and_eq_false_iff, decide_eq_false_iff_not] at hone
      unfold IsScalar
      omega
    have heven : (encoded text).length % 2 = 0 := by
      rw [encoded, length_bytesOf]
      exact Nat.mul_mod_right 2 _
    change (if (encoded text).length % 2 = 0 ∧ plain (decode (wordsOf (encoded text))) = true then
      some (decode (wordsOf (encoded text))) else none) = some text
    rw [hback, if_pos ⟨heven, hplain⟩]

theorem commonPage_repertoire : Repertoire commonPage fun c => c.val < 0x80 := by
  have hpoint : ∀ b : UInt8, b < 0x80 → (asciiPoint b).val = b.toNat ∧ b.toNat < 0x80 := by
    intro b hb
    have hlt : b.toNat < 0x80 := hb
    refine ⟨?_, hlt⟩
    change b.toNat % 0x110000 = b.toNat
    omega
  refine ⟨fun raw text h c hc => ?_, by decide, fun text htext => ?_⟩
  · obtain ⟨hall, h⟩ := Option.ite_none_right_eq_some.mp h
    obtain rfl := Option.some.inj h
    obtain ⟨b, hb, rfl⟩ := List.mem_map.mp hc
    obtain ⟨hval, hlt⟩ := hpoint b (by simpa using List.all_eq_true.mp hall b hb)
    rw [hval]
    exact hlt
  · have hbytes : commonPage.encodeReplace text = text.map fun c => UInt8.ofNat c.val :=
      List.map_congr_left fun c hc => if_pos (htext c hc)
    have hbyte : ∀ c ∈ text, (UInt8.ofNat c.val).toNat = c.val := fun c hc => by
      have := htext c hc
      exact UInt8.toNat_ofNat_of_lt' (by change _ < 256; omega)
    have hall : (text.map fun c => UInt8.ofNat c.val).all (fun b => b < 0x80) = true := by
      rw [List.all_eq_true]
      intro b hb
      obtain ⟨c, hc, rfl⟩ := List.mem_map.mp hb
      have hlt : (UInt8.ofNat c.val).toNat < 0x80 := by
        rw [hbyte c hc]
        exact htext c hc
      exact decide_eq_true hlt
    have hback : (text.map fun c => UInt8.ofNat c.val).map asciiPoint = text := by
      rw [List.map_map]
      refine (List.map_congr_left fun c hc => ?_).trans (List.map_id _)
      refine Fin.ext ?_
      have hc' := htext c hc
      change (UInt8.ofNat c.val).toNat % 0x110000 = c.val
      rw [hbyte c hc]
      omega
    rw [hbytes]
    exact (if_pos hall).trans (congrArg some hback)

/-! Sets of one section. -/

def oneSection (part : Bytes) : Bytes :=
  [0xFE, 0xFF] ++ List.replicate 22 0 ++ leBytes 4 1 ++ List.replicate 16 0 ++ leBytes 4 48 ++ part

/-- A code page, a text, a number, and a wide text that stands before them. -/
def mixedSection : Bytes :=
  leBytes 4 84 ++ leBytes 4 4 ++ (leBytes 4 1 ++ leBytes 4 56) ++ (leBytes 4 2 ++ leBytes 4 64) ++ (leBytes 4 3 ++ leBytes 4 76) ++
    (leBytes 4 4 ++ leBytes 4 40) ++ (leBytes 4 0x1F ++ leBytes 4 3 ++ [0x35, 0, 0x61, 0, 0, 0, 0, 0]) ++ (leBytes 4 2 ++ leBytes 4 1252) ++
    (leBytes 4 0x1E ++ leBytes 4 3 ++ [0x61, 0x35, 0, 0]) ++ (leBytes 4 3 ++ leBytes 4 7)

/-- A policy on the digit five. -/
def fiveWith (mask : Text) : MaskingRule where
  policyId := some 1
  policyName := "five"
  policyType := "pii"
  finditer := HtmlStable.occurrences '5' mask 0
  ordered := fun text => by simpa using HtmlStable.occurrences_inOrder '5' mask 0 text

theorem mem_occurrences {c : Char} {mask text : Text} {i : Nat} {m : Match} (h : m ∈ HtmlStable.occurrences c mask i text) :
    m.replacement = mask := by
  induction text generalizing i with
  | nil => cases h
  | cons d text ih =>
    rw [HtmlStable.occurrences] at h
    split at h
    · rcases List.mem_cons.mp h with rfl | h
      · rw [Match.replacement, if_neg (Nat.succ_ne_self i)]
      · exact ih h
    · exact ih h

theorem commonLibrary_encodable {mask : Text} (hmask : ∀ c ∈ mask, (ofChar c).val < 0x80) :
    MasksEncodable commonLibrary [fiveWith mask] "cp1252" := by
  refine ⟨fun codec hcodec => ?_, fun codec hcodec => ⟨fun c => c.val < 0x80, ?_, fun rule hrule text _ m hm c hc => ?_⟩⟩
  · obtain rfl := Option.some.inj hcodec
    exact strictUtf16_wide
  · have hname : commonLibrary.codec "cp1252" = some commonPage := rfl
    obtain rfl := Option.some.inj (hname.symm.trans hcodec)
    exact commonPage_repertoire
  · obtain rfl := List.mem_singleton.mp hrule
    rw [mem_occurrences hm] at hc
    exact hmask c hc

theorem property_set_masked_mixed : ∃ out,
    maskPropertySet commonLibrary (rulePolicies [fiveWith ['*', '*', '*']]) (oneSection mixedSection) = some out ∧ out.hits = 2 ∧
      SetMasked commonLibrary (rulePolicies [fiveWith ['*', '*', '*']]) (oneSection mixedSection) out.bytes := by
  have hhits : (maskPropertySet commonLibrary (rulePolicies [fiveWith ['*', '*', '*']]) (oneSection mixedSection)).map
      MaskedSet.hits = some 2 := by decide +kernel
  obtain ⟨out, hout, htwo⟩ := Option.map_eq_some_iff.mp hhits
  refine ⟨out, hout, htwo, property_set_masked commonLibrary _ _ out (fun parts hparts part hpart layout hlayout => ?_) hout
    (by rw [htwo]; decide)⟩
  have hone : propertySections (oneSection mixedSection) = some [(48, mixedSection)] := by decide +kernel
  obtain rfl := Option.some.inj (hone.symm.trans hparts)
  obtain rfl := List.mem_singleton.mp hpart
  have hentries : (readLayout mixedSection).map Layout.entries = some [⟨1, 56⟩, ⟨2, 64⟩, ⟨3, 76⟩, ⟨4, 40⟩] := by decide
  have hencoding : (readLayout mixedSection).map Layout.encoding = some "cp1252" := by decide
  have hpage : ((readLayout mixedSection).bind fun l => valueAt mixedSection l.bounds 56) = some (leBytes 4 2 ++ leBytes 4 1252) := by
    decide
  rw [hlayout] at hentries hencoding hpage
  have hentries : layout.entries = [⟨1, 56⟩, ⟨2, 64⟩, ⟨3, 76⟩, ⟨4, 40⟩] := Option.some.inj hentries
  have hencoding : layout.encoding = "cp1252" := Option.some.inj hencoding
  have hpage : valueAt mixedSection layout.bounds 56 = some (leBytes 4 2 ++ leBytes 4 1252) := hpage
  refine ⟨⟨?_, ?_, ?_⟩, ?_⟩
  · rw [hentries]
    decide
  · rw [hentries]
    decide
  · rw [hentries]
    intro e he hpid value hvalue
    have hfirst : e = ⟨1, 56⟩ := by
      simp only [List.mem_cons, List.not_mem_nil, or_false] at he
      rcases he with rfl | rfl | rfl | rfl
      · rfl
      all_goals cases hpid
    rw [hfirst, hpage] at hvalue
    obtain rfl := Option.some.inj hvalue
    exact ⟨by decide, fun _ => by decide⟩
  · rw [hencoding]
    refine commonLibrary_encodable fun c hc => ?_
    simp only [List.mem_cons, List.not_mem_nil, or_false, or_self] at hc
    subst hc
    decide

/-! A text that ends in a NUL once its last character is masked by nothing. -/

/-- The text "a", NUL, "5" and nothing else. -/
def innerNul : Bytes :=
  leBytes 4 28 ++ leBytes 4 1 ++ (leBytes 4 2 ++ leBytes 4 16) ++ (leBytes 4 0x1E ++ leBytes 4 4 ++ [0x61, 0, 0x35, 0])

theorem trailing_nul_lost : ∃ out,
    propertySections (oneSection innerNul) = some [(48, innerNul)] ∧
    (readLayout innerNul).map (fun layout => (layout.entries, layout.encoding)) = some ([⟨2, 16⟩], "cp1252") ∧
    MasksEncodable commonLibrary [fiveWith []] "cp1252" ∧
    (∀ text, ∀ m ∈ (fiveWith []).finditer text, m.replacement = []) ∧
    maskPropertySet commonLibrary (rulePolicies [fiveWith []]) (oneSection innerNul) = some out ∧ out.hits = 1 ∧
    propertyTexts commonLibrary out.bytes ≠
      (propertyTexts commonLibrary (oneSection innerNul)).map fun text => ((rulePolicies [fiveWith []]).maskText text).1 := by
  have hmasked : (maskPropertySet commonLibrary (rulePolicies [fiveWith []]) (oneSection innerNul)).map
      (fun out => (out.hits, propertyTexts commonLibrary out.bytes)) = some (1, [[0x61]]) := by decide
  have htexts : (propertyTexts commonLibrary (oneSection innerNul)).map
      (fun text => ((rulePolicies [fiveWith []]).maskText text).1) = [[0x61, 0]] := by decide
  obtain ⟨out, hout, hread⟩ := Option.map_eq_some_iff.mp hmasked
  obtain ⟨hhits, hread⟩ := Prod.mk.inj hread
  refine ⟨out, by decide, by decide, commonLibrary_encodable fun c hc => (nomatch hc),
    fun text m hm => mem_occurrences hm, hout, hhits, ?_⟩
  rw [hread, htexts]
  decide

end XgenSdk.PropertySetWritten
