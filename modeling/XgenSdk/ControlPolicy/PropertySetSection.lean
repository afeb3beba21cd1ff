import XgenSdk.ControlPolicy.PropertySet
import XgenSdk.Lib.Checks
import XgenSdk.Lib.Pieces

/-! Masking one section of a property set: the values that are rewritten, and
the section laid out anew around them. -/
namespace XgenSdk.PropertySetSection
open XgenSdk.Py.Utf16 XgenSdk.Py.Struct XgenSdk.Splice XgenSdk.Sorting XgenSdk.PlainText XgenSdk.PropertySet XgenSdk.Checks
  XgenSdk.Pieces

/-- A property of a section: its id, and the bytes up to the next. -/
structure Property where
  pid : Nat
  value : Bytes
  deriving DecidableEq, Repr

/-- The characters of a code page, and what is relied on for it: what it reads are its own characters, and a text of
them that is written is read back. -/
structure Repertoire (codec : Codec) (has : CodePoint → Prop) : Prop where
  read : ∀ raw text, codec.decode raw = some text → ∀ c ∈ text, has c
  nul : has 0
  back : ∀ text, (∀ c ∈ text, has c) → codec.decode (codec.encodeReplace text) = some text

/-- What is relied on for UTF-16: what it writes are whole units, and is read back. -/
structure Wide (codec : Codec) : Prop where
  even : ∀ text body, codec.encode text = some body → body.length % 2 = 0
  back : ∀ text body, codec.encode text = some body → codec.decode body = some text

variable (L : Library) (P : Policies)

/-- A code page that has the characters of every masked text. -/
structure Encodable (encoding : String) : Prop where
  wide : ∀ codec, L.codec "utf-16-le" = some codec → Wide codec
  narrow : ∀ codec, L.codec encoding = some codec → ∃ has, Repertoire codec has ∧
    ∀ text, (∀ c ∈ text, has c) → ∀ c ∈ (P.maskText text).1, has c

/-- A text changes only where something is detected. -/
def Counting : Prop := ∀ text, (P.maskText text).1 ≠ text → (P.maskText text).2 ≠ 0

/-- What masking makes of a text, as it is read back. -/
def maskedText (text : Str) : Str := rstripNul (P.maskText text).1

/-- What masking makes of a property. -/
structure PropertyMasked (encoding : String) (before after : Property) : Prop where
  pid : after.pid = before.pid
  kept : isText before.pid before.value = false → after.value = before.value
  text : isText before.pid before.value = true → isText after.pid after.value = true ∧
    kindOf after.value = kindOf before.value ∧
    ∃ text, readText L encoding before.value = some text ∧ readText L encoding after.value = some (maskedText P text)

variable {L P}

/-! One value. -/

theorem rstripNul_append (text : Str) : rstripNul (text ++ [0]) = rstripNul text :=
  List.rdropWhile_concat_pos _ _ _ (by simp)

theorem rstripNul_again (text : Str) : rstripNul (rstripNul text) = rstripNul text := List.rdropWhile_idempotent _ _

theorem readText_stripped {encoding : String} {value : Bytes} {text : Str} (h : readText L encoding value = some text) :
    rstripNul text = text := by
  simp only [readText, Option.bind_eq_bind, Option.bind_eq_some_iff, Option.pure_def, Option.some.injEq] at h
  obtain ⟨_, -, _, -, read, -, rfl⟩ := h
  exact rstripNul_again read

theorem length_padded (value : Bytes) : value.length ≤ (padded value).length := by
  rw [padded, List.length_append]
  exact Nat.le_add_right _ _

theorem kindOf_append {kind : Nat} (hkind : kind < 256 ^ 4) (rest : Bytes) : kindOf (leBytes 4 kind ++ rest) = kind := by
  rw [kindOf, if_pos (by simp), leNat_take_append hkind]

/-- The bytes that are counted are the body, wherever zero bytes follow. -/
theorem slice_body (kind length : Nat) (body rest : Bytes) :
    slice (leBytes 4 kind ++ leBytes 4 length ++ body ++ rest) 8 (8 + body.length) = body := by
  have h := slice_startAt (leBytes 4 kind ++ leBytes 4 length) [body, rest] (i := 0) (by simp)
  simpa [startAt] using h

theorem encodeText_back {codec : Codec} {kind : Nat} {text : Str} {body : Bytes} (hwide : kind = wide → Wide codec)
    (hnarrow : kind ≠ wide → codec.decode (codec.encodeReplace text) = some text) (h : encodeText codec kind text = some body) :
    codec.decode body = some text ∧ body.length / unitSize kind * unitSize kind = body.length := by
  unfold encodeText at h
  unfold unitSize
  by_cases hw : kind = wide
  · rw [if_pos hw] at h ⊢
    have heven := (hwide hw).even _ _ h
    exact ⟨(hwide hw).back _ _ h, by omega⟩
  · rw [if_neg hw] at h ⊢
    obtain rfl := Option.some.inj h
    exact ⟨hnarrow hw, by omega⟩

/-- A text that is written is read back without the zeros at its end. -/
theorem readText_writeText {encoding : String} {kind : Nat} {text : Str} {written : Bytes} (hkind : kind < 256 ^ 4)
    (hwide : ∀ codec, L.codec "utf-16-le" = some codec → Wide codec)
    (hnarrow : kind ≠ wide → ∀ codec, L.codec encoding = some codec →
      codec.decode (codec.encodeReplace (text ++ [0])) = some (text ++ [0]))
    (h : writeText L encoding kind text = some written) :
    readText L encoding written = some (rstripNul text) ∧ kindOf written = kind ∧ 8 ≤ written.length := by
  simp only [writeText, Option.bind_eq_bind, Option.bind_eq_some_iff, Option.pure_def, Option.some.injEq] at h
  obtain ⟨codec, hcodec, body, hbody, length, hlength, rfl⟩ := h
  obtain ⟨hsmall, rfl⟩ := pack32_eq hlength
  have hback := encodeText_back
    (fun hw => hwide codec (by rw [← hcodec, textEncoding, if_pos hw]))
    (fun hw => hnarrow hw codec (by rw [← hcodec, textEncoding, if_neg hw])) hbody
  obtain ⟨rest, hpadded⟩ : ∃ rest, padded (leBytes 4 kind ++ leBytes 4 (body.length / unitSize kind) ++ body) =
      leBytes 4 kind ++ leBytes 4 (body.length / unitSize kind) ++ body ++ rest := ⟨_, rfl⟩
  have hslice := slice_body kind (body.length / unitSize kind) body rest
  rw [← hpadded] at hslice
  simp only [List.append_assoc] at hpadded
  have hk : kindOf (padded (leBytes 4 kind ++ leBytes 4 (body.length / unitSize kind) ++ body)) = kind := by
    rw [List.append_assoc, hpadded]
    exact kindOf_append hkind _
  have hcount : unpack 4 (padded (leBytes 4 kind ++ leBytes 4 (body.length / unitSize kind) ++ body)) 4 =
      some (body.length / unitSize kind) := by
    have hright := unpack_append_right 4 (leBytes 4 kind) (leBytes 4 (body.length / unitSize kind) ++ (body ++ rest)) 0
    rw [unpack_leBytes hsmall, length_leBytes] at hright
    rw [List.append_assoc, hpadded]
    exact hright
  refine ⟨?_, hk, ?_⟩
  · rw [readText, hk, hcount, Option.bind_eq_bind, Option.bind_some, hcodec, Option.bind_eq_bind, Option.bind_some, hback.2,
      hslice, hback.1, Option.bind_eq_bind, Option.bind_some, rstripNul_append]
    rfl
  · have hle := length_padded (leBytes 4 kind ++ leBytes 4 (body.length / unitSize kind) ++ body)
    simp only [List.length_append, length_leBytes] at hle
    omega

theorem kindOf_text {pid : Nat} {value : Bytes} (h : isText pid value = true) :
    1 < pid ∧ (kindOf value = narrow ∨ kindOf value = wide) ∧ 8 ≤ value.length := by
  simpa [isText, Bool.and_eq_true, Bool.or_eq_true, and_assoc] using h

theorem isText_of {pid : Nat} {before after : Bytes} (h : isText pid before = true) (hkind : kindOf after = kindOf before)
    (hlength : 8 ≤ after.length) : isText pid after = true := by
  obtain ⟨hpid, hkinds, -⟩ := kindOf_text h
  simp [isText, hpid, hkind, hkinds, hlength]

/-- A masked text has a place in the code page that its text was read with. -/
theorem masked_encodable {encoding : String} (henc : Encodable L P encoding) {value : Bytes} (hno : kindOf value ≠ wide)
    {text : Str} (hread : readText L encoding value = some text) {codec : Codec} (hcodec : L.codec encoding = some codec) :
    codec.decode (codec.encodeReplace ((P.maskText text).1 ++ [0])) = some ((P.maskText text).1 ++ [0]) := by
  obtain ⟨has, hhas, hmasks⟩ := henc.narrow codec hcodec
  simp only [readText, textEncoding, if_neg hno, hcodec, Option.bind_eq_bind, Option.bind_some, Option.bind_eq_some_iff,
    Option.pure_def, Option.some.injEq] at hread
  obtain ⟨_, -, read, hdecode, rfl⟩ := hread
  have hread : ∀ c ∈ rstripNul read, has c := fun c hc =>
    hhas.read _ _ hdecode c ((List.rdropWhile_prefix _ _).subset hc)
  refine hhas.back _ fun c hc => ?_
  rcases List.mem_append.mp hc with hc | hc
  · exact hmasks _ hread c hc
  · rw [List.mem_singleton.mp hc]
    exact hhas.nul

/-- What masking makes of a value. -/
structure ValueMasked (L : Library) (P : Policies) (encoding : String) (pid : Nat) (value : Bytes) (m : MaskedValue) : Prop where
  property : PropertyMasked L P encoding ⟨pid, value⟩ ⟨pid, m.bytes⟩
  empty : m.bytes = [] → value = []
  unmasked : m.hits = 0 → m.bytes = value
  fixed : pid ≤ 1 → m.bytes = value

theorem maskValue_masked (hP : Counting P) {encoding : String} (henc : Encodable L P encoding) {pid : Nat} {value : Bytes}
    {m : MaskedValue} (h : maskValue L P encoding pid value = some m) : ValueMasked L P encoding pid value m := by
  unfold maskValue at h
  by_cases htext : isText pid value = true
  · simp only [htext, if_true, Option.bind_eq_bind, Option.bind_eq_some_iff] at h
    obtain ⟨text, hread, h⟩ := h
    obtain ⟨hpid, hkinds, hlength⟩ := kindOf_text htext
    split at h
    · rename_i hchanged
      simp only [Option.bind_eq_some_iff, Option.pure_def, Option.some.injEq] at h
      obtain ⟨written, hwritten, rfl⟩ := h
      have hnarrow : kindOf value ≠ wide → ∀ codec, L.codec encoding = some codec →
          codec.decode (codec.encodeReplace ((P.maskText text).1 ++ [0])) = some ((P.maskText text).1 ++ [0]) :=
        fun hno codec hcodec => masked_encodable henc hno hread hcodec
      have hkind : kindOf value < 256 ^ 4 := by
        rcases hkinds with hk | hk <;> rw [hk] <;> decide
      obtain ⟨hback, hk, height⟩ := readText_writeText hkind henc.wide hnarrow hwritten
      refine ⟨⟨rfl, fun hno => absurd hno (by simp [htext]), fun _ => ⟨isText_of htext hk height, hk, text, hread, hback⟩⟩,
        fun hnil => ?_, fun hnone => absurd hnone (hP text hchanged), fun hle => absurd hpid (Nat.not_lt.mpr hle)⟩
      simp only at hnil
      rw [hnil] at height
      cases height
    · rename_i hsame
      obtain rfl := Option.some.inj h
      have hsame : (P.maskText text).1 = text := not_not.mp hsame
      have hback : maskedText P text = text := by rw [maskedText, hsame, readText_stripped hread]
      exact ⟨⟨rfl, fun _ => rfl, fun _ => ⟨htext, rfl, text, hread, hback.symm ▸ hread⟩⟩, id, fun _ => rfl, fun _ => rfl⟩
  · simp only [htext] at h
    obtain rfl := Option.some.inj h
    exact ⟨⟨rfl, fun _ => rfl, fun hyes => absurd hyes htext⟩, id, fun _ => rfl, fun _ => rfl⟩

/-! The text of a value, whatever the policies. -/

def textOf (L : Library) (encoding : String) (pid : Nat) (value : Bytes) : Option (Option Str) :=
  if isText pid value then (readText L encoding value).map some else some none

theorem maskValue_textOf {encoding : String} {pid : Nat} {value : Bytes} {m : MaskedValue}
    (h : maskValue L P encoding pid value = some m) : textOf L encoding pid value = some m.text := by
  unfold maskValue at h
  unfold textOf
  by_cases htext : isText pid value = true
  · simp only [htext, if_true, Option.bind_eq_bind, Option.bind_eq_some_iff] at h
    obtain ⟨text, hread, h⟩ := h
    rw [if_pos htext, hread]
    split at h
    · simp only [Option.bind_eq_some_iff, Option.pure_def, Option.some.injEq] at h
      obtain ⟨_, -, rfl⟩ := h
      rfl
    · obtain rfl := Option.some.inj h
      rfl
  · simp only [htext] at h
    obtain rfl := Option.some.inj h
    rw [if_neg htext]

theorem maskValue_noPolicies {encoding : String} {pid : Nat} {value : Bytes} {text : Option Str}
    (h : textOf L encoding pid value = some text) : maskValue L noPolicies encoding pid value = some ⟨value, 0, text⟩ := by
  unfold textOf at h
  unfold maskValue
  by_cases htext : isText pid value = true
  · rw [if_pos htext, Option.map_eq_some_iff] at h
    obtain ⟨read, hread, rfl⟩ := h
    simp only [htext, if_true, hread, Option.bind_eq_bind, Option.bind_some]
    exact if_neg (not_not.mpr rfl)
  · rw [if_neg htext] at h
    rw [if_neg htext, Option.some.inj h]

theorem PropertyMasked.textOf {encoding : String} {before after : Property} (h : PropertyMasked L P encoding before after)
    {text : Option Str} (htext : textOf L encoding before.pid before.value = some text) :
    PropertySetSection.textOf L encoding after.pid after.value = some (text.map (maskedText P)) := by
  unfold PropertySetSection.textOf at htext ⊢
  by_cases his : isText before.pid before.value = true
  · obtain ⟨hafter, -, read, hread, hback⟩ := h.text his
    rw [if_pos his, hread] at htext
    obtain rfl := Option.some.inj htext
    rw [if_pos hafter, hback]
    rfl
  · have hkept := h.kept (by simpa using his)
    rw [if_neg his] at htext
    obtain rfl := Option.some.inj htext
    rw [h.pid, hkept, if_neg his]
    rfl

/-! The loop over the entries. -/

/-- An entry's value, masked. -/
def maskedAt (L : Library) (P : Policies) (part : Bytes) (layout : Layout) (e : Entry) : Option MaskedValue :=
  (valueAt part layout.bounds e.offset).bind (maskValue L P layout.encoding e.pid)

/-- What a run over entries records. -/
structure Recorded (m : Entry → MaskedValue) (entries : List Entry) (before after : Values) : Prop where
  hits : after.hits = before.hits + (entries.map fun e => (m e).hits).sum
  texts : after.texts = before.texts ++ entries.flatMap fun e => (m e).text.toList
  others : ∀ k ∉ entries.map Entry.offset, after.values.get k = before.values.get k
  values : (entries.map Entry.offset).Nodup → ∀ e ∈ entries, after.values.get e.offset = some (m e).bytes

theorem foldlM_maskEntry {part : Bytes} {layout : Layout} {m : Entry → MaskedValue} {entries : List Entry}
    (h : ∀ e ∈ entries, maskedAt L P part layout e = some (m e)) (state : Values) :
    ∃ done, entries.foldlM (maskEntry L P part layout) state = some done ∧ Recorded m entries state done := by
  induction entries generalizing state with
  | nil => exact ⟨state, rfl, by simp, by simp, fun _ _ => rfl, fun _ _ he => nomatch he⟩
  | cons e rest ih =>
    obtain ⟨value, hvalue, hmask⟩ := Option.bind_eq_some_iff.mp (h e List.mem_cons_self)
    obtain ⟨next, hnext⟩ : ∃ next : Values, next = ⟨state.values.set e.offset (m e).bytes, state.hits + (m e).hits,
      state.texts ++ (m e).text.toList, state.leftovers ++ (leftover e.pid value).toList⟩ := ⟨_, rfl⟩
    have hstep : maskEntry L P part layout state e = some next := by
      rw [maskEntry, hvalue, Option.bind_eq_bind, Option.bind_some, hmask, Option.bind_eq_bind, Option.bind_some, hnext]
      rfl
    obtain ⟨done, hdone, hrec⟩ := ih (fun f hf => h f (List.mem_cons_of_mem e hf)) next
    refine ⟨done, by rw [List.foldlM_cons, hstep, Option.bind_eq_bind, Option.bind_some, hdone], ?_, ?_, fun k hk => ?_,
      fun hnodup f hf => ?_⟩
    · rw [hrec.hits, hnext, List.map_cons, List.sum_cons]
      exact Nat.add_assoc _ _ _
    · rw [hrec.texts, hnext, List.flatMap_cons]
      exact List.append_assoc _ _ _
    · rw [List.map_cons, List.mem_cons, not_or] at hk
      rw [hrec.others k hk.2, hnext, Dict.get_set, if_neg (Ne.symm hk.1)]
    · rw [List.map_cons, List.nodup_cons] at hnodup
      rcases List.mem_cons.mp hf with rfl | hf
      · rw [hrec.others _ hnodup.1, hnext, Dict.get_set, if_pos rfl]
      · exact hrec.values hnodup.2 f hf

/-- A run that ends has masked every entry. -/
theorem maskedAt_of_foldlM {part : Bytes} {layout : Layout} {entries : List Entry} {state done : Values}
    (h : entries.foldlM (maskEntry L P part layout) state = some done) :
    ∀ e ∈ entries, (maskedAt L P part layout e).isSome = true := by
  induction entries generalizing state with
  | nil => exact fun _ he => nomatch he
  | cons e rest ih =>
    rw [List.foldlM_cons, Option.bind_eq_bind, Option.bind_eq_some_iff] at h
    obtain ⟨next, hnext, h⟩ := h
    simp only [maskEntry, Option.bind_eq_bind, Option.bind_eq_some_iff] at hnext
    obtain ⟨value, hvalue, masked, hmasked, -⟩ := hnext
    refine List.forall_mem_cons.mpr ⟨?_, ih h⟩
    rw [maskedAt, hvalue, Option.bind_some, hmasked]
    rfl

end XgenSdk.PropertySetSection
