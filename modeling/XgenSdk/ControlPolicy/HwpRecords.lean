import XgenSdk.ControlPolicy.HwpUnits
import XgenSdk.Py.Struct
import Mathlib.Data.List.Forall2

/-! The records of a section: a tag, a level and a payload behind a header of
four bytes, or of eight where the payload is long. -/
namespace XgenSdk.Hwp
open XgenSdk.Py.Utf16 XgenSdk.Py.Struct

/-- A record; `raw` are its bytes as long as it is unchanged. -/
structure Record where
  tag : Nat
  level : Nat
  payload : Bytes
  raw : Option Bytes
  dropped : Bool
  deriving DecidableEq, Repr

def truncated : HwpError := .unsupported "본문 레코드가 잘림"

/-- The length of a payload and of the header in front of it. -/
def recordSize (data : Bytes) : Except HwpError (Nat × Nat) :=
  if leNat (data.take 4) / 2 ^ 20 = 0xFFF then
    if data.length < 8 then .error truncated else .ok (leNat ((data.drop 4).take 4), 8)
  else .ok (leNat (data.take 4) / 2 ^ 20, 4)

/-- The record that data starts with. -/
def firstRecord (data : Bytes) : Except HwpError Record :=
  if data.length < 4 then .error truncated
  else
    match recordSize data with
    | .error e => .error e
    | .ok (length, head) =>
      if data.length < head + length then .error truncated
      else
        .ok ⟨leNat (data.take 4) % 1024, leNat (data.take 4) / 1024 % 1024, (data.drop head).take length,
          some (data.take (head + length)), false⟩

def rawLength (r : Record) : Nat := (r.raw.getD []).length

/-- The bytes behind a first record. -/
theorem firstRecord_raw {data : Bytes} {r : Record} (h : firstRecord data = .ok r) :
    4 ≤ rawLength r ∧ rawLength r ≤ data.length ∧ r.raw = some (data.take (rawLength r)) := by
  unfold firstRecord at h
  split at h
  · cases h
  · split at h
    · cases h
    · rename_i length head hsize
      have hhead : 4 ≤ head := by
        unfold recordSize at hsize
        split at hsize
        · split at hsize
          · cases hsize
          · cases hsize
            omega
        · cases hsize
          exact Nat.le_refl 4
      split at h
      · cases h
      · rw [← Except.ok.inj h]
        have hlen : (data.take (head + length)).length = head + length := by
          rw [List.length_take]
          omega
        have hraw : rawLength ⟨leNat (data.take 4) % 1024, leNat (data.take 4) / 1024 % 1024, (data.drop head).take length,
            some (data.take (head + length)), false⟩ = head + length := hlen
        rw [hraw]
        exact ⟨by omega, by omega, rfl⟩

/-- `_records`. -/
def records (data : Bytes) : Except HwpError (List Record) :=
  if data = [] then .ok []
  else
    match _h : firstRecord data with
    | .error e => .error e
    | .ok r => (records (data.drop (rawLength r))).map fun rest => r :: rest
termination_by data.length
decreasing_by
  have hraw := firstRecord_raw _h
  rw [List.length_drop]
  omega

/-- `struct.pack("<I", value)`. -/
def packU32 (value : Nat) : Except HwpError Bytes :=
  if value < 2 ^ 32 then .ok (leBytes 4 value) else .error .structError

/-- `struct.pack("<H", value)`. -/
def packU16 (value : Nat) : Except HwpError Bytes :=
  if value < 2 ^ 16 then .ok (leBytes 2 value) else .error .structError

/-- The header of a record whose payload has `size` bytes. -/
def packHeader (tag level size : Nat) : Except HwpError Bytes :=
  if 0xFFF ≤ size then do
    let word ← packU32 ((tag ||| level <<< 10) ||| 0xFFF <<< 20)
    let extended ← packU32 size
    return word ++ extended
  else packU32 ((tag ||| level <<< 10) ||| size <<< 20)

/-- `_pack`. -/
def pack (r : Record) : Except HwpError Bytes :=
  match r.raw with
  | some raw => .ok raw
  | none => do
    let header ← packHeader r.tag r.level r.payload.length
    return header ++ r.payload

/-- `b"".join(_pack(r) for r in records)`. -/
def packAll (rs : List Record) : Except HwpError Bytes := do
  let packed ← rs.mapM pack
  return packed.flatten

/-! Round trips. -/

theorem hwpBind_ok {α β : Type} {x : Except HwpError α} {f : α → Except HwpError β} {b : β} (h : (x >>= f) = .ok b) :
    ∃ a, x = .ok a ∧ f a = .ok b := by
  cases x with
  | error e => cases h
  | ok a => exact ⟨a, rfl, h⟩

/-- The bytes are those of the record, whatever comes behind them. -/
structure Frames (raw : Bytes) (r : Record) : Prop where
  nonempty : raw ≠ []
  kept : r.raw = some raw
  first : ∀ rest, firstRecord (raw ++ rest) = .ok r

theorem recordSize_append {data rest : Bytes} {size : Nat × Nat} (hdata : 4 ≤ data.length)
    (h : recordSize data = .ok size) : recordSize (data ++ rest) = .ok size := by
  unfold recordSize at h ⊢
  rw [List.take_append_of_le_length hdata]
  split at h
  · rename_i hlong
    rw [if_pos hlong]
    split at h
    · cases h
    · rename_i hdata8
      rw [if_neg (by rw [List.length_append]; omega), List.drop_append_of_le_length hdata,
        List.take_append_of_le_length (by rw [List.length_drop]; omega)]
      exact h
  · rename_i hshort
    rw [if_neg hshort]
    exact h

theorem firstRecord_append {data rest : Bytes} {r : Record} (h : firstRecord data = .ok r) :
    firstRecord (data ++ rest) = .ok r := by
  unfold firstRecord at h ⊢
  split at h
  · cases h
  · rename_i hdata
    cases hsize : recordSize data with
    | error e => rw [hsize] at h; cases h
    | ok size =>
      rw [hsize] at h
      rw [if_neg (by rw [List.length_append]; omega), recordSize_append (by omega) hsize]
      dsimp only at h ⊢
      split at h
      · cases h
      · rename_i hfits
        have hhead : size.2 ≤ data.length := by omega
        rw [if_neg (by rw [List.length_append]; omega), List.take_append_of_le_length (by omega),
          List.drop_append_of_le_length hhead, List.take_append_of_le_length (by rw [List.length_drop]; omega),
          List.take_append_of_le_length (by omega)]
        exact h

theorem recordSize_cut {raw rest : Bytes} {size : Nat × Nat} (h : recordSize (raw ++ rest) = .ok size)
    (hhead : size.2 ≤ raw.length) : recordSize raw = .ok size ∧ 4 ≤ size.2 := by
  unfold recordSize at h ⊢
  split at h
  · rename_i hlong
    split at h
    · cases h
    · cases h
      have hraw : 8 ≤ raw.length := hhead
      rw [List.take_append_of_le_length (by omega)] at hlong
      rw [if_pos hlong, if_neg (by omega), List.drop_append_of_le_length (by omega),
        List.take_append_of_le_length (by rw [List.length_drop]; omega)]
      exact ⟨rfl, by change 4 ≤ 8; omega⟩
  · rename_i hshort
    cases h
    have hraw : 4 ≤ raw.length := hhead
    rw [List.take_append_of_le_length hraw] at hshort ⊢
    rw [if_neg hshort]
    exact ⟨rfl, Nat.le_refl 4⟩

theorem firstRecord_cut {raw rest : Bytes} {r : Record} (h : firstRecord (raw ++ rest) = .ok r)
    (hraw : rawLength r = raw.length) : firstRecord raw = .ok r := by
  unfold firstRecord at h
  split at h
  · cases h
  · cases hsize : recordSize (raw ++ rest) with
    | error e => rw [hsize] at h; cases h
    | ok size =>
      rw [hsize] at h
      dsimp only at h
      split at h
      · cases h
      · rename_i hfits
        have hlength : raw.length = size.2 + size.1 := by
          rw [← hraw, ← Except.ok.inj h, rawLength, Option.getD_some, List.length_take]
          omega
        obtain ⟨hcut, hfour⟩ := recordSize_cut hsize (by omega)
        rw [List.take_append_of_le_length (by omega), List.take_append_of_le_length (by omega),
          List.drop_append_of_le_length (by omega), List.take_append_of_le_length (by rw [List.length_drop]; omega)] at h
        unfold firstRecord
        rw [if_neg (by omega), hcut]
        dsimp only
        rw [if_neg (by omega)]
        exact h

theorem Frames.of_first {data : Bytes} {r : Record} (h : firstRecord data = .ok r) :
    Frames (data.take (rawLength r)) r := by
  obtain ⟨hfour, hle, hraw⟩ := firstRecord_raw h
  have hlength : rawLength r = (data.take (rawLength r)).length := by
    rw [List.length_take]
    omega
  have hsplit : firstRecord (data.take (rawLength r) ++ data.drop (rawLength r)) = .ok r := by
    rw [List.take_append_drop]
    exact h
  refine ⟨fun hnil => ?_, hraw, fun rest => firstRecord_append (firstRecord_cut hsplit hlength)⟩
  rw [hnil] at hlength
  simp only [List.length_nil] at hlength
  omega

/-- The fields of a header are packed side by side. -/
theorem header_sum {tag level size : Nat} (htag : tag < 1024) (hlevel : level < 1024) :
    (tag ||| level <<< 10) ||| size <<< 20 = tag + 1024 * level + 2 ^ 20 * size := by
  have hlow : tag ||| level <<< 10 = tag + 1024 * level := by
    rw [Nat.or_comm, Nat.shiftLeft_eq, Nat.mul_comm level, ← Nat.two_pow_add_eq_or_of_lt (by omega : tag < 2 ^ 10)]
    omega
  rw [hlow, Nat.or_comm, Nat.shiftLeft_eq, Nat.mul_comm size,
    ← Nat.two_pow_add_eq_or_of_lt (by omega : tag + 1024 * level < 2 ^ 20)]
  omega

theorem packU32_of_lt {value : Nat} (h : value < 2 ^ 32) : packU32 value = .ok (leBytes 4 value) := if_pos h

/-- A header that gives the fields of a record, and the length of its payload, in front of the payload. -/
theorem Frames.of_header {r : Record} {header : Bytes} (hfour : 4 ≤ header.length)
    (htag : leNat (header.take 4) % 1024 = r.tag) (hlevel : leNat (header.take 4) / 1024 % 1024 = r.level)
    (hsize : ∀ rest, recordSize (header ++ rest) = .ok (r.payload.length, header.length)) :
    Frames (header ++ r.payload) { r with raw := some (header ++ r.payload), dropped := false } := by
  refine ⟨fun hnil => ?_, rfl, fun rest => ?_⟩
  · rw [(List.append_eq_nil_iff.mp hnil).1] at hfour
    simp at hfour
  · have htake : (header ++ (r.payload ++ rest)).take 4 = header.take 4 := List.take_append_of_le_length hfour
    have hall : (header ++ (r.payload ++ rest)).take (header.length + r.payload.length) = header ++ r.payload := by
      rw [← List.append_assoc, ← List.length_append, List.take_left]
    have hlengths : (header ++ (r.payload ++ rest)).length = header.length + r.payload.length + rest.length := by
      simp only [List.length_append]
      omega
    rw [List.append_assoc]
    unfold firstRecord
    rw [hsize, hlengths, if_neg (by omega)]
    dsimp only
    rw [if_neg (by omega), htake, htag, hlevel, hall, List.drop_left, List.take_left]

/-- A packed record is read back. -/
theorem pack_frames {r : Record} (htag : r.tag < 1024) (hlevel : r.level < 1024) (hsize : r.payload.length < 2 ^ 32)
    (hraw : r.raw = none) :
    ∃ raw, pack r = .ok raw ∧ Frames raw { r with raw := some raw, dropped := false } := by
  unfold pack packHeader
  rw [hraw]
  by_cases hlong : 0xFFF ≤ r.payload.length
  · have hvalue : (r.tag ||| r.level <<< 10) ||| 0xFFF <<< 20 < 2 ^ 32 := by
      rw [header_sum htag hlevel]
      omega
    have hword : leNat (leBytes 4 ((r.tag ||| r.level <<< 10) ||| 0xFFF <<< 20)) = r.tag + 1024 * r.level + 2 ^ 20 * 0xFFF := by
      rw [leNat_leBytes (by omega), header_sum htag hlevel]
    have hextended : leNat (leBytes 4 r.payload.length) = r.payload.length := leNat_leBytes (by omega)
    have hwordLength := length_leBytes 4 ((r.tag ||| r.level <<< 10) ||| 0xFFF <<< 20)
    have hextLength := length_leBytes 4 r.payload.length
    rw [if_pos hlong, packU32_of_lt hvalue, packU32_of_lt hsize]
    generalize leBytes 4 ((r.tag ||| r.level <<< 10) ||| 0xFFF <<< 20) = word at hword hwordLength
    generalize leBytes 4 r.payload.length = extended at hextended hextLength
    have hlength : (word ++ extended).length = 8 := by rw [List.length_append, hwordLength, hextLength]
    have htake : (word ++ extended).take 4 = word := by rw [← hwordLength, List.take_left]
    refine ⟨word ++ extended ++ r.payload, rfl, Frames.of_header (by omega) ?_ ?_ fun rest => ?_⟩
    · rw [htake, hword]
      omega
    · rw [htake, hword]
      omega
    · have hfirst : (word ++ extended ++ rest).take 4 = word := by
        rw [List.append_assoc, ← hwordLength, List.take_left]
      have hsecond : ((word ++ extended ++ rest).drop 4).take 4 = extended := by
        rw [List.append_assoc, ← hwordLength, List.drop_left, hwordLength, ← hextLength, List.take_left]
      unfold recordSize
      rw [hfirst, hword, hsecond, hextended, hlength, if_pos (by omega),
        if_neg (by rw [List.length_append, hlength]; omega)]
  · have hvalue : (r.tag ||| r.level <<< 10) ||| r.payload.length <<< 20 < 2 ^ 32 := by
      rw [header_sum htag hlevel]
      omega
    have hword : leNat (leBytes 4 ((r.tag ||| r.level <<< 10) ||| r.payload.length <<< 20)) =
        r.tag + 1024 * r.level + 2 ^ 20 * r.payload.length := by
      rw [leNat_leBytes (by omega), header_sum htag hlevel]
    have hlength := length_leBytes 4 ((r.tag ||| r.level <<< 10) ||| r.payload.length <<< 20)
    rw [if_neg hlong, packU32_of_lt hvalue]
    generalize leBytes 4 ((r.tag ||| r.level <<< 10) ||| r.payload.length <<< 20) = word at hword hlength
    have htake : word.take 4 = word := List.take_of_length_le (by omega)
    refine ⟨word ++ r.payload, rfl, Frames.of_header (by omega) ?_ ?_ fun rest => ?_⟩
    · rw [htake, hword]
      omega
    · rw [htake, hword]
      omega
    · have hsizeBack : (r.tag + 1024 * r.level + 2 ^ 20 * r.payload.length) / 2 ^ 20 = r.payload.length := by omega
      unfold recordSize
      rw [List.take_append_of_le_length (by omega), htake, hword, hsizeBack, hlength, if_neg (by omega)]

/-- Records in front of each other are read one after the other. -/
theorem records_of_frames {raws : List Bytes} {rs : List Record} (h : List.Forall₂ Frames raws rs) :
    records raws.flatten = .ok rs := by
  induction h with
  | nil => rw [records]; rfl
  | @cons raw r raws rs hframe _ ih =>
    have hlength : rawLength r = raw.length := by rw [rawLength, hframe.kept]; rfl
    have hne : raw ++ raws.flatten ≠ [] := fun hnil => hframe.nonempty (List.append_eq_nil_iff.mp hnil).1
    rw [List.flatten_cons, records, if_neg hne]
    split
    · rename_i e herror
      rw [hframe.first] at herror
      cases herror
    · rename_i r' hfirst
      rw [hframe.first] at hfirst
      cases hfirst
      rw [hlength, List.drop_left, ih]
      rfl

/-- What is read is made of the bytes of its records. -/
theorem records_frames {data : Bytes} {rs : List Record} (h : records data = .ok rs) :
    ∃ raws, List.Forall₂ Frames raws rs ∧ data = raws.flatten := by
  induction hlen : data.length using Nat.strongRecOn generalizing data rs with
  | _ n ih =>
    rw [records] at h
    split at h
    · rename_i hnil
      rw [← Except.ok.inj h, hnil]
      exact ⟨[], .nil, rfl⟩
    · split at h
      · cases h
      · rename_i r hfirst
        cases hrest : records (data.drop (rawLength r)) with
        | error e => rw [hrest] at h; cases h
        | ok rest =>
          rw [hrest] at h
          obtain ⟨hfour, hle, -⟩ := firstRecord_raw hfirst
          obtain ⟨raws, hframes, hdata⟩ := ih (data.drop (rawLength r)).length
            (by rw [List.length_drop]; omega) hrest rfl
          rw [← Except.ok.inj h]
          refine ⟨data.take (rawLength r) :: raws, .cons (Frames.of_first hfirst) hframes, ?_⟩
          rw [List.flatten_cons, ← hdata, List.take_append_drop]

/-- The tag and the level of a record have ten bits each, and its payload less than 32. -/
theorem Frames.bounds {raw : Bytes} {r : Record} (h : Frames raw r) : r.tag < 1024 ∧ r.level < 1024 ∧ r.dropped = false := by
  have hfirst := h.first []
  unfold firstRecord at hfirst
  split at hfirst
  · cases hfirst
  · split at hfirst
    · cases hfirst
    · split at hfirst
      · cases hfirst
      · rw [← Except.ok.inj hfirst]
        exact ⟨Nat.mod_lt _ (by omega), Nat.mod_lt _ (by omega), rfl⟩

theorem packAll_of {rs : List Record} {raws : List Bytes} (h : List.Forall₂ (fun r raw => pack r = .ok raw) rs raws) :
    packAll rs = .ok raws.flatten := by
  have hmap : rs.mapM pack = .ok raws := by
    induction h with
    | nil => rfl
    | cons hpack _ ih =>
      rw [List.mapM_cons, hpack, ih]
      rfl
  rw [packAll, hmap]
  rfl

theorem packAll_ok {rs : List Record} {out : Bytes} (h : packAll rs = .ok out) :
    ∃ raws, List.Forall₂ (fun r raw => pack r = .ok raw) rs raws ∧ out = raws.flatten := by
  obtain ⟨raws, hraws, hout⟩ := hwpBind_ok h
  refine ⟨raws, ?_, (Except.ok.inj hout).symm⟩
  clear h hout
  induction rs generalizing raws with
  | nil =>
    rw [List.mapM_nil] at hraws
    rw [← Except.ok.inj hraws]
    exact .nil
  | cons r rs ih =>
    rw [List.mapM_cons] at hraws
    obtain ⟨raw, hraw, hraws⟩ := hwpBind_ok hraws
    obtain ⟨rest, hrest, hraws⟩ := hwpBind_ok hraws
    rw [← Except.ok.inj hraws]
    exact .cons hraw (ih rest hrest)

/-- Records that were read are packed as the bytes they were read from. -/
theorem packAll_records {data : Bytes} {rs : List Record} (h : records data = .ok rs) : packAll rs = .ok data := by
  obtain ⟨raws, hframes, rfl⟩ := records_frames h
  refine packAll_of (hframes.flip.imp fun r raw hframe => ?_)
  rw [pack, hframe.kept]

/-- Records that fit are packed into bytes from which they are read back. -/
theorem records_packAll {rs : List Record}
    (hfits : ∀ r ∈ rs, r.tag < 1024 ∧ r.level < 1024 ∧ r.payload.length < 2 ^ 32 ∧ r.raw = none) :
    ∃ data after, packAll rs = .ok data ∧ records data = .ok after ∧
      List.Forall₂ (fun r a => a.tag = r.tag ∧ a.level = r.level ∧ a.payload = r.payload) rs after := by
  have hraws : ∃ raws after, List.Forall₂ (fun r raw => pack r = .ok raw) rs raws ∧ List.Forall₂ Frames raws after ∧
      List.Forall₂ (fun r a => a.tag = r.tag ∧ a.level = r.level ∧ a.payload = r.payload) rs after := by
    induction rs with
    | nil => exact ⟨[], [], .nil, .nil, .nil⟩
    | cons r rs ih =>
      obtain ⟨htag, hlevel, hsize, hraw⟩ := hfits r List.mem_cons_self
      obtain ⟨raw, hpack, hframe⟩ := pack_frames htag hlevel hsize hraw
      obtain ⟨raws, after, hpacks, hframes, hsame⟩ := ih fun r' hr' => hfits r' (List.mem_cons_of_mem _ hr')
      exact ⟨raw :: raws, _, .cons hpack hpacks, .cons hframe hframes, .cons ⟨rfl, rfl, rfl⟩ hsame⟩
  obtain ⟨raws, after, hpacks, hframes, hsame⟩ := hraws
  exact ⟨raws.flatten, after, packAll_of hpacks, records_of_frames hframes, hsame⟩

end XgenSdk.Hwp
