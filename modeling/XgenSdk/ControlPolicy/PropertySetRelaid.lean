import XgenSdk.ControlPolicy.PropertySetSection

/-! A section laid out anew: its table is read back, and each value stands where
the table says. -/
namespace XgenSdk.PropertySetRelaid
open XgenSdk.Py.Utf16 XgenSdk.Py.Struct XgenSdk.Splice XgenSdk.Sorting XgenSdk.PropertySet XgenSdk.Checks XgenSdk.Pieces

/-! Numbers read inside pieces. -/

theorem unpack_slice {n k a b : Nat} {data : Bytes} (hn : 0 < n) (h : k + n ≤ (slice data a b).length) :
    unpack n data (a + k) = unpack n (slice data a b) k := by
  have hlength : (slice data a b).length = min b data.length - a := by rw [slice, List.length_drop, List.length_take]
  refine unpack_congr ?_ (by omega) h
  rw [slice, List.drop_drop, List.drop_take, List.take_take, Nat.min_eq_left (by omega)]

theorem unpack_startAt {n k i : Nat} {front back : Bytes} {pieces : List Bytes} (hn : 0 < n)
    (hi : i < pieces.length) (hk : k + n ≤ pieces[i].length) :
    unpack n (front ++ pieces.flatten ++ back) (front.length + startAt pieces i + k) = unpack n pieces[i] k := by
  have hslice := slice_startAt front pieces hi
  have hpiece : k + n ≤ (slice (front ++ pieces.flatten) (front.length + startAt pieces i)
      (front.length + startAt pieces (i + 1))).length := by rwa [hslice]
  have hread := unpack_slice hn hpiece
  rw [hslice] at hread
  have hend : startAt pieces (i + 1) ≤ startAt pieces pieces.length := startAt_mono pieces hi
  rw [startAt_succ pieces hi, startAt_all] at hend
  rw [unpack_append_left (by rw [List.length_append]; omega), hread]

theorem startAt_const {n i : Nat} {pieces : List Bytes} (h : ∀ p ∈ pieces, p.length = n) (hi : i ≤ pieces.length) :
    startAt pieces i = i * n := by
  induction i with
  | zero => rw [startAt_zero, Nat.zero_mul]
  | succ i ih =>
    rw [startAt_succ pieces hi, ih (Nat.le_of_succ_le hi), h _ (List.getElem_mem hi), Nat.succ_mul]

/-! The ends of the values. -/

theorem boundsFrom_other {size k : Nat} {l : List Entry} {bounds : Dict Nat Nat} (h : k ∉ l.map Entry.offset) :
    (boundsFrom size l bounds).get k = bounds.get k := by
  induction l generalizing bounds with
  | nil => rfl
  | cons e rest ih =>
    rw [List.map_cons, List.mem_cons, not_or] at h
    rw [boundsFrom, ih h.2, Dict.get_set, if_neg (Ne.symm h.1)]

theorem boundsFrom_get {size j : Nat} {l : List Entry} {bounds : Dict Nat Nat} (h : (l.map Entry.offset).Nodup)
    (hj : j < l.length) :
    (boundsFrom size l bounds).get l[j].offset = some ((l[j + 1]?.map Entry.offset).getD size) := by
  induction l generalizing bounds j with
  | nil => cases hj
  | cons e rest ih =>
    rw [List.map_cons, List.nodup_cons] at h
    cases j with
    | zero =>
      change (boundsFrom size rest _).get e.offset = _
      rw [boundsFrom_other h.1, Dict.get_set, if_pos rfl, List.head?_eq_getElem?]
      rfl
    | succ j => exact ih h.2 (Nat.lt_of_succ_lt_succ hj)

/-- Where the value of the entry at a place in the order ends. -/
def endAt (size : Nat) (l : List Entry) (j : Nat) : Nat := (l[j + 1]?.map Entry.offset).getD size

theorem valueAt_ordered (part : Bytes) (size : Nat) {j : Nat} {l : List Entry} (h : (l.map Entry.offset).Nodup) (hj : j < l.length) :
    valueAt part (boundsFrom size l Dict.empty) l[j].offset = some (slice part l[j].offset (endAt size l j)) := by
  rw [valueAt, boundsFrom_get h hj]
  rfl

/-! Placing the values. -/

theorem placeValues_eq {values : Dict Nat Bytes} {v : Nat → Bytes} {l : List Entry}
    (hv : ∀ e ∈ l, values.get e.offset = some (v e.offset)) (hl : (l.map Entry.offset).Nodup)
    (start : Nat) (placed : Dict Nat Nat) (body : Bytes) :
    ∃ placed', placeValues values start l (placed, body) = some (placed', body ++ (l.map fun e => v e.offset).flatten) ∧
      (∀ k ∉ l.map Entry.offset, placed'.get k = placed.get k) ∧
      ∀ j (hj : j < l.length), placed'.get l[j].offset = some (start + (body.length + startAt (l.map fun e => v e.offset) j)) := by
  induction l generalizing placed body with
  | nil => exact ⟨placed, by rw [List.map_nil, List.flatten_nil, List.append_nil]; rfl, fun _ _ => rfl, fun _ hj => nomatch hj⟩
  | cons e rest ih =>
    rw [List.map_cons, List.nodup_cons] at hl
    obtain ⟨placed', hplaced, hothers, hget⟩ := ih (fun f hf => hv f (List.mem_cons_of_mem e hf)) hl.2
      (placed.set e.offset (start + body.length)) (body ++ v e.offset)
    refine ⟨placed', ?_, fun k hk => ?_, fun j hj => ?_⟩
    · rw [placeValues, hv e List.mem_cons_self, Option.bind_eq_bind, Option.bind_some, hplaced, List.map_cons,
        List.flatten_cons, List.append_assoc]
    · rw [List.map_cons, List.mem_cons, not_or] at hk
      rw [hothers k hk.2, Dict.get_set, if_neg (Ne.symm hk.1)]
    · cases j with
      | zero =>
        rw [List.getElem_cons_zero, hothers _ hl.1, Dict.get_set, if_pos rfl]
        rfl
      | succ j =>
        rw [List.getElem_cons_succ, hget j (Nat.lt_of_succ_lt_succ hj), List.length_append]
        simp only [startAt, List.map_cons, List.take_succ_cons, List.flatten_cons, List.length_append, Nat.add_assoc]

/-! The new section. -/

def moved (m : Nat → Nat) (e : Entry) : Entry := ⟨e.pid, m e.offset⟩

/-- The values of a layout, in the order of their offsets. -/
def laid (layout : Layout) (v : Nat → Bytes) : List Bytes := layout.ordered.map fun e => v e.offset

def rows (layout : Layout) (m : Nat → Nat) : List Bytes :=
  layout.entries.map fun e => leBytes 4 e.pid ++ leBytes 4 (m e.offset)

/-- A section of the entries of a layout, with its values one after another in their order. -/
structure Relaid (layout : Layout) (v : Nat → Bytes) (m : Nat → Nat) (part : Bytes) : Prop where
  bytes : part = leBytes 4 part.length ++ leBytes 4 layout.count ++ (rows layout m).flatten ++ (laid layout v).flatten
  sized : part.length < 256 ^ 4
  small : layout.count < 256 ^ 4
  fits : ∀ e ∈ layout.entries, e.pid < 256 ^ 4 ∧ m e.offset < 256 ^ 4
  counted : layout.entries.length = layout.count
  places : ∀ j (hj : j < layout.ordered.length), m layout.ordered[j].offset = 8 + layout.count * 8 + startAt (laid layout v) j

/-- Along the order, no value starts where another does. -/
structure Spread (layout : Layout) (v : Nat → Bytes) : Prop where
  ordered : layout.ordered = byKey Entry.offset layout.entries
  distinct : (layout.entries.map Entry.offset).Nodup
  nonempty : ∀ j (hj : j + 1 < layout.ordered.length), v layout.ordered[j].offset ≠ []

theorem Spread.nodup {layout : Layout} {v : Nat → Bytes} (hs : Spread layout v) : (layout.ordered.map Entry.offset).Nodup := by
  rw [hs.ordered]
  exact ((byKey_perm Entry.offset layout.entries).map Entry.offset).nodup_iff.mpr hs.distinct

theorem Spread.index {layout : Layout} {v : Nat → Bytes} (hs : Spread layout v) {e : Entry} (he : e ∈ layout.entries) :
    ∃ j, ∃ hj : j < layout.ordered.length, layout.ordered[j] = e := by
  rw [← (byKey_perm Entry.offset layout.entries).mem_iff, ← hs.ordered] at he
  exact List.getElem_of_mem he

theorem Spread.offset_lt {layout : Layout} {v : Nat → Bytes} (hs : Spread layout v) {i j : Nat} (hij : i < j) (hj : j < layout.ordered.length) :
    layout.ordered[i].offset < layout.ordered[j].offset := by
  have hsorted := pairwise_byKey Entry.offset layout.entries
  rw [← hs.ordered] at hsorted
  have hle := List.pairwise_iff_getElem.mp hsorted i j (hij.trans hj) hj hij
  have hne := List.pairwise_iff_getElem.mp (List.pairwise_map.mp hs.nodup) i j (hij.trans hj) hj hij
  exact Nat.lt_of_le_of_ne hle hne

namespace Relaid
variable {layout : Layout} {v : Nat → Bytes} {m : Nat → Nat} {part : Bytes}

theorem length_rows (layout : Layout) (m : Nat → Nat) : ∀ row ∈ rows layout m, row.length = 8 := by
  intro row hrow
  obtain ⟨e, -, rfl⟩ := List.mem_map.mp hrow
  rw [List.length_append, length_leBytes, length_leBytes]

theorem size (h : Relaid layout v m part) : unpack 4 part 0 = some part.length := by
  have hread := unpack_leBytes h.sized (leBytes 4 layout.count ++ ((rows layout m).flatten ++ (laid layout v).flatten))
  rw [← List.append_assoc, ← List.append_assoc, ← h.bytes] at hread
  exact hread

theorem count (h : Relaid layout v m part) : unpack 4 part 4 = some layout.count := by
  have hread := unpack_append_right 4 (leBytes 4 part.length)
    (leBytes 4 layout.count ++ ((rows layout m).flatten ++ (laid layout v).flatten)) 0
  rw [unpack_leBytes h.small, ← List.append_assoc, ← List.append_assoc, ← h.bytes, length_leBytes] at hread
  exact hread

theorem row (h : Relaid layout v m part) {i k : Nat} (hi : i < layout.entries.length) (hk : k + 4 ≤ 8) :
    unpack 4 part (8 + i * 8 + k) =
      unpack 4 (leBytes 4 layout.entries[i].pid ++ leBytes 4 (m layout.entries[i].offset)) k := by
  have hrows : i < (rows layout m).length := by rwa [rows, List.length_map]
  have hlength := length_rows layout m _ (List.getElem_mem hrows)
  have hread : unpack 4 (leBytes 4 part.length ++ leBytes 4 layout.count ++ (rows layout m).flatten ++ (laid layout v).flatten)
      ((leBytes 4 part.length ++ leBytes 4 layout.count).length + startAt (rows layout m) i + k) = unpack 4 (rows layout m)[i] k :=
    unpack_startAt (by decide) hrows (by omega)
  rw [← h.bytes, startAt_const (length_rows layout m) hrows.le, List.length_append, length_leBytes, length_leBytes] at hread
  rw [hread]
  simp only [rows, List.getElem_map]

theorem entries (h : Relaid layout v m part) :
    (List.range layout.count).mapM (entryAt part) = some (layout.entries.map (moved m)) := by
  rw [mapM_range_iff]
  refine ⟨(List.length_map _).trans h.counted, fun i hi => ?_⟩
  have hi : i < layout.entries.length := by rwa [List.length_map] at hi
  obtain ⟨hpid, hoffset⟩ := h.fits _ (List.getElem_mem hi)
  have hfirst := h.row hi (k := 0) (by decide)
  have hsecond := h.row hi (k := 4) (by decide)
  rw [unpack_leBytes hpid, Nat.add_zero] at hfirst
  have hright := unpack_append_right 4 (leBytes 4 layout.entries[i].pid) (leBytes 4 (m layout.entries[i].offset)) 0
  have hplace := unpack_leBytes hoffset []
  rw [List.append_nil] at hplace
  rw [length_leBytes, hplace] at hright
  rw [hright] at hsecond
  rw [entryAt, hfirst, Option.bind_eq_bind, Option.bind_some, hsecond, List.getElem_map]
  rfl

/-- New places are in the order of the old. -/
theorem place_lt (h : Relaid layout v m part) (hs : Spread layout v) {i j : Nat} (hij : i < j)
    (hj : j < layout.ordered.length) : m layout.ordered[i].offset < m layout.ordered[j].offset := by
  have hi : i < (laid layout v).length := by rw [laid, List.length_map]; omega
  have hlt := startAt_lt (laid layout v) hij hi (by
    simp only [laid, List.getElem_map]
    exact hs.nonempty i (by omega))
  rw [h.places i (hij.trans hj), h.places j hj]
  omega

theorem place_le_iff (h : Relaid layout v m part) (hs : Spread layout v) {a b : Entry} (ha : a ∈ layout.entries)
    (hb : b ∈ layout.entries) : a.offset ≤ b.offset ↔ m a.offset ≤ m b.offset := by
  obtain ⟨i, hi, rfl⟩ := hs.index ha
  obtain ⟨j, hj, rfl⟩ := hs.index hb
  rcases Nat.lt_trichotomy i j with hij | rfl | hji
  · exact iff_of_true (hs.offset_lt hij hj).le (h.place_lt hs hij hj).le
  · exact iff_of_true (le_refl _) (le_refl _)
  · exact iff_of_false (Nat.not_le.mpr (hs.offset_lt hji hi)) (Nat.not_le.mpr (h.place_lt hs hji hi))

theorem ordered (h : Relaid layout v m part) (hs : Spread layout v) :
    byKey Entry.offset (layout.entries.map (moved m)) = layout.ordered.map (moved m) := by
  rw [hs.ordered]
  exact (List.map_insertionSort _ _ (moved m) layout.entries fun a ha b hb => h.place_le_iff hs ha hb).symm

theorem length_front (h : Relaid layout v m part) :
    (leBytes 4 part.length ++ leBytes 4 layout.count ++ (rows layout m).flatten).length = 8 + layout.count * 8 := by
  have hrows : (rows layout m).length = layout.count := by rw [rows, List.length_map, h.counted]
  have hflat := startAt_const (length_rows layout m) (le_refl _)
  rw [startAt_all, hrows] at hflat
  rw [List.length_append, List.length_append, length_leBytes, length_leBytes, hflat]

/-- A value ends where the next begins, and the last at the end of the section. -/
theorem ends (h : Relaid layout v m part) {j : Nat} (hj : j < layout.ordered.length) :
    endAt part.length (layout.ordered.map (moved m)) j = 8 + layout.count * 8 + startAt (laid layout v) (j + 1) := by
  by_cases hnext : j + 1 < layout.ordered.length
  · rw [endAt, List.getElem?_eq_getElem (by rwa [List.length_map]), List.getElem_map]
    exact h.places (j + 1) hnext
  · have hall : j + 1 = (laid layout v).length := by rw [laid, List.length_map]; omega
    have hlength := congrArg List.length h.bytes
    rw [List.length_append, h.length_front] at hlength
    rw [endAt, List.getElem?_eq_none (by rw [List.length_map]; omega), hall, startAt_all]
    exact hlength

/-- Each value stands where the new table says. -/
theorem value (h : Relaid layout v m part) (hs : Spread layout v) {e : Entry} (he : e ∈ layout.entries) :
    valueAt part (boundsFrom part.length (layout.ordered.map (moved m)) Dict.empty) (m e.offset) = some (v e.offset) := by
  obtain ⟨j, hj, rfl⟩ := hs.index he
  have hmap : j < (layout.ordered.map (moved m)).length := by rwa [List.length_map]
  have hnodup : ((layout.ordered.map (moved m)).map Entry.offset).Nodup := by
    rw [List.map_map, List.Nodup, List.pairwise_map, List.pairwise_iff_getElem]
    intro a b ha hb hab
    exact (h.place_lt hs hab hb).ne
  have hvalue := valueAt_ordered part part.length hnodup hmap
  have hlaid : j < (laid layout v).length := by rwa [laid, List.length_map]
  have hslice := slice_startAt (leBytes 4 part.length ++ leBytes 4 layout.count ++ (rows layout m).flatten) (laid layout v) hlaid
  rw [← h.bytes, h.length_front, ← h.ends hj, ← h.places j hj] at hslice
  rw [List.getElem_map] at hvalue
  refine hvalue.trans (congrArg some (hslice.trans ?_))
  simp only [laid, List.getElem_map]

end Relaid

/-! Reading the new section. -/

/-- What the layout of a section is read from. -/
structure LayoutOf (part : Bytes) (layout : Layout) (size codepage : Nat) : Prop where
  sized : unpack 4 part 0 = some size
  count : unpack 4 part 4 = some layout.count
  entries : (List.range layout.count).mapM (entryAt part) = some layout.entries
  paged : layout.entries.foldlM (codepageStep part) 1252 = some codepage
  encoding : layout.encoding = encodingName codepage
  ordered : layout.ordered = byKey Entry.offset layout.entries
  bounds : layout.bounds = boundsFrom size layout.ordered Dict.empty

theorem readLayout_iff {part : Bytes} {layout : Layout} :
    readLayout part = some layout ↔ ∃ size codepage, LayoutOf part layout size codepage := by
  simp only [readLayout, Option.bind_eq_bind, Option.bind_eq_some_iff, Option.pure_def, Option.some.injEq]
  constructor
  · rintro ⟨size, hsize, count, hcount, entries, hentries, codepage, hcodepage, rfl⟩
    exact ⟨size, codepage, hsize, hcount, hentries, hcodepage, rfl, rfl, rfl⟩
  · rintro ⟨size, codepage, h⟩
    refine ⟨size, h.sized, layout.count, h.count, layout.entries, h.entries, codepage, h.paged, ?_⟩
    rw [← h.ordered, ← h.encoding, ← h.bounds]

/-- A value long enough for its code page to be read inside it. -/
def Readable (value : Bytes) : Prop := 4 ≤ value.length ∧ (kindOf value = 2 → 6 ≤ value.length)

theorem codepageStep_value {part : Bytes} {bounds : Dict Nat Nat} {e : Entry} {value : Bytes} (he : e.pid = 1)
    (hvalue : valueAt part bounds e.offset = some value) (hlong : Readable value) (codepage : Nat) :
    codepageStep part codepage e = if kindOf value = 2 then unpack 2 value 4 else some codepage := by
  obtain ⟨stop, -, hslice⟩ := Option.map_eq_some_iff.mp hvalue
  subst hslice
  have hkind := unpack_slice (n := 4) (k := 0) (by decide) (by have := hlong.1; omega)
  have hfirst : unpack 4 (slice part e.offset stop) 0 = some (kindOf (slice part e.offset stop)) := by
    rw [unpack, kindOf, if_pos (by have := hlong.1; omega), if_pos hlong.1, List.drop_zero]
  rw [hfirst, Nat.add_zero] at hkind
  rw [codepageStep, if_pos he, hkind, Option.bind_eq_bind, Option.bind_some]
  by_cases htwo : kindOf (slice part e.offset stop) = 2
  · rw [if_pos htwo, if_pos htwo]
    exact unpack_slice (by decide) (hlong.2 htwo)
  · rw [if_neg htwo, if_neg htwo]

theorem foldlM_codepage {old part : Bytes} {m : Nat → Nat} {entries : List Entry}
    (h : ∀ e ∈ entries, ∀ codepage, codepageStep part codepage (moved m e) = codepageStep old codepage e) (codepage : Nat) :
    (entries.map (moved m)).foldlM (codepageStep part) codepage = entries.foldlM (codepageStep old) codepage := by
  induction entries generalizing codepage with
  | nil => rfl
  | cons e rest ih =>
    rw [List.map_cons, List.foldlM_cons, List.foldlM_cons, h e List.mem_cons_self]
    exact congrArg _ (funext fun next => ih (fun f hf => h f (List.mem_cons_of_mem e hf)) next)

/-- The layout of the new section. -/
def relaidLayout (layout : Layout) (m : Nat → Nat) (size : Nat) : Layout where
  count := layout.count
  entries := layout.entries.map (moved m)
  encoding := layout.encoding
  ordered := layout.ordered.map (moved m)
  bounds := boundsFrom size (layout.ordered.map (moved m)) Dict.empty

theorem Relaid.readLayout {layout : Layout} {v : Nat → Bytes} {m : Nat → Nat} {old part : Bytes}
    (hread : readLayout old = some layout) (h : Relaid layout v m part) (hs : Spread layout v)
    (hcode : ∀ e ∈ layout.entries, e.pid = 1 → valueAt old layout.bounds e.offset = some (v e.offset) ∧ Readable (v e.offset)) :
    PropertySet.readLayout part = some (relaidLayout layout m part.length) := by
  obtain ⟨size, codepage, hold⟩ := readLayout_iff.mp hread
  refine readLayout_iff.mpr ⟨part.length, codepage, h.size, h.count, h.entries, ?_, hold.encoding, (h.ordered hs).symm, rfl⟩
  refine (foldlM_codepage (fun e he next => ?_) 1252).trans hold.paged
  by_cases hpid : e.pid = 1
  · obtain ⟨hvalue, hlong⟩ := hcode e he hpid
    rw [codepageStep_value (e := moved m e) hpid (h.value hs he) hlong, codepageStep_value hpid hvalue hlong]
  · have hmoved : (moved m e).pid ≠ 1 := hpid
    rw [codepageStep, codepageStep, if_neg hpid, if_neg hmoved]

end XgenSdk.PropertySetRelaid
