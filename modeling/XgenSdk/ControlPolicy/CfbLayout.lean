import XgenSdk.ControlPolicy.CfbWrite
import XgenSdk.Lib.Checks
import Mathlib.Order.Lattice.Nat

/-! The sectors of a written compound file: how many the loop asks for, what the table
says of each, and which slot names each sector of the table. -/
namespace XgenSdk.Cfb
open XgenSdk.Saturate

/-! The loop. -/

section Sizing
variable {dataCount : Nat}

theorem sectors_le_iff {size count : Nat} : size ⌈/⌉ (sectorSize / 4) ≤ count ↔ size ≤ 128 * count :=
  ceilDiv_le_iff_le_mul (by decide)

theorem slots_le_iff {size count : Nat} : (size - headerDifat) ⌈/⌉ (sectorSize / 4 - 1) ≤ count ↔ size ≤ 109 + 127 * count := by
  rw [ceilDiv_le_iff_le_mul (by decide), Nat.sub_le_iff_le_add']
  rfl

/-- What holds of as many sectors as are asked for, or more. -/
theorem needed_le_iff {c d : Nat × Nat} :
    needed dataCount c ≤ d ↔ dataCount + c.1 + c.2 ≤ 128 * d.1 ∧ (needed dataCount c).1 ≤ 109 + 127 * d.2 := by
  rw [Prod.le_def]
  exact and_congr sectors_le_iff slots_le_iff

theorem needed_mono : Monotone (needed dataCount) := by
  intro c d hcd
  obtain ⟨hfat, hdifat⟩ := Prod.le_def.mp hcd
  have hfirst : (needed dataCount c).1 ≤ (needed dataCount d).1 :=
    sectors_le_iff.mpr (le_trans (by omega) (sectors_le_iff.mp le_rfl : dataCount + d.1 + d.2 ≤ _))
  exact needed_le_iff.mpr ⟨sectors_le_iff.mp hfirst, hfirst.trans (slots_le_iff.mp le_rfl)⟩

/-- So many sectors are enough. -/
theorem needed_enough : needed dataCount (dataCount + 1, dataCount + 1) ≤ (dataCount + 1, dataCount + 1) := by
  have hfirst : (needed dataCount (dataCount + 1, dataCount + 1)).1 ≤ dataCount + 1 := sectors_le_iff.mpr (by omega)
  exact needed_le_iff.mpr ⟨by omega, by omega⟩

theorem sum_strictMono : StrictMono fun c : Nat × Nat => c.1 + c.2 := by
  intro c d hcd
  obtain ⟨hfirst, hsecond⟩ | ⟨hfirst, hsecond⟩ := Prod.lt_iff.mp hcd
  · exact Nat.add_lt_add_of_lt_of_le hfirst hsecond
  · exact Nat.add_lt_add_of_le_of_lt hfirst hsecond

/-- The loop ends, with the fewest sectors that are enough. -/
theorem sizing_ends (dataCount : Nat) : ∃ fat difat, (∀ fuel, 2 * dataCount + 3 ≤ fuel → sizing dataCount fuel = .ok (fat, difat)) ∧
    needed dataCount (fat, difat) = (fat, difat) ∧ ∀ c, needed dataCount c ≤ c → (fat, difat) ≤ c := by
  have hzero (c : Nat × Nat) : (0, 0) ≤ c := Prod.le_def.mpr ⟨Nat.zero_le _, Nat.zero_le _⟩
  have hends : ∃ c, saturate (needed dataCount) (2 * dataCount + 3) (0, 0) = some c :=
    saturate_ends needed_mono sum_strictMono (hzero _) (hzero _) needed_enough (by dsimp only; omega)
  obtain ⟨⟨fat, difat⟩, hends⟩ := hends
  refine ⟨fat, difat, fun fuel hfuel => ?_, saturate_fixed hends, fun c hc => ?_⟩
  · rw [sizing, saturate_mono hends hfuel]
  · exact saturate_least needed_mono hends (hzero c) hc

theorem needed_fixed {fat difat : Nat} (h : needed dataCount (fat, difat) = (fat, difat)) :
    dataCount + fat + difat ≤ 128 * fat ∧ fat ≤ 109 + 127 * difat := by
  obtain ⟨htable, hslots⟩ := needed_le_iff.mp (le_of_eq h)
  rw [h] at hslots
  exact ⟨htable, hslots⟩

end Sizing

/-! The table. -/

/-- What the table says of a chain of `count` sectors. -/
def chainEntries (first count : Nat) : List Nat := if count = 0 then [] else List.range' (first + 1) (count - 1) ++ [endOfChain]

/-- Of one chain behind the other. -/
def chainsEntries (first : Nat) : List Nat → List Nat
  | [] => []
  | count :: counts => chainEntries first count ++ chainsEntries (first + count) counts

@[simp] theorem length_chainEntries (first count : Nat) : (chainEntries first count).length = count := by
  unfold chainEntries
  split
  · rename_i hzero
    exact hzero.symm
  · rw [List.length_append, List.length_range', List.length_singleton]
    omega

@[simp] theorem length_chainsEntries (first : Nat) (counts : List Nat) : (chainsEntries first counts).length = counts.sum := by
  induction counts generalizing first with
  | nil => rfl
  | cons count counts ih => rw [chainsEntries, List.length_append, length_chainEntries, ih, List.sum_cons]

theorem chainsEntries_append (first : Nat) (counts more : List Nat) :
    chainsEntries first (counts ++ more) = chainsEntries first counts ++ chainsEntries (first + counts.sum) more := by
  induction counts generalizing first with
  | nil => rfl
  | cons count counts ih =>
    rw [List.cons_append, chainsEntries, ih, chainsEntries, List.append_assoc, List.sum_cons, Nat.add_assoc]

/-- A sector of a chain leads to the next one, or ends the chain. -/
theorem getElem?_chainEntries {first count i : Nat} (h : i < count) :
    (chainEntries first count)[i]? = some (if i + 1 = count then endOfChain else first + i + 1) := by
  have hlength : (List.range' (first + 1) (count - 1)).length = count - 1 := List.length_range'
  rw [chainEntries, if_neg (by omega)]
  by_cases hlast : i + 1 = count
  · rw [List.getElem?_append_right (by omega), hlength, if_pos hlast, show i - (count - 1) = 0 by omega]
    rfl
  · rw [List.getElem?_append_left (by omega), List.getElem?_range' (by omega), if_neg hlast]
    exact congrArg some (by omega)

theorem chainsEntries_leads {counts : List Nat} (first : Nat) {i : Nat} (h : i < counts.sum) :
    (chainsEntries first counts)[i]? = some endOfChain ∨ (chainsEntries first counts)[i]? = some (first + i + 1) := by
  induction counts generalizing first i with
  | nil => exact absurd h (Nat.not_lt_zero i)
  | cons count counts ih =>
    rw [List.sum_cons] at h
    rw [chainsEntries]
    by_cases hi : i < count
    · rw [List.getElem?_append_left (by rwa [length_chainEntries]), getElem?_chainEntries hi]
      split
      · exact .inl rfl
      · exact .inr rfl
    · rw [List.getElem?_append_right (by rw [length_chainEntries]; omega), length_chainEntries]
      have hplace : first + count + (i - count) = first + i := by omega
      rw [← hplace]
      exact ih _ (by omega)

/-- The table in front of the cursor is made, and all behind it is free. -/
structure Filled (f : Fat) (made : List Nat) (free : Nat) : Prop where
  entries : f.entries = made ++ List.replicate free freeSect
  cursor : f.cursor = made.length

theorem put_next (made : List Nat) (x v : Nat) (rest : List Nat) :
    put (made ++ x :: rest) made.length v = .ok (made ++ v :: rest) := by
  rw [put, if_pos (by rw [List.length_append, List.length_cons]; omega), List.set_append_right _ _ le_rfl, Nat.sub_self,
    List.set_cons_zero]

/-- Writing one entry after the other. -/
theorem put_all (made : List Nat) (v : Nat → Nat) (count free : Nat) :
    (List.range count).foldlM (fun fat i => put fat (made.length + i) (v i)) (made ++ List.replicate (count + free) freeSect) =
      (.ok (made ++ (List.range count).map v ++ List.replicate free freeSect) : Writing (List Nat)) := by
  induction count generalizing free with
  | zero => rw [Nat.zero_add, List.range_zero, List.map_nil, List.append_nil, List.foldlM_nil]; rfl
  | succ count ih =>
    have hnext := put_next (made ++ (List.range count).map v) freeSect (v count) (List.replicate free freeSect)
    rw [List.length_append, List.length_map, List.length_range] at hnext
    rw [List.range_succ, List.foldlM_append, show count + 1 + free = count + (free + 1) by omega, ih (free + 1),
      Checks.ok_bind, List.foldlM_cons, List.replicate_succ, hnext, Checks.ok_bind, List.foldlM_nil, List.map_append,
      List.map_singleton, List.append_assoc, List.append_assoc, List.append_assoc]
    rfl

theorem place_filled {f : Fat} {made : List Nat} {count free : Nat} (h : Filled f made (count + free)) :
    ∃ f', place count f = .ok (if count = 0 then endOfChain else made.length, f') ∧
      Filled f' (made ++ chainEntries made.length count) free := by
  obtain ⟨entries, cursor⟩ := f
  obtain ⟨rfl, rfl⟩ := h
  unfold place chainEntries
  cases count with
  | zero =>
    refine ⟨_, rfl, ?_, ?_⟩
    · rw [Nat.zero_add, if_pos rfl, List.append_nil]
    · rw [if_pos rfl, List.append_nil]
  | succ count =>
    have hall := put_all made (fun i => made.length + i + 1) count (free + 1)
    rw [show count + (free + 1) = count + 1 + free by omega] at hall
    have hlinked : (List.range count).map (fun i => made.length + i + 1) = List.range' (made.length + 1) count := by
      rw [List.range'_eq_map_range]
      exact List.map_congr_left fun i _ => by omega
    rw [hlinked] at hall
    have hlast := put_next (made ++ List.range' (made.length + 1) count) freeSect endOfChain (List.replicate free freeSect)
    rw [List.length_append, List.length_range'] at hlast
    refine ⟨⟨made ++ List.range' (made.length + 1) count ++ endOfChain :: List.replicate free freeSect, made.length + (count + 1)⟩, ?_, ?_, ?_⟩
    · dsimp only
      rw [if_neg (Nat.succ_ne_zero count), if_neg (Nat.succ_ne_zero count), Nat.add_sub_cancel, hall, Checks.ok_bind,
        List.replicate_succ, show made.length + (count + 1) - 1 = made.length + count by omega, hlast]
      rfl
    · simp
    · simp

/-- Where the chains of the long streams start. -/
def bigStarts (first : Nat) : List (Entry × Nat) → (Nat → Nat) → Nat → Nat
  | [], start => start
  | (node, count) :: rest, start =>
    bigStarts (first + count) rest (Function.update start node.sid (if count = 0 then endOfChain else first))

theorem placeBig_filled {bigs : List (Entry × Nat)} (start : Nat → Nat) {f : Fat} {made : List Nat} {free : Nat}
    (h : Filled f made ((bigs.map Prod.snd).sum + free)) :
    ∃ f', bigs.foldlM placeBig (start, f) = .ok (bigStarts made.length bigs start, f') ∧
      Filled f' (made ++ chainsEntries made.length (bigs.map Prod.snd)) free := by
  induction bigs generalizing start f made with
  | nil => exact ⟨f, rfl, by simpa [chainsEntries] using h⟩
  | cons big bigs ih =>
    obtain ⟨node, count⟩ := big
    rw [List.map_cons, List.sum_cons, Nat.add_assoc] at h
    obtain ⟨f', hplace, hfilled⟩ := place_filled h
    obtain ⟨f'', hrest, hend⟩ := ih (Function.update start node.sid (if count = 0 then endOfChain else made.length)) hfilled
    rw [List.length_append, length_chainEntries] at hrest hend
    refine ⟨f'', ?_, ?_⟩
    · rw [List.foldlM_cons, placeBig, hplace, Checks.ok_bind]
      exact hrest
    · rwa [List.map_cons, chainsEntries, ← List.append_assoc]

theorem mark_filled {f : Fat} {made : List Nat} {v count free : Nat} (h : Filled f made (count + free)) :
    ∃ f', mark v count f = .ok (List.range' made.length count, f') ∧ Filled f' (made ++ List.replicate count v) free := by
  obtain ⟨entries, cursor⟩ := f
  obtain ⟨rfl, rfl⟩ := h
  have hall := put_all made (fun _ => v) count free
  rw [List.map_const', List.length_range] at hall
  refine ⟨⟨made ++ List.replicate count v ++ List.replicate free freeSect, made.length + count⟩, ?_, rfl, ?_⟩
  · rw [mark, List.range'_eq_map_range, List.foldlM_map, hall]
    rfl
  · rw [List.length_append, List.length_replicate]

/-! The layout. -/

/-- The number a chain of `count` sectors is named by. -/
def startAt (first count : Nat) : Nat := if count = 0 then endOfChain else first

/-- What the layout is with so many FAT and DIFAT sectors. -/
def laidOut (counts : Counts) (s : Streams) (fatCount difatCount : Nat) : Layout where
  counts := counts
  fatCount := fatCount
  difatCount := difatCount
  fat := chainsEntries 0 (counts.bigs ++ [counts.mini, counts.minifat, counts.dir]) ++
    List.replicate fatCount fatSect ++ List.replicate difatCount difSect ++
    List.replicate (128 * fatCount - (counts.data + fatCount + difatCount)) freeSect
  start := bigStarts 0 (s.big.zip counts.bigs) s.start
  miniStart := startAt counts.bigs.sum counts.mini
  minifatStart := startAt (counts.bigs.sum + counts.mini) counts.minifat
  dirStart := startAt (counts.bigs.sum + counts.mini + counts.minifat) counts.dir
  fatSectors := List.range' counts.data fatCount
  difatSectors := List.range' (counts.data + fatCount) difatCount

theorem layout_eq {nodes : List Entry} {s : Streams} {counts : Counts} {fatCount difatCount : Nat} (hcounts : countsOf nodes s = counts)
    (hsizing : sizing counts.data (2 * counts.data + 3) = .ok (fatCount, difatCount))
    (htable : counts.data + fatCount + difatCount ≤ 128 * fatCount) :
    layout nodes s = .ok (laidOut counts s fatCount difatCount) := by
  have hbigs : (s.big.zip counts.bigs).map Prod.snd = counts.bigs := by
    refine List.map_snd_zip ?_
    rw [← hcounts, countsOf, List.length_map]
  obtain ⟨free, hfree⟩ := Nat.exists_eq_add_of_le htable
  have hroom : fatCount * (sectorSize / 4) =
      counts.bigs.sum + (counts.mini + (counts.minifat + (counts.dir + (fatCount + (difatCount + free))))) := by
    rw [show sectorSize / 4 = 128 from rfl]
    unfold Counts.data at hfree
    omega
  have hempty : Filled ⟨List.replicate (fatCount * (sectorSize / 4)) freeSect, 0⟩ []
      (((s.big.zip counts.bigs).map Prod.snd).sum +
        (counts.mini + (counts.minifat + (counts.dir + (fatCount + (difatCount + free)))))) := by
    rw [hbigs, ← hroom]
    exact ⟨rfl, rfl⟩
  obtain ⟨f₁, hbig, h₁⟩ := placeBig_filled s.start hempty
  obtain ⟨f₂, hmini, h₂⟩ := place_filled h₁
  obtain ⟨f₃, hminifat, h₃⟩ := place_filled h₂
  obtain ⟨f₄, hdir, h₄⟩ := place_filled h₃
  obtain ⟨f₅, hfat, h₅⟩ := mark_filled (v := fatSect) h₄
  obtain ⟨f₆, hdifat, h₆⟩ := mark_filled (v := difSect) h₅
  simp only [List.nil_append, List.length_nil, List.length_append, length_chainEntries, length_chainsEntries, hbigs,
    List.length_replicate] at hbig hmini hminifat hdir hfat hdifat h₆
  have hentries := h₆.entries
  have hleft : 128 * fatCount - (counts.data + fatCount + difatCount) = free := by omega
  rw [layout, hcounts, hsizing]
  simp only [Checks.ok_bind, hbig, hmini, hminifat, hdir, hfat, hdifat, hentries]
  rw [Counts.data] at hleft
  simp only [laidOut, startAt, Counts.data, hleft, chainsEntries_append, chainsEntries, Nat.zero_add, List.append_nil,
    List.append_assoc]
  rfl

/-! The slots of the FAT sectors. -/

/-- Cut into pieces of one length, of which the last are filled up. -/
theorem flatMap_filled {n k : Nat} {xs : List Nat} (h : xs.length ≤ k * n) (v : Nat) :
    ((List.range k).flatMap fun i => (xs.drop (i * n)).take n ++ List.replicate (n - ((xs.drop (i * n)).take n).length) v) =
      xs ++ List.replicate (k * n - xs.length) v := by
  have hpiece : ∀ i ∈ List.range k, (xs.drop (i * n)).take n ++ List.replicate (n - ((xs.drop (i * n)).take n).length) v =
      ((xs ++ List.replicate (k * n - xs.length) v).drop (i * n)).take n := by
    intro i hi
    have hroom : (i + 1) * n ≤ k * n := Nat.mul_le_mul_right n (List.mem_range.mp hi)
    rw [Nat.succ_mul] at hroom
    rw [List.drop_append, List.take_append, List.length_drop, List.length_take, List.length_drop, List.drop_replicate,
      List.take_replicate]
    congr 2
    omega
  have hcut : ∀ m (ys : List Nat), (List.range m).flatMap (fun i => (ys.drop (i * n)).take n) = ys.take (m * n) := by
    intro m ys
    induction m with
    | zero => rw [Nat.zero_mul, List.take_zero]; rfl
    | succ m ih => rw [List.range_succ, List.flatMap_append, ih, Nat.succ_mul, List.take_add, List.flatMap_singleton]
  rw [List.flatMap_congr hpiece, hcut, List.take_of_length_le]
  rw [List.length_append, List.length_replicate]
  omega

theorem slots_laidOut {counts : Counts} {s : Streams} {fatCount difatCount : Nat} (h : fatCount ≤ 109 + 127 * difatCount) :
    headDifat (laidOut counts s fatCount difatCount) ++
        (List.range difatCount).flatMap (difatChunk (laidOut counts s fatCount difatCount)) =
      List.range' counts.data fatCount ++ List.replicate (109 + 127 * difatCount - fatCount) freeSect := by
  set sectors := List.range' counts.data fatCount with hsectors
  have hlength : sectors.length = fatCount := List.length_range'
  have hrest : (sectors.drop 109).length ≤ difatCount * 127 := by
    rw [List.length_drop, hlength]
    omega
  have hchunks : (List.range difatCount).flatMap (difatChunk (laidOut counts s fatCount difatCount)) =
      sectors.drop 109 ++ List.replicate (difatCount * 127 - (sectors.drop 109).length) freeSect :=
    flatMap_filled hrest freeSect
  have hhead : headDifat (laidOut counts s fatCount difatCount) =
      sectors.take 109 ++ List.replicate (109 - min 109 fatCount) freeSect := rfl
  rw [hchunks, hhead, List.length_drop, hlength]
  obtain hfew | hmany := Nat.le_total fatCount 109
  · rw [List.take_of_length_le (by omega), List.drop_eq_nil_of_le (by omega), List.nil_append, List.append_assoc,
      List.replicate_append_replicate]
    congr 2
    omega
  · rw [Nat.min_eq_left hmany, Nat.sub_self, List.replicate_zero, List.append_nil, ← List.append_assoc, List.take_append_drop]
    congr 2
    omega

/-- Every sector has its entry in the table, and every sector of the table its slot. -/
structure Covered (l : Layout) : Prop where
  table : l.fat.length = 128 * l.fatCount
  data : ∀ i < l.counts.data, l.fat[i]? = some endOfChain ∨ l.fat[i]? = some (i + 1)
  fatSectors : l.fatSectors = List.range' l.counts.data l.fatCount
  fat : ∀ i ∈ l.fatSectors, l.fat[i]? = some fatSect
  difatSectors : l.difatSectors = List.range' (l.counts.data + l.fatCount) l.difatCount
  difat : ∀ i ∈ l.difatSectors, l.fat[i]? = some difSect
  head : (headDifat l).length = 109
  chunk : ∀ i < l.difatCount, (difatChunk l i).length = 127
  slots : headDifat l ++ (List.range l.difatCount).flatMap (difatChunk l) =
    l.fatSectors ++ List.replicate (109 + 127 * l.difatCount - l.fatCount) freeSect

theorem getElem?_mid {xs ys : List Nat} {n v i : Nat} (h : i ∈ List.range' xs.length n) :
    (xs ++ List.replicate n v ++ ys)[i]? = some v := by
  obtain ⟨hfrom, hto⟩ := List.mem_range'_1.mp h
  rw [List.getElem?_append_left (by rw [List.length_append, List.length_replicate]; omega),
    List.getElem?_append_right hfrom, List.getElem?_replicate, if_pos (by omega)]

theorem covered_laidOut {counts : Counts} {s : Streams} {fatCount difatCount : Nat}
    (htable : counts.data + fatCount + difatCount ≤ 128 * fatCount) (hslots : fatCount ≤ 109 + 127 * difatCount) :
    Covered (laidOut counts s fatCount difatCount) := by
  set chains := chainsEntries 0 (counts.bigs ++ [counts.mini, counts.minifat, counts.dir]) with hchains
  have hsum : (counts.bigs ++ [counts.mini, counts.minifat, counts.dir]).sum = counts.data := by
    rw [Counts.data, List.sum_append, List.sum_cons, List.sum_cons, List.sum_singleton]
    omega
  have hlength : chains.length = counts.data := by rw [hchains, length_chainsEntries, hsum]
  have hfat : (laidOut counts s fatCount difatCount).fat = chains ++ List.replicate fatCount fatSect ++ List.replicate difatCount difSect ++
      List.replicate (128 * fatCount - (counts.data + fatCount + difatCount)) freeSect := rfl
  refine ⟨?_, fun i hi => ?_, rfl, fun i hi => ?_, rfl, fun i hi => ?_, ?_, fun i hi => ?_, slots_laidOut hslots⟩
  · rw [hfat]
    simp only [List.length_append, List.length_replicate, hlength]
    change _ = 128 * fatCount
    omega
  · have hin : i < counts.data := hi
    rw [hfat, List.append_assoc, List.append_assoc, List.getElem?_append_left (by omega)]
    have hleads := chainsEntries_leads 0 (hsum ▸ hin)
    rwa [Nat.zero_add] at hleads
  · rw [hfat, List.append_assoc]
    exact getElem?_mid (hlength ▸ hi)
  · rw [hfat]
    refine getElem?_mid ?_
    rw [List.length_append, List.length_replicate, hlength]
    exact hi
  · have hsectors : (List.range' counts.data fatCount).length = fatCount := List.length_range'
    change ((List.range' counts.data fatCount).take 109 ++ List.replicate (109 - min 109 fatCount) freeSect).length = 109
    rw [List.length_append, List.length_take, hsectors, List.length_replicate]
    omega
  · unfold difatChunk
    dsimp only
    rw [List.length_append, List.length_replicate, List.length_take]
    exact Nat.add_sub_of_le (Nat.min_le_left _ _)

/-- The sizes are the least that are enough, and with them everything has its place. -/
theorem layout_covers (nodes : List Entry) : ∃ l, layout nodes (streamsOf nodes) = .ok l ∧ l.counts = countsOf nodes (streamsOf nodes) ∧
    (∀ fuel, 2 * l.counts.data + 3 ≤ fuel → sizing l.counts.data fuel = .ok (l.fatCount, l.difatCount)) ∧
    l.counts.data + l.fatCount + l.difatCount ≤ 128 * l.fatCount ∧ l.fatCount ≤ 109 + 127 * l.difatCount ∧
    needed l.counts.data (l.fatCount, l.difatCount) = (l.fatCount, l.difatCount) ∧
    (∀ fat difat, needed l.counts.data (fat, difat) = (fat, difat) → l.fatCount ≤ fat ∧ l.difatCount ≤ difat) ∧ Covered l := by
  obtain ⟨fat, difat, hends, hfixed, hleast⟩ := sizing_ends (countsOf nodes (streamsOf nodes)).data
  obtain ⟨htable, hslots⟩ := needed_fixed hfixed
  refine ⟨_, layout_eq rfl (hends _ le_rfl) htable, rfl, hends, htable, hslots, hfixed, fun f d hfd => ?_, covered_laidOut htable hslots⟩
  exact Prod.le_def.mp (hleast (f, d) (le_of_eq hfd))

end XgenSdk.Cfb
