import XgenSdk.ControlPolicy.CfbLayout
import XgenSdk.ControlPolicy.Cfb

/-! Reading the sectors of a written compound file: its header, its tables and its
chains. -/
namespace XgenSdk.Cfb
open XgenSdk.Py XgenSdk.Checks
open XgenSdk.Splice (slice)

/-! Numbers in bytes. -/

section Numbers
variable {n : Nat} {vs : List Nat}

theorem pack_ok {bytes : Bytes} (h : pack n vs = .ok bytes) :
    (∀ v ∈ vs, v < 256 ^ n) ∧ vs.flatMap (Struct.leBytes n) = bytes := by
  unfold pack at h
  split at h
  · rename_i hall
    exact ⟨fun v hv => of_decide_eq_true (List.all_eq_true.mp hall v hv), Except.ok.inj h⟩
  · cases h

theorem pack_eq (h : ∀ v ∈ vs, v < 256 ^ n) : pack n vs = .ok (vs.flatMap (Struct.leBytes n)) :=
  if_pos (List.all_eq_true.mpr fun v hv => decide_eq_true (h v hv))

theorem length_flatMap_leBytes (n : Nat) (vs : List Nat) : (vs.flatMap (Struct.leBytes n)).length = n * vs.length := by
  induction vs with
  | nil => rfl
  | cons v vs ih =>
    rw [List.flatMap_cons, List.length_append, Struct.length_leBytes, ih, List.length_cons, Nat.mul_succ]
    omega

theorem words_append {a : Bytes} (h : a.length = 4 * n) (b : Bytes) : words (a ++ b) = words a ++ words b := by
  induction n generalizing a with
  | zero =>
    obtain rfl : a = [] := List.length_eq_zero_iff.mp (by omega)
    rfl
  | succ n ih =>
    obtain _ | ⟨w, _ | ⟨x, _ | ⟨y, _ | ⟨z, rest⟩⟩⟩⟩ := a <;> simp only [List.length_cons, List.length_nil] at h <;> try omega
    have hrest := ih (a := rest) (by omega)
    simp only [List.cons_append, words, hrest]

theorem words_flatMap (h : ∀ v ∈ vs, v < 256 ^ 4) : words (vs.flatMap (Struct.leBytes 4)) = vs := by
  induction vs with
  | nil => rfl
  | cons v vs ih =>
    have hone : words (Struct.leBytes 4 v) = [Struct.leNat (Struct.leBytes 4 v)] := rfl
    rw [List.forall_mem_cons] at h
    rw [List.flatMap_cons, words_append (n := 1) (Struct.length_leBytes 4 v), hone, Struct.leNat_leBytes h.1, ih h.2]
    rfl

/-- The `i`-th of the numbers is where it was packed. -/
theorem unpack_flatMap {i v : Nat} (h : ∀ v ∈ vs, v < 256 ^ n) (hi : vs[i]? = some v) (rest : Bytes) :
    Struct.unpack n (vs.flatMap (Struct.leBytes n) ++ rest) (n * i) = some v := by
  induction vs generalizing i with
  | nil => cases hi
  | cons w vs ih =>
    rw [List.forall_mem_cons] at h
    rw [List.flatMap_cons, List.append_assoc]
    cases i with
    | zero =>
      obtain rfl := Option.some.inj hi
      exact Struct.unpack_leBytes h.1 _
    | succ i =>
      have hskip := Struct.unpack_append_right n (Struct.leBytes n w) (vs.flatMap (Struct.leBytes n) ++ rest) (n * i)
      rw [Struct.length_leBytes] at hskip
      rw [Nat.mul_succ, Nat.add_comm, hskip]
      exact ih h.2 hi

theorem unpackAll_flatMap (h : ∀ v ∈ vs, v < 256 ^ 4) : unpackAll vs.length (vs.flatMap (Struct.leBytes 4)) = .ok vs := by
  rw [unpackAll, if_pos (length_flatMap_leBytes 4 vs), words_flatMap h]

end Numbers

/-! Sectors. -/

theorem slice_mid {α : Type} (a b c : List α) : slice (a ++ (b ++ c)) a.length (a.length + b.length) = b := by
  rw [slice, ← List.append_assoc, ← List.length_append, List.take_left, List.drop_left]

theorem slice_at {raw piece : Bytes} {a b : Nat} (before after : Bytes) (hraw : raw = before ++ (piece ++ after)) (ha : a = before.length)
    (hb : b = before.length + piece.length) : slice raw a b = piece := by
  rw [hraw, ha, hb, slice_mid]

/-- These bytes are in the file from sector `k` on. -/
structure Lies (f : File) (k : Nat) (bytes : Bytes) : Prop where
  sector : f.sector = 512
  place : ∃ head after, head.length = 512 * (k + 1) ∧ f.raw = head ++ (bytes ++ after)

section Sectors
variable {f : File} {k n : Nat} {bytes : Bytes}

theorem Lies.left {a b : Bytes} (h : Lies f k (a ++ b)) : Lies f k a := by
  obtain ⟨hsector, head, after, hhead, hraw⟩ := h
  exact ⟨hsector, head, b ++ after, hhead, by rw [hraw, List.append_assoc]⟩

theorem Lies.right {a b : Bytes} (h : Lies f k (a ++ b)) (ha : a.length = 512 * n) : Lies f (k + n) b := by
  obtain ⟨hsector, head, after, hhead, hraw⟩ := h
  refine ⟨hsector, head ++ a, after, ?_, by rw [hraw, List.append_assoc, List.append_assoc]⟩
  rw [List.length_append, hhead, ha]
  omega

theorem Lies.count_le (h : Lies f k bytes) (hbytes : bytes.length = 512 * n) : k + n ≤ f.count := by
  obtain ⟨hsector, head, after, hhead, hraw⟩ := h
  rw [File.count, hsector, hraw, List.length_append, List.length_append, hhead, hbytes]
  omega

theorem Lies.sectorBytes (h : Lies f k bytes) (hbytes : bytes.length = 512) : Cfb.sectorBytes f k = .ok bytes := by
  have hcount := h.count_le (n := 1) hbytes
  obtain ⟨hsector, head, after, hhead, hraw⟩ := h
  have hmid := slice_mid head bytes after
  rw [hhead, hbytes, ← hraw, Nat.mul_comm] at hmid
  rw [Cfb.sectorBytes, if_neg (by omega), hsector, hmid]

theorem Lies.mapM_sectorBytes {pieces : List Bytes} (h : Lies f k pieces.flatten) (hpieces : ∀ p ∈ pieces, p.length = 512) :
    (List.range' k pieces.length).mapM (Cfb.sectorBytes f) = .ok pieces := by
  induction pieces generalizing k with
  | nil => rfl
  | cons piece pieces ih =>
    rw [List.forall_mem_cons] at hpieces
    rw [List.flatten_cons] at h
    have hlater := ih (h.right (n := 1) hpieces.1) hpieces.2
    rw [List.length_cons, List.range'_succ, List.mapM_cons, h.left.sectorBytes hpieces.1, ok_bind, hlater]
    rfl

theorem exists_pieces (h : bytes.length = 512 * n) :
    ∃ pieces : List Bytes, pieces.flatten = bytes ∧ pieces.length = n ∧ ∀ p ∈ pieces, p.length = 512 := by
  induction n generalizing bytes with
  | zero => exact ⟨[], (List.length_eq_zero_iff.mp (by omega)).symm, rfl, fun p hp => absurd hp List.not_mem_nil⟩
  | succ n ih =>
    have hrest : (bytes.drop 512).length = 512 * n := by
      rw [List.length_drop]
      omega
    obtain ⟨pieces, hflat, hlength, hpieces⟩ := ih hrest
    refine ⟨bytes.take 512 :: pieces, ?_, ?_, List.forall_mem_cons.mpr ⟨?_, hpieces⟩⟩
    · rw [List.flatten_cons, hflat, List.take_append_drop]
    · rw [List.length_cons, hlength]
    · rw [List.length_take]
      omega

theorem length_flatten_pieces {pieces : List Bytes} (h : ∀ p ∈ pieces, p.length = n) : pieces.flatten.length = n * pieces.length := by
  induction pieces with
  | nil => rfl
  | cons piece pieces ih =>
    rw [List.forall_mem_cons] at h
    rw [List.flatten_cons, List.length_append, h.1, ih h.2, List.length_cons, Nat.mul_succ]
    omega

theorem words_flatten {pieces : List Bytes} (h : ∀ p ∈ pieces, p.length = 512) : words pieces.flatten = (pieces.map words).flatten := by
  induction pieces with
  | nil => rfl
  | cons piece pieces ih =>
    rw [List.forall_mem_cons] at h
    rw [List.flatten_cons, words_append (n := 128) h.1, ih h.2]
    rfl

theorem mapM_sectorWords {sectors : List Nat} {pieces : List Bytes} (hsector : f.sector = 512)
    (h : sectors.mapM (sectorBytes f) = .ok pieces) (hpieces : ∀ p ∈ pieces, p.length = 512) :
    sectors.mapM (sectorWords f) = .ok (pieces.map words) := by
  have hper : f.perSector = 128 := by rw [File.perSector, hsector]
  induction sectors generalizing pieces with
  | nil =>
    obtain rfl := Except.ok.inj h
    rfl
  | cons sector sectors ih =>
    rw [List.mapM_cons] at h
    obtain ⟨piece, hpiece, h⟩ := bind_ok h
    obtain ⟨rest, hrest, h⟩ := bind_ok h
    obtain rfl := Except.ok.inj h
    rw [List.forall_mem_cons] at hpieces
    rw [List.mapM_cons, ih hrest hpieces.2, sectorWords, hpiece, ok_bind, hper, unpackAll, if_pos (by rw [hpieces.1])]
    rfl

/-- The numbers in all of the sectors. -/
theorem Lies.words {vs : List Nat} (h : Lies f k (vs.flatMap (Struct.leBytes 4))) (hvs : ∀ v ∈ vs, v < 256 ^ 4)
    (hlength : vs.length = 128 * n) : ∃ parts, (List.range' k n).mapM (sectorWords f) = .ok parts ∧ parts.flatten = vs := by
  have hbytes : (vs.flatMap (Struct.leBytes 4)).length = 512 * n := by
    rw [length_flatMap_leBytes, hlength]
    omega
  obtain ⟨pieces, hflat, rfl, hpieces⟩ := exists_pieces hbytes
  rw [← hflat] at h
  refine ⟨_, mapM_sectorWords h.sector (h.mapM_sectorBytes hpieces) hpieces, ?_⟩
  rw [← words_flatten hpieces, hflat, words_flatMap hvs]

end Sectors

/-! Chains. -/

section Chains
variable {table : List Nat} {first count : Nat}

/-- A chain that runs on from sector to sector. -/
theorem chainLoop_run (htable : ∀ i < count, table[first + i]? = some (if i + 1 = count then endOfChain else first + i + 1))
    (hregular : first + count ≤ maxRegSect + 1) {i fuel : Nat} (hi : i < count) (hfuel : count < i + fuel) :
    chainLoop table fuel (first + i) (List.range' first i) = .ok (List.range' first count) := by
  induction fuel generalizing i with
  | zero => omega
  | succ fuel ih =>
    have hnext := htable i hi
    have hin : first + i < table.length := (List.getElem?_eq_some_iff.mp hnext).1
    have hfresh : ¬ ((List.range' first i).contains (first + i) || decide (table.length ≤ first + i)) = true := by
      simp only [Bool.or_eq_true, List.contains_iff_mem, List.mem_range'_1, decide_eq_true_eq]
      omega
    have hgrown : List.range' first i ++ [first + i] = List.range' first (i + 1) := by
      rw [List.range'_concat, Nat.one_mul]
    rw [chainLoop, if_neg (by omega), if_neg hfresh, item, hnext]
    simp only [ok_bind, hgrown]
    by_cases hlast : i + 1 = count
    · obtain ⟨fuel, rfl⟩ : ∃ m, fuel = m + 1 := ⟨fuel - 1, by omega⟩
      rw [if_pos hlast, chainLoop, if_pos (by decide), hlast]
    · rw [if_neg hlast, Nat.add_assoc]
      exact ih (by omega) (by omega)

theorem chain_startAt (htable : ∀ i < count, table[first + i]? = some (if i + 1 = count then endOfChain else first + i + 1))
    (hregular : first + count ≤ maxRegSect + 1) : chain (startAt first count) table = .ok (List.range' first count) := by
  unfold chain startAt
  cases count with
  | zero =>
    rw [if_pos rfl, chainLoop, if_pos (by decide)]
    rfl
  | succ count =>
    have hlast := (List.getElem?_eq_some_iff.mp (htable count (Nat.lt_succ_self count))).1
    rw [if_neg (Nat.succ_ne_zero count)]
    exact chainLoop_run htable hregular (i := 0) (Nat.succ_pos count) (by omega)

theorem leads_append {before after : List Nat} (hbefore : before.length = first) :
    ∀ i < count, (before ++ chainEntries first count ++ after)[first + i]? =
      some (if i + 1 = count then endOfChain else first + i + 1) := by
  intro i hi
  rw [List.append_assoc, List.getElem?_append_right (by omega), List.getElem?_append_left (by rw [length_chainEntries]; omega),
    show first + i - before.length = i by omega, getElem?_chainEntries hi]

end Chains

theorem Lies.regular {f : File} {fat : List Nat} {first count : Nat} {bytes : Bytes} (h : Lies f first bytes)
    (hbytes : bytes.length = 512 * count) (hchain : chain (startAt first count) fat = .ok (List.range' first count)) :
    Cfb.regular f fat (startAt first count) = .ok bytes := by
  obtain ⟨pieces, rfl, rfl, hpieces⟩ := exists_pieces hbytes
  rw [Cfb.regular, hchain, ok_bind, h.mapM_sectorBytes hpieces]
  rfl

/-! The header. -/

theorem unpackFrom_field {n i v at_ : Nat} {vs : List Nat} {raw : Bytes} (before after : Bytes) (hvs : ∀ v ∈ vs, v < 256 ^ n)
    (hraw : raw = before ++ (vs.flatMap (Struct.leBytes n) ++ after)) (hat : at_ = before.length + n * i) (hi : vs[i]? = some v) :
    unpackFrom n raw at_ = .ok v := by
  rw [unpackFrom, hraw, hat, Struct.unpack_append_right, unpack_flatMap hvs hi]

/-- What the reader finds in a written header. -/
structure Headed (l : Layout) (raw : Bytes) : Prop where
  readable : readHeader raw = .ok ⟨raw, 512, 3⟩
  slots : unpackAll headerDifat (slice raw 0x4C (0x4C + 4 * headerDifat)) = .ok (headDifat l)
  dirStart : u32 raw 0x30 = .ok l.dirStart
  cutoff : u32 raw 0x38 = .ok miniCutoffSize
  minifatStart : u32 raw 0x3C = .ok (if l.counts.minifat ≠ 0 then l.minifatStart else endOfChain)
  minifat : u32 raw 0x40 = .ok l.counts.minifat
  difat : u32 raw 0x44 = .ok (l.difatSectors.head?.getD endOfChain)

theorem header_headed {l : Layout} {head : Bytes} (h : header l = .ok head) (hslots : (headDifat l).length = headerDifat)
    (rest : Bytes) : head.length = 512 ∧ Headed l (head ++ rest) := by
  obtain ⟨versions, hversions, h⟩ := bind_ok h
  obtain ⟨fields, hfields, h⟩ := bind_ok h
  obtain ⟨slots, hpacked, h⟩ := bind_ok h
  obtain rfl := Except.ok.inj h
  obtain ⟨hsmall, rfl⟩ := pack_ok hversions
  obtain ⟨hlow, rfl⟩ := pack_ok hfields
  obtain ⟨hslotsLow, rfl⟩ := pack_ok hpacked
  obtain ⟨versions, hversions⟩ : ∃ vs, vs = [0x003E, 0x0003, 0xFFFE, 9, 6] := ⟨_, rfl⟩
  obtain ⟨fields, hfields⟩ : ∃ vs, vs = [l.fatCount, l.dirStart, 0, miniCutoffSize,
    if l.counts.minifat ≠ 0 then l.minifatStart else endOfChain, l.counts.minifat, l.difatSectors.head?.getD endOfChain,
    l.difatCount] := ⟨_, rfl⟩
  rw [← hversions] at hsmall ⊢
  rw [← hfields] at hlow ⊢
  have hlengths : (versions.flatMap (Struct.leBytes 2)).length = 10 ∧ (fields.flatMap (Struct.leBytes 4)).length = 32 ∧
      ((headDifat l).flatMap (Struct.leBytes 4)).length = 436 := by
    rw [length_flatMap_leBytes, length_flatMap_leBytes, length_flatMap_leBytes, hslots, hversions, hfields]
    exact ⟨rfl, rfl, rfl⟩
  obtain ⟨hversionsLength, hfieldsLength, hslotsLength⟩ := hlengths
  have hlength : (signature ++ List.replicate 16 0 ++ versions.flatMap (Struct.leBytes 2) ++ List.replicate 10 0 ++
      fields.flatMap (Struct.leBytes 4) ++ (headDifat l).flatMap (Struct.leBytes 4)).length = 512 := by
    simp only [List.length_append, hversionsLength, hfieldsLength, hslotsLength, List.length_replicate]
    rfl
  refine ⟨hlength, ?_⟩
  obtain ⟨raw, hraw⟩ : ∃ raw, raw = signature ++ (List.replicate 16 0 ++ (versions.flatMap (Struct.leBytes 2) ++
    (List.replicate 10 0 ++ (fields.flatMap (Struct.leBytes 4) ++ ((headDifat l).flatMap (Struct.leBytes 4) ++ rest))))) := ⟨_, rfl⟩
  have hversion {i v : Nat} (hi : versions[i]? = some v) : unpackFrom 2 raw (0x18 + 2 * i) = .ok v :=
    unpackFrom_field (signature ++ List.replicate 16 0) _ hsmall (by rw [hraw, List.append_assoc]) rfl hi
  have hfield {i v : Nat} (hi : fields[i]? = some v) : u32 raw (0x2C + 4 * i) = .ok v :=
    unpackFrom_field (signature ++ (List.replicate 16 0 ++ (versions.flatMap (Struct.leBytes 2) ++ List.replicate 10 0)))
      ((headDifat l).flatMap (Struct.leBytes 4) ++ rest) hlow (by simp only [hraw, List.append_assoc])
      (by simp only [List.length_append, hversionsLength, List.length_replicate]; rfl) hi
  have hlong : ¬ raw.length < 512 := by
    have hrawLength := congrArg List.length hraw
    have hsignature : signature.length = 8 := rfl
    simp only [List.length_append, hsignature, hversionsLength, hfieldsLength, hslotsLength, List.length_replicate] at hrawLength
    omega
  have hreadable : readHeader raw = .ok ⟨raw, 512, 3⟩ := by
    have hsign : raw.take signature.length = signature := by rw [hraw, List.take_left]
    have hmajor := hversion (hversions ▸ rfl : versions[1]? = some 0x0003)
    have horder := hversion (hversions ▸ rfl : versions[2]? = some 0xFFFE)
    have hshift := hversion (hversions ▸ rfl : versions[3]? = some 9)
    have hmini := hversion (hversions ▸ rfl : versions[4]? = some 6)
    rw [readHeader, if_neg (by simp [hlong, show raw.take 8 = signature from hsign]), hmajor, ok_bind, horder, ok_bind, hshift, ok_bind, hmini, ok_bind]
    rfl
  have hslotWords : unpackAll headerDifat (slice raw 0x4C (0x4C + 4 * headerDifat)) = .ok (headDifat l) := by
    have hmid := slice_mid (signature ++ (List.replicate 16 0 ++ (versions.flatMap (Struct.leBytes 2) ++ (List.replicate 10 0 ++
      fields.flatMap (Struct.leBytes 4))))) ((headDifat l).flatMap (Struct.leBytes 4)) rest
    simp only [List.length_append, hversionsLength, hfieldsLength, hslotsLength, List.length_replicate, List.append_assoc,
      ← hraw] at hmid
    have hall := unpackAll_flatMap hslotsLow
    rw [hslots, ← hmid] at hall
    exact hall
  simp only [List.append_assoc, ← hraw]
  exact ⟨hreadable, hslotWords, hfield (hfields ▸ rfl : fields[1]? = _), hfield (hfields ▸ rfl : fields[3]? = _),
    hfield (hfields ▸ rfl : fields[4]? = _), hfield (hfields ▸ rfl : fields[5]? = _), hfield (hfields ▸ rfl : fields[6]? = _)⟩

/-! The tables. -/

section Tables
variable {counts : Counts} {s : Streams} {fatCount difatCount : Nat} {f : File}

/-- What a DIFAT sector ends with. -/
def nextDifat (first difatCount i : Nat) : Nat := if i < difatCount then first + i else endOfChain

theorem length_difatChunk (l : Layout) (i : Nat) : (difatChunk l i).length = 127 := by
  unfold difatChunk
  dsimp only
  rw [List.length_append, List.length_replicate, List.length_take]
  exact Nat.add_sub_of_le (Nat.min_le_left _ _)

theorem getElem?_difatSectors (i : Nat) :
    (laidOut counts s fatCount difatCount).difatSectors[i]?.getD endOfChain = nextDifat (counts.data + fatCount) difatCount i := by
  change (List.range' (counts.data + fatCount) difatCount)[i]?.getD endOfChain = _
  unfold nextDifat
  split
  · rename_i hin
    rw [List.getElem?_range' hin, Nat.one_mul]
    rfl
  · rw [List.getElem?_eq_none (by rw [List.length_range']; omega)]
    rfl

/-- The numbers in each DIFAT sector. -/
theorem difatBytes_pieces {difat : Bytes} (h : difatBytes (laidOut counts s fatCount difatCount) = .ok difat) :
    ∃ sectors : List Bytes, sectors.flatten = difat ∧ sectors.length = difatCount ∧ (∀ piece ∈ sectors, piece.length = 512) ∧
      ∀ i (hi : i < sectors.length), unpackAll 128 sectors[i] =
        .ok (difatChunk (laidOut counts s fatCount difatCount) i ++ [nextDifat (counts.data + fatCount) difatCount (i + 1)]) := by
  obtain ⟨sectors, hsectors, h⟩ := bind_ok h
  have hpacked := mapM_eq_ok hsectors
  refine ⟨sectors, Except.ok.inj h, ?_, fun piece hpiece => ?_, fun i hi => ?_⟩
  · rw [← hpacked.length_eq, List.length_zipIdx]
    exact List.length_range'
  · obtain ⟨e, -, he⟩ := mapM_ok hsectors piece hpiece
    obtain ⟨-, rfl⟩ := pack_ok he
    rw [length_flatMap_leBytes, List.length_append, length_difatChunk]
    rfl
  · obtain ⟨hsmall, hwords⟩ := pack_ok (hpacked.get (by rw [hpacked.length_eq]; exact hi) hi)
    simp only [List.get_eq_getElem, List.getElem_zipIdx, Nat.zero_add, getElem?_difatSectors] at hsmall hwords
    have hall := unpackAll_flatMap hsmall
    rwa [List.length_append, length_difatChunk, hwords] at hall

theorem difat_words {difat : Bytes} (hdifat : difatBytes (laidOut counts s fatCount difatCount) = .ok difat)
    (hlies : Lies f (counts.data + fatCount) difat) : ∀ i < difatCount, sectorWords f (counts.data + fatCount + i) =
      .ok (difatChunk (laidOut counts s fatCount difatCount) i ++ [nextDifat (counts.data + fatCount) difatCount (i + 1)]) := by
  intro i hi
  obtain ⟨sectors, rfl, hcount, hlong, hwords⟩ := difatBytes_pieces hdifat
  have hread := mapM_eq_ok (hlies.mapM_sectorBytes hlong)
  have hpiece : i < sectors.length := by omega
  have hbytes := hread.get (by rw [List.length_range']; exact hpiece) hpiece
  rw [List.get_eq_getElem, List.getElem_range', Nat.one_mul] at hbytes
  have hper : f.perSector = 128 := by rw [File.perSector, hlies.sector]
  rw [sectorWords, hbytes, ok_bind, hper]
  exact hwords i hpiece

/-- The loop goes from each DIFAT sector to the next. -/
theorem difatLoop_run {first : Nat} {chunks : Nat → List Nat} (hregular : first + difatCount ≤ maxRegSect + 1)
    (hwords : ∀ i < difatCount, sectorWords f (first + i) = .ok (chunks i ++ [nextDifat first difatCount (i + 1)]))
    {i fuel : Nat} (hi : i ≤ difatCount) (hfuel : difatCount < i + fuel) (fatSectors : List Nat) :
    difatLoop f fuel (nextDifat first difatCount i) (List.range' first i) fatSectors =
      .ok (fatSectors ++ ((List.range' i (difatCount - i)).flatMap chunks).filter (· ≤ maxRegSect)) := by
  induction fuel generalizing i fatSectors with
  | zero => omega
  | succ fuel ih =>
    obtain rfl | hlt := Nat.eq_or_lt_of_le hi
    · rw [nextDifat, if_neg (Nat.lt_irrefl i), difatLoop, if_pos (by decide), Nat.sub_self]
      simp
    · have hplace : nextDifat first difatCount i = first + i := if_pos hlt
      have hfresh : ¬ (List.range' first i).contains (first + i) = true := by
        rw [List.contains_iff_mem, List.mem_range'_1]
        omega
      have hlast : item (chunks i ++ [nextDifat first difatCount (i + 1)])
          ((chunks i ++ [nextDifat first difatCount (i + 1)]).length - 1) = .ok (nextDifat first difatCount (i + 1)) := by
        rw [item, List.length_append, List.length_singleton, Nat.add_sub_cancel, List.getElem?_concat_length]
      have hgrown : List.range' first i ++ [first + i] = List.range' first (i + 1) := by
        rw [List.range'_concat, Nat.one_mul]
      have hrest : List.range' i (difatCount - i) = i :: List.range' (i + 1) (difatCount - (i + 1)) := by
        rw [show difatCount - i = difatCount - (i + 1) + 1 by omega, List.range'_succ]
      rw [difatLoop, hplace, if_neg (by omega), if_neg hfresh, hwords i hlt, ok_bind, hlast, ok_bind, hgrown,
        List.dropLast_concat, ih hlt (by omega), hrest, List.flatMap_cons, List.filter_append, List.append_assoc]

/-- The table is read back. -/
theorem readFat_eq {fat difat : Bytes} (hheaded : Headed (laidOut counts s fatCount difatCount) f.raw)
    (hfat : pack 4 (laidOut counts s fatCount difatCount).fat = .ok fat)
    (hdifat : difatBytes (laidOut counts s fatCount difatCount) = .ok difat) (hlies : Lies f counts.data (fat ++ difat))
    (htable : counts.data + fatCount + difatCount ≤ 128 * fatCount) (hslots : fatCount ≤ 109 + 127 * difatCount)
    (hregular : counts.data + fatCount + difatCount ≤ maxRegSect + 1) :
    readFat f = .ok (laidOut counts s fatCount difatCount).fat := by
  have hlength : (laidOut counts s fatCount difatCount).fat.length = 128 * fatCount := (covered_laidOut htable hslots).table
  obtain ⟨hsmall, rfl⟩ := pack_ok hfat
  have hfatLength : ((laidOut counts s fatCount difatCount).fat.flatMap (Struct.leBytes 4)).length = 512 * fatCount := by
    rw [length_flatMap_leBytes, hlength]
    omega
  have hlies' := hlies.right hfatLength
  have hcount : difatCount ≤ f.count := by
    obtain ⟨sectors, rfl, rfl, hlong, -⟩ := difatBytes_pieces hdifat
    have hend := hlies'.count_le (length_flatten_pieces hlong)
    omega
  have hloop := difatLoop_run (i := 0) hregular (difat_words hdifat hlies') (Nat.zero_le _)
    (show difatCount < 0 + (f.count + 1) by omega) ((headDifat (laidOut counts s fatCount difatCount)).filter (· ≤ maxRegSect))
  have hkept : (headDifat (laidOut counts s fatCount difatCount) ++
      (List.range difatCount).flatMap (difatChunk (laidOut counts s fatCount difatCount))).filter (· ≤ maxRegSect) =
        List.range' counts.data fatCount := by
    have hfree : (List.replicate (109 + 127 * difatCount - fatCount) freeSect).filter (· ≤ maxRegSect) = [] := by
      rw [List.filter_replicate, if_neg (by decide)]
    rw [slots_laidOut hslots, List.filter_append, hfree, List.append_nil, List.filter_eq_self]
    intro sector hsector
    have hin := List.mem_range'_1.mp hsector
    exact decide_eq_true (by omega)
  rw [Nat.sub_zero, ← List.range_eq_range', ← List.filter_append, hkept] at hloop
  obtain ⟨parts, hparts, hflat⟩ := hlies.left.words hsmall hlength
  rw [readFat, hheaded.slots, ok_bind, hheaded.difat, ok_bind, List.head?_eq_getElem?, getElem?_difatSectors]
  refine (congrArg (· >>= _) hloop).trans ?_
  rw [ok_bind, hparts, ok_bind, hflat]
  rfl

/-- The chain of each run of sectors is read back. -/
theorem chain_laidOut (before after : List Nat) {count : Nat}
    (hruns : counts.bigs ++ [counts.mini, counts.minifat, counts.dir] = before ++ count :: after)
    (hregular : counts.data + fatCount + difatCount ≤ maxRegSect + 1) :
    chain (startAt before.sum count) (laidOut counts s fatCount difatCount).fat = .ok (List.range' before.sum count) := by
  have hsum : counts.data = before.sum + (count + after.sum) := by
    have hsums := congrArg List.sum hruns
    simp only [List.sum_append, List.sum_cons, List.sum_nil] at hsums
    rw [Counts.data]
    omega
  have hfat : ∃ rest, (laidOut counts s fatCount difatCount).fat = chainsEntries 0 before ++ chainEntries before.sum count ++ rest := by
    refine ⟨chainsEntries (before.sum + count) after ++ (List.replicate fatCount fatSect ++ (List.replicate difatCount difSect ++
      List.replicate (128 * fatCount - (counts.data + fatCount + difatCount)) freeSect)), ?_⟩
    simp only [laidOut, hruns, chainsEntries_append, chainsEntries, Nat.zero_add, List.append_assoc]
  obtain ⟨rest, hfat⟩ := hfat
  rw [hfat]
  exact chain_startAt (leads_append (length_chainsEntries 0 before)) (by omega)

end Tables

end XgenSdk.Cfb
