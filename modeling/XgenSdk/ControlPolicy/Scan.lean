import XgenSdk.ControlPolicy.Tiles

/-! One rule's scan over the pieces keeps the tiling and writes exactly what
`pattern.sub` writes. -/
namespace XgenSdk.Scan
open XgenSdk.Splice XgenSdk.MergeForest XgenSdk.Rules XgenSdk.Tiles

/-- The units of the program, read as hulls. -/
structure Shows (units : Units) (h : Hulls) : Prop where
  count : units.parent.length = h.count
  countLo : units.lo.length = h.count
  countHi : units.hi.length = h.count
  roots : Roots units.parent h.root
  lo : ∀ u, units.lo.getD u 0 = h.lo u
  hi : ∀ u, units.hi.getD u 0 = h.hi u

def Tiled (text : Text) (h : Hulls) (ghosts : List Nat) (pieces : List Piece) : Prop :=
  ∃ tiles, Tiling text h ghosts tiles ∧ tiles.flatMap Tile.pieces = pieces

theorem Tiled.piece {text : Text} {h : Hulls} {ghosts : List Nat} {pieces : List Piece}
    (T : Tiled text h ghosts pieces) {p : Piece} (hp : p ∈ pieces) :
    p.body ≠ [] ∧ ∀ u, p.unit = some u → u < h.count := by
  obtain ⟨tiles, T, rfl⟩ := T
  obtain ⟨t, ht, hpt⟩ := List.mem_flatMap.mp hp
  refine ⟨(T.piece ht hpt).2.2, ?_⟩
  intro u hu
  have ok := T.ok t ht
  obtain ⟨_, v, hv, hlt, _⟩ := ok.mask (ok.unit_of_mask hpt hu) hpt
  rw [hv] at hu
  cases hu
  exact hlt

theorem Tiled.cut {text : Text} {h : Hulls} {ghosts : List Nat} {X Y : List Piece} {p : Piece}
    (T : Tiled text h ghosts (X ++ p :: Y)) {k : Nat} (hk : 0 < k) (hkp : k < p.body.length) :
    Tiled text h ghosts (X ++ p.cut 0 k :: p.cut k p.body.length :: Y) := by
  obtain ⟨tiles, T, hp⟩ := T
  exact T.cut hp hk hkp

theorem Shows.find {units : Units} {h : Hulls} (S : Shows units h) {u : Nat} (hu : u < h.count) :
    (units.find u).2 = h.root u ∧ Shows (units.find u).1 h := by
  obtain ⟨hr, hroots, hlen⟩ := S.roots.find units.parent.length u (S.count ▸ hu) (by omega)
  exact ⟨hr, hlen.trans S.count, S.countLo, S.countHi, hroots, S.lo, S.hi⟩

/-! The text of the pieces. -/

theorem joined_append (ps qs : List Piece) : joined (ps ++ qs) = joined ps ++ joined qs :=
  List.flatMap_append

theorem joined_cons (p : Piece) (ps : List Piece) : joined (p :: ps) = p.body ++ joined ps :=
  List.flatMap_cons

theorem cut_left_body (p : Piece) (k : Nat) : (p.cut 0 k).body = p.body.take k := by
  simp [cut_body, slice]

theorem cut_right_body (p : Piece) (k : Nat) : (p.cut k p.body.length).body = p.body.drop k := by
  simp [cut_body, slice]

/-! Moving to the start of a match. -/

theorem skipTo_spec {text : Text} {h : Hulls} {ghosts : List Nat} (ms : Nat) (out : List Piece)
    (offset : Nat) (queue : List Piece) (T : Tiled text h ghosts (out ++ queue))
    (hle : offset ≤ ms) (hms : ms ≤ offset + (joined queue).length) :
    Tiled text h ghosts ((skipTo ms out offset queue).out ++ (skipTo ms out offset queue).queue) ∧
    (skipTo ms out offset queue).offset = ms ∧
    joined (skipTo ms out offset queue).out = joined out ++ (joined queue).take (ms-offset) ∧
    joined (skipTo ms out offset queue).queue = (joined queue).drop (ms-offset) := by
  induction queue generalizing out offset with
  | nil =>
    have he : offset = ms := by
      simp only [joined, List.flatMap_nil, List.length_nil] at hms
      omega
    simp only [skipTo, he]
    exact ⟨T, trivial, by simp [joined], by simp [joined]⟩
  | cons p queue ih =>
    rw [joined_cons, List.length_append] at hms
    rw [skipTo]
    split
    · rename_i hpast
      obtain ⟨hT, ho, hout, hq⟩ := ih (out ++ [p]) (offset + p.body.length) (by simpa using T)
        hpast (by omega)
      have hsub : ms - offset = p.body.length + (ms - (offset + p.body.length)) := by omega
      refine ⟨hT, ho, ?_, ?_⟩
      · rw [hout, joined_append, joined_cons, joined_cons, hsub, List.take_length_add_append]
        simp [joined]
      · rw [hq, joined_cons, hsub, List.drop_length_add_append]
    · split
      · rename_i hpast hlt
        refine ⟨?_, rfl, ?_, ?_⟩
        · simpa using T.cut (k := ms-offset) (by omega) (by omega)
        · rw [joined_append, joined_cons, joined_cons, cut_left_body,
            List.take_append_of_le_length (by omega)]
          simp [joined]
        · rw [joined_cons, joined_cons, cut_right_body, List.drop_append_of_le_length (by omega)]
      · rename_i hpast hge
        have he : offset = ms := by omega
        subst he
        exact ⟨T, rfl, by simp, by simp⟩

/-! Taking the pieces of a match. -/

/-- What a match has recorded of the pieces it took. -/
structure Summary (h : Hulls) (M : List Piece) (t : Taken) : Prop where
  roots : h.RootsOf M t.roots
  first : ∀ a, t.first = some a → ∃ p ∈ M, p.unit = none ∧ p.start = a
  firstLe : ∀ p ∈ M, p.unit = none → ∃ a, t.first = some a ∧ a ≤ p.start
  last : ∀ b, t.last = some b → ∃ p ∈ M, p.unit = none ∧ p.start + p.body.length = b
  lastGe : ∀ p ∈ M, p.unit = none → ∃ b, t.last = some b ∧ p.start + p.body.length ≤ b

theorem Summary.nil (h : Hulls) (units : Units) : Summary h [] ⟨units, none, none, []⟩ := by
  constructor <;> simp [Hulls.RootsOf]

theorem Summary.addMask {h : Hulls} {M : List Piece} {t : Taken} (s : Summary h M t)
    (S : Shows t.units h) {p q : Piece} {u : Nat} (hu : p.unit = some u) (hlt : u < h.count)
    (hq : q.unit = p.unit) (take : Nat) :
    Summary h (M ++ [q]) (t.add p take) ∧ Shows (t.add p take).units h := by
  obtain ⟨hroot, hshows⟩ := S.find hlt
  have hqu : q.unit = some u := hq.trans hu
  simp only [Taken.add, hu]
  refine ⟨⟨?_, ?_, ?_, ?_, ?_⟩, hshows⟩
  · intro r
    have hold := s.roots r
    have hsplit : (∃ x ∈ M ++ [q], ∃ v, x.unit = some v ∧ h.root v = r) ↔
        (∃ x ∈ M, ∃ v, x.unit = some v ∧ h.root v = r) ∨ h.root u = r := by
      simp [or_and_right, exists_or, hqu]
    rw [hsplit, ← hold, hroot]
    by_cases hm : h.root u ∈ t.roots
    · simp only [List.contains_eq_mem, hm, decide_true, if_true]
      exact ⟨Or.inl, fun hor => hor.elim id fun he => he ▸ hm⟩
    · simp only [List.contains_eq_mem, hm, decide_false, Bool.false_eq_true, if_false,
        List.mem_append, List.mem_singleton]
      exact or_congr_right eq_comm
  · intro a ha
    obtain ⟨x, hx, hxa⟩ := s.first a ha
    exact ⟨x, List.mem_append_left _ hx, hxa⟩
  · intro x hx hn
    rw [List.mem_append, List.mem_singleton] at hx
    obtain hx | rfl := hx
    · exact s.firstLe x hx hn
    · rw [hqu] at hn
      cases hn
  · intro b hb
    obtain ⟨x, hx, hxb⟩ := s.last b hb
    exact ⟨x, List.mem_append_left _ hx, hxb⟩
  · intro x hx hn
    rw [List.mem_append, List.mem_singleton] at hx
    obtain hx | rfl := hx
    · exact s.lastGe x hx hn
    · rw [hqu] at hn
      cases hn

theorem Summary.addText {h : Hulls} {M : List Piece} {t : Taken} (s : Summary h M t)
    (S : Shows t.units h) {p q : Piece} (hp : p.unit = none) (hq : q.unit = p.unit)
    (hstart : q.start = p.start) :
    Summary h (M ++ [q]) (t.add p q.body.length) ∧ Shows (t.add p q.body.length).units h := by
  have hqn : q.unit = none := hq.trans hp
  simp only [Taken.add, hp]
  refine ⟨⟨?_, ?_, ?_, ?_, ?_⟩, S⟩
  · intro r
    rw [s.roots r]
    simp [or_and_right, exists_or, hqn]
  · intro a ha
    rw [Option.some.injEq] at ha
    cases hf : t.first with
    | none =>
      simp only [hf] at ha
      exact ⟨q, by simp, hqn, by omega⟩
    | some c =>
      simp only [hf] at ha
      obtain ⟨x, hx, hxn, hxc⟩ := s.first c hf
      by_cases hle : c ≤ p.start
      · exact ⟨x, by simp [hx], hxn, by omega⟩
      · exact ⟨q, by simp, hqn, by omega⟩
  · intro x hx hn
    refine ⟨_, rfl, ?_⟩
    rw [List.mem_append, List.mem_singleton] at hx
    obtain hx | rfl := hx
    · obtain ⟨a, ha, hle⟩ := s.firstLe x hx hn
      simp only [ha]
      omega
    · split <;> omega
  · intro b hb
    rw [Option.some.injEq] at hb
    cases hf : t.last with
    | none =>
      simp only [hf] at hb
      exact ⟨q, by simp, hqn, by omega⟩
    | some c =>
      simp only [hf] at hb
      obtain ⟨x, hx, hxn, hxc⟩ := s.last c hf
      by_cases hle : p.start + q.body.length ≤ c
      · exact ⟨x, by simp [hx], hxn, by omega⟩
      · exact ⟨q, by simp, hqn, by omega⟩
  · intro x hx hn
    refine ⟨_, rfl, ?_⟩
    rw [List.mem_append, List.mem_singleton] at hx
    obtain hx | rfl := hx
    · obtain ⟨b, hb, hle⟩ := s.lastGe x hx hn
      simp only [hb]
      omega
    · split <;> omega

theorem Summary.add {h : Hulls} {M : List Piece} {t : Taken} (s : Summary h M t)
    (S : Shows t.units h) {p q : Piece} (hp : ∀ u, p.unit = some u → u < h.count)
    (hq : q.unit = p.unit) (hstart : q.start = p.start) :
    Summary h (M ++ [q]) (t.add p q.body.length) ∧ Shows (t.add p q.body.length).units h := by
  cases hu : p.unit with
  | none => exact s.addText S hu hq hstart
  | some u => exact s.addMask S hu (hp u hu) hq q.body.length

theorem takeTo_spec {text : Text} {h : Hulls} {ghosts : List Nat} {X : List Piece} (me : Nat)
    (t : Taken) (offset : Nat) (queue M : List Piece) (T : Tiled text h ghosts (X ++ M ++ queue))
    (S : Shows t.units h) (s : Summary h M t) (hle : offset ≤ me)
    (hme : me ≤ offset + (joined queue).length) :
    ∃ M', (M ≠ [] ∨ offset < me → M' ≠ []) ∧
      Tiled text h ghosts (X ++ M' ++ (takeTo me t offset queue).2.1) ∧
      Shows (takeTo me t offset queue).1.units h ∧ Summary h M' (takeTo me t offset queue).1 ∧
      (takeTo me t offset queue).2.2 = me ∧
      joined (takeTo me t offset queue).2.1 = (joined queue).drop (me-offset) := by
  induction queue generalizing t offset M with
  | nil =>
    have he : offset = me := by
      simp only [joined, List.flatMap_nil, List.length_nil] at hme
      omega
    exact ⟨M, by simp [he], T, S, s, he, by simp [takeTo, joined]⟩
  | cons p queue ih =>
    rw [joined_cons, List.length_append] at hme
    have hp := T.piece (p := p) (by simp)
    rw [takeTo]
    split
    · rename_i hlt
      by_cases hcut : me-offset < p.body.length
      · have hmin : min p.body.length (me-offset) = me-offset := by omega
        have hlen : (p.cut 0 (me-offset)).body.length = me-offset := by
          rw [cut_left_body, List.length_take]
          exact Nat.min_eq_left (by omega)
        have hstart : (p.cut 0 (me-offset)).start = p.start := by simp [Piece.cut]
        have hadd := s.add S hp.2 (q := p.cut 0 (me-offset)) rfl hstart
        rw [hlen] at hadd
        have hT := T.cut (k := me-offset) (by omega) (by omega)
        simp only [hmin, if_pos hcut]
        refine ⟨M ++ [p.cut 0 (me-offset)], by simp, by simpa using hT, hadd.2, hadd.1, by omega, ?_⟩
        rw [joined_cons, joined_cons, cut_right_body, List.drop_append_of_le_length (by omega)]
      · have hmin : min p.body.length (me-offset) = p.body.length := by omega
        have hadd := s.add S hp.2 (q := p) rfl rfl
        simp only [hmin, lt_irrefl, if_false]
        obtain ⟨M', hne, hT, hS, hs, ho, hj⟩ := ih (t.add p p.body.length) (offset + p.body.length)
          (M ++ [p]) (by simpa using T) hadd.2 hadd.1 (by omega) (by omega)
        refine ⟨M', fun _ => hne (Or.inl (by simp)), hT, hS, hs, ho, ?_⟩
        have hsub : me - offset = p.body.length + (me - (offset + p.body.length)) := by omega
        rw [hj, joined_cons, hsub, List.drop_length_add_append]
    · rename_i hge
      have he : offset = me := by omega
      exact ⟨M, by simp [he], T, S, s, he, by simp [he]⟩

/-! The new unit of a match. -/

theorem least_bound {β : Type*} {M : List β} (f : β → Nat) {xs : List Nat} (hM : M ≠ [])
    (h1 : ∀ x ∈ xs, ∃ p ∈ M, f p = x) (h2 : ∀ p ∈ M, ∃ x ∈ xs, x ≤ f p) :
    (∃ p ∈ M, f p = xs.min?.getD 0) ∧ ∀ p ∈ M, xs.min?.getD 0 ≤ f p := by
  obtain ⟨p, hp⟩ := List.exists_mem_of_ne_nil M hM
  obtain ⟨x, hx, _⟩ := h2 p hp
  obtain ⟨a, ha⟩ := List.isSome_min?_of_mem hx |> Option.isSome_iff_exists.mp
  obtain ⟨hmem, hmin⟩ := List.min?_eq_some_iff.mp ha
  simp only [ha, Option.getD_some]
  refine ⟨h1 a hmem, ?_⟩
  intro q hq
  obtain ⟨y, hy, hle⟩ := h2 q hq
  exact (hmin y hy).trans hle

theorem greatest_bound {β : Type*} {M : List β} (f : β → Nat) {xs : List Nat} (hM : M ≠ [])
    (h1 : ∀ x ∈ xs, ∃ p ∈ M, f p = x) (h2 : ∀ p ∈ M, ∃ x ∈ xs, f p ≤ x) :
    (∃ p ∈ M, f p = xs.max?.getD 0) ∧ ∀ p ∈ M, f p ≤ xs.max?.getD 0 := by
  obtain ⟨p, hp⟩ := List.exists_mem_of_ne_nil M hM
  obtain ⟨x, hx, _⟩ := h2 p hp
  obtain ⟨a, ha⟩ := List.isSome_max?_of_mem hx |> Option.isSome_iff_exists.mp
  obtain ⟨hmem, hmax⟩ := List.max?_eq_some_iff.mp ha
  simp only [ha, Option.getD_some]
  refine ⟨h1 a hmem, ?_⟩
  intro q hq
  obtain ⟨y, hy, hle⟩ := h2 q hq
  exact hle.trans (hmax y hy)

theorem Summary.bounds {h : Hulls} {M : List Piece} {t : Taken} (s : Summary h M t)
    (S : Shows t.units h) (hM : M ≠ []) :
    h.Bounds M ((t.roots.map (fun r => t.units.lo.getD r 0) ++ t.first.toList).min?.getD 0)
      ((t.roots.map (fun r => t.units.hi.getD r 0) ++ t.last.toList).max?.getD 0) := by
  constructor
  · refine least_bound h.left hM ?_ ?_
    · intro x hx
      simp only [List.mem_append, List.mem_map, Option.mem_toList] at hx
      obtain ⟨r, hr, rfl⟩ | hx := hx
      · obtain ⟨p, hp, u, hu, hur⟩ := (s.roots r).mp hr
        exact ⟨p, hp, by simp only [Hulls.left, hu, hur, S.lo]⟩
      · obtain ⟨p, hp, hn, ha⟩ := s.first x hx
        exact ⟨p, hp, by simp only [Hulls.left, hn, ha]⟩
    · intro p hp
      cases hu : p.unit with
      | none =>
        obtain ⟨a, ha, hle⟩ := s.firstLe p hp hu
        exact ⟨a, by simp [ha], by simpa only [Hulls.left, hu] using hle⟩
      | some u =>
        have hr := (s.roots (h.root u)).mpr ⟨p, hp, u, hu, rfl⟩
        refine ⟨_, List.mem_append_left _ (List.mem_map_of_mem hr), ?_⟩
        simp only [Hulls.left, hu, S.lo, le_refl]
  · refine greatest_bound h.right hM ?_ ?_
    · intro x hx
      simp only [List.mem_append, List.mem_map, Option.mem_toList] at hx
      obtain ⟨r, hr, rfl⟩ | hx := hx
      · obtain ⟨p, hp, u, hu, hur⟩ := (s.roots r).mp hr
        exact ⟨p, hp, by simp only [Hulls.right, hu, hur, S.hi]⟩
      · obtain ⟨p, hp, hn, ha⟩ := s.last x hx
        exact ⟨p, hp, by simp only [Hulls.right, hn, ha]⟩
    · intro p hp
      cases hu : p.unit with
      | none =>
        obtain ⟨a, ha, hle⟩ := s.lastGe p hp hu
        exact ⟨a, by simp [ha], by simpa only [Hulls.right, hu] using hle⟩
      | some u =>
        have hr := (s.roots (h.root u)).mpr ⟨p, hp, u, hu, rfl⟩
        refine ⟨_, List.mem_append_left _ (List.mem_map_of_mem hr), ?_⟩
        simp only [Hulls.right, hu, S.hi, le_refl]

theorem getD_append_singleton (xs : List Nat) (x u : Nat) :
    (xs ++ [x]).getD u 0 = if u = xs.length then x else xs.getD u 0 := by
  obtain hu | rfl | hu := Nat.lt_trichotomy u xs.length
  · simp [List.getElem?_append_left hu, hu.ne]
  · simp
  · have h1 : xs.length + 1 ≤ u := hu
    simp [hu.ne', List.getElem?_eq_none hu.le, List.getElem?_eq_none (l := xs ++ [x]) (by simpa using h1)]

theorem Summary.close {h : Hulls} {M : List Piece} {t : Taken} (s : Summary h M t)
    (S : Shows t.units h) (hM : M ≠ []) (hlt : ∀ p ∈ M, ∀ u, p.unit = some u → u < h.count) :
    ∃ a b, h.Bounds M a b ∧ Shows t.close (h.merge t.roots a b) := by
  refine ⟨_, _, s.bounds S hM, ?_⟩
  have hroots : ∀ r ∈ t.roots, r < t.units.parent.length ∧ h.root r = r := by
    intro r hr
    obtain ⟨p, hp, u, hu, rfl⟩ := (s.roots r).mp hr
    have hult : u < t.units.parent.length := S.count ▸ hlt p hp u hu
    exact ⟨S.roots.lt u hult, S.roots.idem hult⟩
  have hmerge := S.roots.merge t.roots hroots
  refine ⟨?_, ?_, ?_, ?_, ?_, ?_⟩
  · simp [Taken.close, length_hang, Hulls.merge, S.count]
  · simp [Taken.close, Hulls.merge, S.countLo]
  · simp [Taken.close, Hulls.merge, S.countHi]
  · simpa only [Taken.close, Hulls.merge, S.count] using hmerge
  · intro u
    simp only [Taken.close, Hulls.merge, getD_append_singleton, S.countLo, S.lo]
  · intro u
    simp only [Taken.close, Hulls.merge, getD_append_singleton, S.countHi, S.hi]

/-! A whole match, a whole rule. -/

/-- Pieces, units and ghosts that tile the text. -/
def Good (text : Text) (units : Units) (ghosts : List Nat) (pieces : List Piece) : Prop :=
  ∃ h, Shows units h ∧ Tiled text h ghosts pieces

theorem maskMatch_spec {text : Text} {s : Progress} {m : Match}
    (G : Good text s.units s.ghosts (s.scan.out ++ s.scan.queue)) (h1 : s.scan.offset ≤ m.start)
    (h2 : m.start < m.stop) (h3 : m.stop ≤ s.scan.offset + (joined s.scan.queue).length) :
    Good text (maskMatch s m).units (maskMatch s m).ghosts
      ((maskMatch s m).scan.out ++ (maskMatch s m).scan.queue) ∧
    (maskMatch s m).units.parent ≠ [] ∧ (maskMatch s m).scan.offset = m.stop ∧
    joined (maskMatch s m).scan.out = joined s.scan.out ++
      (joined s.scan.queue).take (m.start-s.scan.offset) ++ m.replacement ∧
    joined (maskMatch s m).scan.queue = (joined s.scan.queue).drop (m.stop-s.scan.offset) := by
  obtain ⟨h, S, T⟩ := G
  obtain ⟨hT, ho, hout, hq⟩ := skipTo_spec m.start s.scan.out s.scan.offset s.scan.queue T h1
    (by omega)
  simp only [maskMatch]
  generalize skipTo m.start s.scan.out s.scan.offset s.scan.queue = scan at hT ho hout hq ⊢
  have hlen : m.stop ≤ scan.offset + (joined scan.queue).length := by
    rw [hq, List.length_drop]
    omega
  obtain ⟨M, hM, hT', hS, hs, ho', hq'⟩ := takeTo_spec (X := scan.out) m.stop
    ⟨s.units, none, none, []⟩ scan.offset scan.queue [] (by simpa using hT) S
    (Summary.nil h s.units) (by omega) hlen
  generalize takeTo m.stop ⟨s.units, none, none, []⟩ scan.offset scan.queue = took
    at hT' hS hs ho' hq' ⊢
  have hne : M ≠ [] := hM (Or.inr (by omega))
  obtain ⟨a, b, hab, hclose⟩ := hs.close hS hne fun p hp =>
    (hT'.piece (List.mem_append_left _ (List.mem_append_right _ hp))).2
  obtain ⟨tiles, T', hf⟩ := hT'
  refine ⟨⟨_, hclose, ?_⟩, ?_, ho', ?_, ?_⟩
  · rw [hS.count]
    exact T'.overwrite hf hne hs.roots hab m.replacement
  · intro hnil
    have hc := hclose.count
    rw [hnil] at hc
    cases hc
  · rw [joined_append, hout]
    by_cases hrep : m.replacement.isEmpty
    · simp [joined, List.isEmpty_iff.mp hrep]
    · simp [hrep, joined]
  · rw [hq', hq, List.drop_drop, ho]
    congr 1
    omega

theorem foldl_maskMatch_spec {text current : Text} {s : Progress} {hits : List Match}
    (G : Good text s.units s.ghosts (s.scan.out ++ s.scan.queue))
    (hord : InOrder current.length s.scan.offset (hits.map Match.span))
    (hpos : ∀ m ∈ hits, m.start < m.stop) (hq : joined s.scan.queue = current.drop s.scan.offset)
    (ho : s.scan.offset ≤ current.length) :
    Good text (hits.foldl maskMatch s).units (hits.foldl maskMatch s).ghosts
      ((hits.foldl maskMatch s).scan.out ++ (hits.foldl maskMatch s).scan.queue) ∧
    (s.units.parent ≠ [] ∨ hits ≠ [] → (hits.foldl maskMatch s).units.parent ≠ []) ∧
    joined ((hits.foldl maskMatch s).scan.out ++ (hits.foldl maskMatch s).scan.queue) =
      joined s.scan.out ++ spliceFrom current s.scan.offset (hits.map Match.span) := by
  induction hits generalizing s with
  | nil => exact ⟨G, by simp, by simp [joined_append, hq, spliceFrom]⟩
  | cons m hits ih =>
    obtain ⟨h1, h2, h3, h4⟩ := hord
    simp only [Match.span] at h1 h2 h3 h4
    obtain ⟨hG, hne, hoff, hout, hqueue⟩ := maskMatch_spec G h1 (hpos m (by simp)) (by
      rw [hq, List.length_drop]
      omega)
    have hrest : joined (maskMatch s m).scan.queue =
        current.drop (maskMatch s m).scan.offset := by
      rw [hqueue, hq, List.drop_drop, hoff, Nat.add_sub_cancel' (h1.trans h2)]
    obtain ⟨hG', hne', hj⟩ := ih hG (by rwa [hoff]) (fun x hx => hpos x (by simp [hx])) hrest
      (by omega)
    refine ⟨hG', fun _ => hne' (Or.inl hne), ?_⟩
    rw [List.foldl_cons, hj, hout, hq, hoff, List.map_cons, spliceFrom]
    simp [Match.span, slice, List.take_drop, Nat.add_sub_cancel' h1]

theorem hits_span (rule : MaskingRule) (text : Text) :
    (rule.hits text).map Match.span =
      ((rule.finditer text).map Match.span).filter fun s => decide (s.lo < s.hi) := by
  rw [List.filter_map]
  rfl

theorem hits_ordered (rule : MaskingRule) (text : Text) :
    InOrder text.length 0 ((rule.hits text).map Match.span) := by
  rw [hits_span]
  exact (rule.ordered text).filter _

theorem hits_pos {rule : MaskingRule} {text : Text} {m : Match} (hm : m ∈ rule.hits text) :
    m.start < m.stop := by
  simpa [MaskingRule.hits, Match.nonempty] using (List.mem_filter.mp hm).2

/-- Only the hits change the text: an empty match is replaced by nothing. -/
theorem substitute_eq_hits (rule : MaskingRule) (text : Text) :
    rule.substitute text = splice text ((rule.hits text).map Match.span) := by
  rw [hits_span]
  refine (spliceFrom_filter text (rule.ordered text) _ ?_).symm
  intro s hs hkeep
  obtain ⟨m, _, rfl⟩ := List.mem_map.mp hs
  have hle : m.start ≤ m.stop := ((rule.ordered text).single hs).2.1
  have hnlt : ¬ m.start < m.stop := of_decide_eq_false hkeep
  have he : m.stop = m.start := by omega
  exact ⟨he.symm, by simp [Match.span, Match.replacement, he]⟩

theorem maskRule_spec {text : Text} {state : Masking} (rule : MaskingRule)
    (G : Good text state.units state.ghosts state.pieces) :
    Good text (maskRule state rule).units (maskRule state rule).ghosts (maskRule state rule).pieces ∧
    (state.units.parent ≠ [] ∨ rule.hits (joined state.pieces) ≠ [] →
      (maskRule state rule).units.parent ≠ []) ∧
    joined (maskRule state rule).pieces = rule.substitute (joined state.pieces) := by
  rw [substitute_eq_hits]
  unfold maskRule
  simp only []
  split
  · rename_i hnil
    rw [List.isEmpty_iff] at hnil
    exact ⟨G, by simp [hnil], by simp [hnil, splice, spliceFrom]⟩
  · obtain ⟨hG, hne, hj⟩ := foldl_maskMatch_spec (s := ⟨⟨[], state.pieces, 0⟩, state.units,
      state.ghosts⟩) G (hits_ordered rule (joined state.pieces)) (fun m hm => hits_pos hm) rfl
      (Nat.zero_le _)
    exact ⟨hG, hne, hj⟩

end XgenSdk.Scan
