import XgenSdk.ControlPolicy.Scan

/-! From the pieces back to spans of the original text. -/
namespace XgenSdk.Spans
open XgenSdk.Splice XgenSdk.MergeForest XgenSdk.Rules XgenSdk.Tiles XgenSdk.Scan

/-! The masked tiles are the spans to find. -/

def maskedSpans (tiles : List Tile) : List (Span Char) :=
  (tiles.filter fun t => t.unit.isSome).map Tile.span

theorem mem_maskedSpans {tiles : List Tile} {s : Span Char} :
    s ∈ maskedSpans tiles ↔ ∃ t ∈ tiles, t.unit.isSome ∧ t.span = s := by
  simp only [maskedSpans, List.mem_map, List.mem_filter, and_assoc]

theorem maskedSpans_cons (t : Tile) (ts : List Tile) :
    maskedSpans (t :: ts) = (if t.unit.isSome then [t.span] else []) ++ maskedSpans ts := by
  cases hu : t.unit <;> simp [maskedSpans, hu]

theorem maskedSpans_inOrder {p q : Nat} {ts : List Tile} (h : Laid p q ts) :
    InOrder q p (maskedSpans ts) := by
  induction ts generalizing p with
  | nil => trivial
  | cons t ts ih =>
    obtain ⟨hp, hlt, hr⟩ := h
    have hle := hr.le
    rw [maskedSpans_cons]
    split
    · exact ⟨le_of_eq hp.symm, hlt.le, hle, ih hr⟩
    · exact (ih hr).weaken (by omega)

/-- Splicing the masked tiles gives the text of all tiles. -/
theorem spliceFrom_maskedSpans {text : Text} {h : Hulls} {p : Nat} {ts : List Tile}
    (hl : Laid p text.length ts) (ok : ∀ t ∈ ts, t.Ok text h) :
    spliceFrom text p (maskedSpans ts) = joined (ts.flatMap Tile.pieces) := by
  induction ts generalizing p with
  | nil =>
    have hp : p = text.length := hl
    simp [maskedSpans, spliceFrom, hp, joined]
  | cons t ts ih =>
    obtain ⟨hp, hlt, hr⟩ := hl
    have ih' := ih hr fun s hs => ok s (List.mem_cons_of_mem t hs)
    rw [maskedSpans_cons, List.flatMap_cons, joined_append, ← ih', ← hp]
    cases hu : t.unit with
    | none =>
      have hraw := (ok t (by simp)).raw hu
      simp only [Option.isSome_none, Bool.false_eq_true, if_false, List.nil_append]
      rw [← slice_spliceFrom text hlt.le (maskedSpans_inOrder hr), hraw]
      simp [joined]
    | some r =>
      simp only [Option.isSome_some, if_true, List.singleton_append, spliceFrom, Tile.span]
      rw [slice_self, List.nil_append]

/-! Reading the runs of pieces. -/

theorem gather_spec {h : Hulls} {units : Units} (S : Shows units h) {r : Nat} (ps rest : List Piece)
    (hps : ∀ p ∈ ps, h.Mask r p)
    (hrest : ∀ p ∈ rest, ∀ u, p.unit = some u → u < h.count ∧ h.root u ≠ r) :
    (gather r units (ps ++ rest)).1 = joined ps ∧ (gather r units (ps ++ rest)).2.1 = rest ∧
      Shows (gather r units (ps ++ rest)).2.2 h := by
  induction ps generalizing units with
  | nil =>
    cases rest with
    | nil => exact ⟨rfl, rfl, S⟩
    | cons p rest =>
      rw [List.nil_append, gather]
      cases hu : p.unit with
      | none => exact ⟨rfl, rfl, S⟩
      | some u =>
        obtain ⟨hlt, hne⟩ := hrest p (by simp) u hu
        obtain ⟨hroot, hS⟩ := S.find hlt
        simp only [hroot, hne, if_false]
        exact ⟨rfl, trivial, hS⟩
  | cons p ps ih =>
    obtain ⟨_, u, hu, hlt, hur⟩ := hps p (by simp)
    obtain ⟨hroot, hS⟩ := S.find hlt
    obtain ⟨h1, h2, h3⟩ := ih hS fun q hq => hps q (by simp [hq])
    rw [List.cons_append, gather]
    simp only [hu, hroot, hur, if_true]
    exact ⟨by rw [h1, joined_cons], h2, h3⟩

/-- A tile of which some mask is left. -/
def solid (t : Tile) : Bool := t.unit.isSome && !t.pieces.isEmpty

theorem pieceSpans_spec {text : Text} {h : Hulls} {units : Units} (S : Shows units h) {p q : Nat}
    (ts : List Tile) (hl : Laid p q ts) (ok : ∀ t ∈ ts, t.Ok text h) (seen : List Nat) (fuel : Nat)
    (hfuel : (ts.flatMap Tile.pieces).length ≤ fuel) :
    (pieceSpans units seen fuel (ts.flatMap Tile.pieces)).1 = (ts.filter solid).map Tile.span ∧
    (pieceSpans units seen fuel (ts.flatMap Tile.pieces)).2.1 =
      seen ++ (ts.filter solid).filterMap Tile.unit ∧
    Shows (pieceSpans units seen fuel (ts.flatMap Tile.pieces)).2.2 h := by
  induction ts generalizing p units seen fuel with
  | nil => cases fuel <;> exact ⟨rfl, by simp [pieceSpans], S⟩
  | cons t ts ih =>
    obtain ⟨hp, hlt, hr⟩ := hl
    have okts : ∀ s ∈ ts, s.Ok text h := fun s hs => ok s (List.mem_cons_of_mem t hs)
    rw [List.flatMap_cons] at hfuel ⊢
    cases hu : t.unit with
    | none =>
      have hraw := (ok t (by simp)).raw hu
      have hsolid : solid t = false := by simp [solid, hu]
      rw [List.filter_cons_of_neg (by simp [hsolid])]
      rw [hraw, List.singleton_append] at hfuel ⊢
      cases fuel with
      | zero => cases hfuel
      | succ fuel =>
        rw [pieceSpans]
        exact ih S hr okts seen fuel (Nat.le_of_succ_le_succ hfuel)
    | some r =>
      obtain ⟨_, _, hlo, hhi⟩ := (ok t (by simp)).hull hu
      have hmask : ∀ x ∈ t.pieces, h.Mask r x := fun x hx => (ok t (by simp)).mask hu hx
      cases hps : t.pieces with
      | nil =>
        have hsolid : solid t = false := by simp [solid, hps]
        rw [List.filter_cons_of_neg (by simp [hsolid])]
        rw [hps, List.nil_append] at hfuel
        exact ih S hr okts seen fuel hfuel
      | cons x ps =>
        have hsolid : solid t = true := by simp [solid, hu, hps]
        rw [List.filter_cons_of_pos hsolid]
        rw [hps, List.cons_append] at hfuel
        cases fuel with
        | zero => cases hfuel
        | succ fuel =>
          obtain ⟨_, u, hxu, hult, hur⟩ := hmask x (by simp [hps])
          obtain ⟨hroot, hS⟩ := S.find hult
          have hrest : ∀ y ∈ ts.flatMap Tile.pieces, ∀ v, y.unit = some v →
              v < h.count ∧ h.root v ≠ r := by
            intro y hy v hv
            obtain ⟨s, hs, hys⟩ := List.mem_flatMap.mp hy
            have hsu := (okts s hs).unit_of_mask hys hv
            obtain ⟨_, w, hw, hwlt, _⟩ := (okts s hs).mask hsu hys
            rw [hv] at hw
            cases hw
            refine ⟨hwlt, ?_⟩
            intro he
            obtain ⟨_, _, hslo, _⟩ := (okts s hs).hull hsu
            have hbs := hr.bounds hs
            rw [he] at hslo
            omega
          obtain ⟨hg1, hg2, hg3⟩ := gather_spec hS ps (ts.flatMap Tile.pieces)
            (fun y hy => hmask y (by simp [hps, hy])) hrest
          have hfuel' : (ts.flatMap Tile.pieces).length ≤ fuel := by
            simp only [List.length_cons, List.length_append] at hfuel
            omega
          obtain ⟨h1, h2, h3⟩ := ih hg3 hr okts (seen ++ [r]) fuel hfuel'
          rw [List.cons_append, pieceSpans]
          simp only [hxu, hroot, hur, hg1, hg2]
          refine ⟨?_, ?_, h3⟩
          · rw [h1, List.map_cons, hg3.lo, hg3.hi, hlo, hhi]
            simp [Tile.span, hps, joined_cons]
          · rw [h2, List.filterMap_cons_some hu, List.append_assoc]
            rfl

theorem ghostSpans_spec {h : Hulls} {units : Units} (S : Shows units h) (ghosts : List Nat)
    (hk : ∀ g ∈ ghosts, g < h.count) (seen : List Nat) :
    (∀ s ∈ ghostSpans units seen ghosts, ∃ g ∈ ghosts, h.root g ∉ seen ∧
      s = ⟨h.lo (h.root g), h.hi (h.root g), []⟩) ∧
    ∀ g ∈ ghosts, h.root g ∈ seen ∨
      ⟨h.lo (h.root g), h.hi (h.root g), []⟩ ∈ ghostSpans units seen ghosts := by
  induction ghosts generalizing units seen with
  | nil => simp [ghostSpans]
  | cons g ghosts ih =>
    obtain ⟨hroot, hS⟩ := S.find (hk g (by simp))
    have hk' : ∀ x ∈ ghosts, x < h.count := fun x hx => hk x (by simp [hx])
    rw [ghostSpans]
    simp only [hroot, List.contains_eq_mem, decide_eq_true_eq]
    by_cases hm : h.root g ∈ seen
    · obtain ⟨h1, h2⟩ := ih hS hk' seen
      rw [if_pos hm]
      refine ⟨?_, ?_⟩
      · intro s hs
        obtain ⟨x, hx, hxs⟩ := h1 s hs
        exact ⟨x, by simp [hx], hxs⟩
      · intro x hx
        cases hx with
        | head => exact Or.inl hm
        | tail _ hx => exact h2 x hx
    · obtain ⟨h1, h2⟩ := ih hS hk' (seen ++ [h.root g])
      rw [if_neg hm, S.lo, S.hi]
      refine ⟨?_, ?_⟩
      · intro s hs
        cases hs with
        | head => exact ⟨g, by simp, hm, rfl⟩
        | tail _ hs =>
          obtain ⟨x, hx, hxs, he⟩ := h1 s hs
          exact ⟨x, by simp [hx], fun hin => hxs (List.mem_append_left _ hin), he⟩
      · intro x hx
        cases hx with
        | head => exact Or.inr (by simp)
        | tail _ hx =>
          obtain hin | hin := h2 x hx
          · rw [List.mem_append, List.mem_singleton] at hin
            obtain hin | he := hin
            · exact Or.inl hin
            · exact Or.inr (by simp [he])
          · exact Or.inr (List.mem_cons_of_mem _ hin)

/-! Merging: a span without body that begins inside a masked tile lies inside it. -/

def Inner (T : List (Span Char)) (s : Span Char) : Prop :=
  s.body = [] ∧ ∃ t ∈ T, t.lo < s.lo ∧ s.lo < t.hi ∧ s.hi ≤ t.hi

theorem mergeFrom_spec {n : Nat} {T : List (Span Char)} (hT : InOrder n 0 T)
    (hpos : ∀ t ∈ T, t.lo < t.hi) {last : Span Char} {rest : List (Span Char)} (hlast : last ∈ T)
    (hsorted : (last :: rest).Pairwise spanLe) (hin : ∀ s ∈ rest, s ∈ T ∨ Inner T s)
    (hrest : ∀ t ∈ T, t ∈ rest ∨ t.hi ≤ last.hi)
    (hdup : (last :: rest).Pairwise fun a b => a = b → a.body = []) :
    InOrder n last.lo (mergeFrom last rest) ∧
      ∀ s, s ∈ mergeFrom last rest ↔ s = last ∨ (s ∈ T ∧ last.hi ≤ s.lo) := by
  have hle {a b : Span Char} (hab : spanLe a b) : a.lo ≤ b.lo := by
    obtain hab | hab := hab <;> omega
  induction rest generalizing last with
  | nil =>
    obtain ⟨_, hlo, hhi, _⟩ := (hT.single hlast)
    refine ⟨⟨le_refl _, hlo, hhi, trivial⟩, ?_⟩
    intro s
    simp only [mergeFrom, List.mem_singleton]
    refine ⟨Or.inl, ?_⟩
    intro hs
    obtain hs | ⟨hs, hge⟩ := hs
    · exact hs
    · obtain hr | hr := hrest s hs
      · cases hr
      · have := hpos s hs
        omega
  | cons s rest ih =>
    rw [List.pairwise_cons] at hsorted hdup
    obtain ⟨hfirst, htail⟩ := hsorted
    have hls := hle (hfirst s (by simp))
    have hposlast := hpos last hlast
    rw [mergeFrom]
    split
    · rename_i hover
      have hself : s.hi ≤ last.hi ∧ s.body = [] := by
        obtain hs | ⟨hbody, t, ht, h1, h2, h3⟩ := hin s (by simp)
        · have he := hT.eq_of_overlap hlast hs (by have := hpos s hs; omega) hover
          exact ⟨he ▸ le_refl _, he ▸ hdup.1 s (by simp) he⟩
        · have he := hT.eq_of_overlap hlast ht (by omega) (by omega)
          exact ⟨he ▸ h3, hbody⟩
      have hsame : (⟨last.lo, max last.hi s.hi, last.body ++ s.body⟩ : Span Char) = last := by
        rw [hself.2, List.append_nil, Nat.max_eq_left hself.1]
      rw [hsame]
      refine ih hlast ?_ (fun x hx => hin x (by simp [hx])) ?_ ?_
      · exact List.pairwise_cons.mpr ⟨fun x hx => hfirst x (by simp [hx]),
          (List.pairwise_cons.mp htail).2⟩
      · intro t ht
        obtain hr | hr := hrest t ht
        · cases hr with
          | head => exact Or.inr hself.1
          | tail _ hr => exact Or.inl hr
        · exact Or.inr hr
      · exact List.pairwise_cons.mpr ⟨fun x hx => hdup.1 x (by simp [hx]),
          (List.pairwise_cons.mp hdup.2).2⟩
    · rename_i hapart
      have hsT : s ∈ T := by
        obtain hs | ⟨_, t, ht, h1, h2, _⟩ := hin s (by simp)
        · exact hs
        · obtain hr | hr := hrest t ht
          · cases hr with
            | head => omega
            | tail _ hr =>
              have := hle ((List.pairwise_cons.mp htail).1 t hr)
              omega
          · omega
      have hposs := hpos s hsT
      obtain ⟨hord, hmem⟩ := ih hsT htail (fun x hx => hin x (by simp [hx])) (by
        intro t ht
        obtain hr | hr := hrest t ht
        · cases hr with
          | head => exact Or.inr (le_refl _)
          | tail _ hr => exact Or.inl hr
        · exact Or.inr (by omega)) hdup.2
      obtain ⟨_, _, hhi, _⟩ := hT.single hlast
      refine ⟨⟨le_refl _, hposlast.le, hhi, hord.weaken (by omega)⟩, ?_⟩
      intro x
      rw [List.mem_cons, hmem]
      constructor
      · intro hx
        obtain hx | rfl | ⟨hx, hge⟩ := hx
        · exact Or.inl hx
        · exact Or.inr ⟨hsT, by omega⟩
        · exact Or.inr ⟨hx, by omega⟩
      · intro hx
        obtain hx | ⟨hx, hge⟩ := hx
        · exact Or.inl hx
        · obtain hr | hr := hrest x hx
          · cases hr with
            | head => exact Or.inr (Or.inl rfl)
            | tail _ hr =>
              have hsx := hle ((List.pairwise_cons.mp htail).1 x hr)
              by_cases hover : x.lo < s.hi
              · have hposx := hpos x hx
                exact Or.inr (Or.inl (hT.eq_of_overlap hx hsT hover (by omega)))
              · exact Or.inr (Or.inr ⟨hx, by omega⟩)
          · have hposx := hpos x hx
            omega

/-- Merging sorted spans leaves the spans in order that the others lie in. -/
theorem mergeSpans_eq {n : Nat} {T L : List (Span Char)} (hT : InOrder n 0 T)
    (hpos : ∀ t ∈ T, t.lo < t.hi) (hsorted : L.Pairwise spanLe)
    (hin : ∀ s ∈ L, s ∈ T ∨ Inner T s) (hall : ∀ t ∈ T, t ∈ L)
    (hdup : L.Pairwise fun a b => a = b → a.body = []) : mergeSpans L = T := by
  have hle {a b : Span Char} (hab : spanLe a b) : a.lo ≤ b.lo := by
    obtain hab | hab := hab <;> omega
  cases L with
  | nil =>
    cases T with
    | nil => rfl
    | cons t T => exact absurd (hall t (by simp)) (by simp)
  | cons s rest =>
    have hfirst : ∀ t ∈ T, t = s ∨ (t ∈ rest ∧ s.lo ≤ t.lo) := by
      intro t ht
      obtain _ | ⟨_, hr⟩ := hall t ht
      · exact Or.inl rfl
      · exact Or.inr ⟨hr, hle ((List.pairwise_cons.mp hsorted).1 t hr)⟩
    have hsT : s ∈ T := by
      obtain hs | ⟨_, t, ht, h1, _, _⟩ := hin s (by simp)
      · exact hs
      · obtain rfl | ⟨_, hge⟩ := hfirst t ht
        · exact ht
        · omega
    obtain ⟨hord, hmem⟩ := mergeFrom_spec hT hpos hsT hsorted (fun x hx => hin x (by simp [hx]))
      (fun t ht => (hfirst t ht).elim (fun he => Or.inr (he ▸ le_refl _)) fun hr => Or.inl hr.1) hdup
    refine (hord.weaken (Nat.zero_le _)).eq_of_mem_iff hT hpos ?_
    intro x
    rw [hmem]
    constructor
    · intro hx
      obtain rfl | ⟨hx, _⟩ := hx
      · exact hsT
      · exact hx
    · intro hx
      obtain he | ⟨_, hge⟩ := hfirst x hx
      · exact Or.inl he
      · by_cases hover : x.lo < s.hi
        · have hposx := hpos x hx
          exact Or.inl (hT.eq_of_overlap hx hsT hover (by omega))
        · exact Or.inr ⟨hx, by omega⟩

theorem spanLe_total (a b : Span Char) : spanLe a b ∨ spanLe b a := by
  simp only [spanLe]
  omega

theorem spanLe_trans {a b c : Span Char} (hab : spanLe a b) (hbc : spanLe b c) : spanLe a c := by
  simp only [spanLe] at *
  omega

theorem sorted_spans (L : List (Span Char)) : (L.insertionSort spanLe).Pairwise spanLe := by
  have htotal : Std.Total spanLe := ⟨spanLe_total⟩
  have htrans : IsTrans (Span Char) spanLe := ⟨fun _ _ _ => spanLe_trans⟩
  exact List.pairwise_insertionSort spanLe L

theorem not_solid {t : Tile} {r : Nat} (hr : t.unit = some r) (h : ¬ solid t = true) :
    t.pieces = [] := by
  simpa [solid, hr] using h

/-- The spans read off the pieces and the ghosts merge to the masked tiles. -/
theorem mergeSpans_found {text : Text} {h : Hulls} {units : Units} {ghosts : List Nat}
    {tiles : List Tile} {spans : List (Span Char)} {seen : List Nat} {units' : Units}
    (T : Tiling text h ghosts tiles) (S : Shows units h) (S' : Shows units' h)
    (hspans : spans = (tiles.filter solid).map Tile.span)
    (hseen : seen = (tiles.filter solid).filterMap Tile.unit) :
    mergeSpans ((spans ++ ghostSpans units' seen ghosts).insertionSort spanLe) =
      maskedSpans tiles := by
  obtain ⟨hg1, hg2⟩ := ghostSpans_spec S' ghosts T.known seen
  have hord := maskedSpans_inOrder T.laid
  have hmemseen {r : Nat} : r ∈ seen ↔ ∃ t ∈ tiles, solid t = true ∧ t.unit = some r := by
    simp only [hseen, List.mem_filterMap, List.mem_filter, and_assoc]
  have hpos : ∀ s ∈ maskedSpans tiles, s.lo < s.hi := by
    intro s hs
    obtain ⟨t, ht, _, rfl⟩ := mem_maskedSpans.mp hs
    exact (T.laid.bounds ht).2.1
  have hspan {t : Tile} (ht : t ∈ tiles) {r : Nat} (hr : t.unit = some r) (hnil : t.pieces = []) :
      t.span = ⟨h.lo r, h.hi r, []⟩ := by
    obtain ⟨_, _, hlo, hhi⟩ := (T.ok t ht).hull hr
    simp [Tile.span, hnil, joined, hlo, hhi]
  have hperm := List.perm_insertionSort spanLe (spans ++ ghostSpans units' seen ghosts)
  refine mergeSpans_eq hord hpos (sorted_spans _) ?_ ?_ ?_
  · intro s hs
    rw [hperm.mem_iff, List.mem_append, hspans] at hs
    obtain hs | hs := hs
    · obtain ⟨t, ht, rfl⟩ := List.mem_map.mp hs
      rw [List.mem_filter, solid, Bool.and_eq_true] at ht
      exact Or.inl (mem_maskedSpans.mpr ⟨t, ht.1, ht.2.1, rfl⟩)
    · obtain ⟨g, hg, hnot, rfl⟩ := hg1 s hs
      have hlt : g < units.parent.length := S.count ▸ T.known g hg
      have hroot := S.roots.idem hlt
      obtain ⟨t, ht, hcase⟩ := T.placed (h.root g) (S.count ▸ S.roots.lt g hlt) hroot
      obtain hunit | ⟨hsome, h1, h2, h3⟩ := hcase
      · have hnil := not_solid hunit fun hsolid => hnot (hmemseen.mpr ⟨t, ht, hsolid, hunit⟩)
        exact Or.inl (mem_maskedSpans.mpr ⟨t, ht, by simp [hunit], hspan ht hunit hnil⟩)
      · exact Or.inr ⟨rfl, t.span, mem_maskedSpans.mpr ⟨t, ht, hsome, rfl⟩, h1, by
          simp only [Tile.span]
          omega, h3⟩
  · intro s hs
    rw [hperm.mem_iff, List.mem_append, hspans]
    obtain ⟨t, ht, hsome, rfl⟩ := mem_maskedSpans.mp hs
    by_cases hsolid : solid t = true
    · exact Or.inl (List.mem_map_of_mem (List.mem_filter.mpr ⟨ht, hsolid⟩))
    · obtain ⟨r, hr⟩ := Option.isSome_iff_exists.mp hsome
      have hnil := not_solid hr hsolid
      obtain ⟨g, hg, hgr⟩ := T.shown t ht r hr hnil
      obtain hin | hin := hg2 g hg
      · obtain ⟨t', ht', hsolid', hr'⟩ := hmemseen.mp hin
        rw [hgr] at hr'
        exact absurd (T.eq_of_unit ht ht' hr hr' ▸ hsolid') hsolid
      · rw [hgr, ← hspan ht hr hnil] at hin
        exact Or.inr hin
  · refine List.Pairwise.perm ?_ hperm.symm fun {a b} hab he => he ▸ hab he.symm
    rw [List.pairwise_append]
    refine ⟨?_, ?_, ?_⟩
    · have hsub : spans.Sublist (maskedSpans tiles) := by
        rw [hspans, maskedSpans]
        refine List.Sublist.map _ (List.monotone_filter_right _ ?_)
        intro t ht
        rw [solid, Bool.and_eq_true] at ht
        exact ht.1
      refine (hord.pairwise.sublist hsub).imp_of_mem fun {a b} ha _ hab he => ?_
      have := hpos a (hsub.subset ha)
      rw [he] at this hab
      omega
    · refine List.pairwise_of_forall_mem_list fun a ha b _ _ => ?_
      obtain ⟨g, _, _, rfl⟩ := hg1 a ha
      rfl
    · intro a _ b hb he
      obtain ⟨g, _, _, rfl⟩ := hg1 b hb
      rw [he]

/-! Both passes over the rules. -/

def substituteAll (text : Text) (rules : List MaskingRule) : Text :=
  rules.foldl (fun text rule => rule.substitute text) text

theorem substitute_of_hits_nil {rule : MaskingRule} {text : Text} (h : rule.hits text = []) :
    rule.substitute text = text := by
  rw [substitute_eq_hits, h]
  rfl

theorem hits_nil (rule : MaskingRule) : rule.hits [] = [] := by
  refine List.eq_nil_iff_forall_not_mem.mpr fun m hm => ?_
  obtain ⟨_, _, hlen, _⟩ := (hits_ordered rule []).single (List.mem_map_of_mem hm)
  have hpos := hits_pos hm
  simp only [Match.span, List.length_nil] at hlen
  omega

theorem substituteAll_nil (rules : List MaskingRule) : substituteAll [] rules = [] := by
  induction rules with
  | nil => rfl
  | cons rule rules ih =>
    rw [substituteAll, List.foldl_cons, substitute_of_hits_nil (hits_nil rule)]
    exact ih

theorem applyRule_text (result : MaskingResult) (rule : MaskingRule) :
    (applyRule true result rule).text = rule.substitute result.text := by
  unfold applyRule
  simp only []
  split
  · rename_i hnil
    exact (substitute_of_hits_nil (List.isEmpty_iff.mp hnil)).symm
  · split
    · rename_i hsame
      exact (by simpa using hsame : rule.substitute result.text = result.text).symm
    · rfl

theorem applyRules_text (text : Text) (rules : List MaskingRule) :
    (applyRules text rules true).text = substituteAll text rules := by
  have hfold (result : MaskingResult) :
      (rules.foldl (applyRule true) result).text = substituteAll result.text rules := by
    induction rules generalizing result with
    | nil => rfl
    | cons rule rules ih =>
      rw [List.foldl_cons, ih, applyRule_text]
      rfl
  unfold applyRules
  simp only []
  split
  · rename_i hnil
    rw [Bool.or_eq_true, List.isEmpty_iff, List.isEmpty_iff] at hnil
    obtain rfl | rfl := hnil
    · exact (substituteAll_nil rules).symm
    · rfl
  · exact hfold _

theorem good_start {text : Text} (h : text ≠ []) : Good text ⟨[], [], []⟩ [] [⟨none, 0, text⟩] := by
  refine ⟨⟨0, id, fun _ => 0, fun _ => 0⟩, ⟨rfl, rfl, rfl, ?_, by simp, by simp⟩,
    [⟨0, text.length, none, [⟨none, 0, text⟩]⟩], ⟨⟨rfl, ?_, rfl⟩, ?_, by simp, by simp, by simp⟩, rfl⟩
  · constructor <;> simp
  · exact List.length_pos_iff.mpr h
  · intro t ht
    rw [List.mem_singleton] at ht
    subst ht
    simp [Tile.Ok, slice_full]

theorem foldl_maskRule_spec {text : Text} {state : Masking} (rules : List MaskingRule)
    (G : Good text state.units state.ghosts state.pieces) :
    Good text (rules.foldl maskRule state).units (rules.foldl maskRule state).ghosts
      (rules.foldl maskRule state).pieces ∧
    joined (rules.foldl maskRule state).pieces = substituteAll (joined state.pieces) rules ∧
    ((rules.foldl maskRule state).units.parent = [] → state.units.parent = [] ∧
      ∀ before rule after, rules = before ++ rule :: after →
        rule.hits (substituteAll (joined state.pieces) before) = []) := by
  induction rules generalizing state with
  | nil => exact ⟨G, rfl, fun h => ⟨h, by simp⟩⟩
  | cons rule rules ih =>
    obtain ⟨hG, hne, hj⟩ := maskRule_spec rule G
    obtain ⟨hG', hj', hnone⟩ := ih hG
    rw [hj] at hj' hnone
    refine ⟨hG', hj', ?_⟩
    intro hnil
    obtain ⟨hstart, hrest⟩ := hnone hnil
    have hboth : state.units.parent = [] ∧ rule.hits (joined state.pieces) = [] := by
      by_contra hcon
      rw [not_and_or] at hcon
      exact hne hcon hstart
    refine ⟨hboth.1, ?_⟩
    intro before r after he
    cases before with
    | nil =>
      rw [List.nil_append, List.cons.injEq] at he
      exact he.1 ▸ hboth.2
    | cons b before =>
      rw [List.cons_append, List.cons.injEq] at he
      rw [substituteAll, List.foldl_cons, ← he.1]
      exact hrest before r after he.2

/-- Spans that cover what the rules match. -/
structure Found (text : Text) (rules : List MaskingRule) (spans : List (Span Char)) : Prop where
  inOrder : InOrder text.length 0 spans
  nonempty : ∀ s ∈ spans, s.lo < s.hi
  spliced : splice text spans = substituteAll text rules
  missed : spans = [] → ∀ before rule after, rules = before ++ rule :: after → rule.hits (substituteAll text before) = []

theorem findMaskedSpans_found (text : Text) (rules : List MaskingRule) : Found text rules (findMaskedSpans text rules) := by
  unfold findMaskedSpans
  simp only []
  split
  · rename_i hnil
    rw [Bool.or_eq_true, List.isEmpty_iff, List.isEmpty_iff] at hnil
    obtain rfl | rfl := hnil
    · exact ⟨trivial, by simp, (substituteAll_nil rules).symm, fun _ before rule _ _ => by
        rw [substituteAll_nil, hits_nil]⟩
    · exact ⟨trivial, by simp, rfl, by simp⟩
  · rename_i hsome
    have htext : text ≠ [] := by
      intro he
      simp [he] at hsome
    have hgood : Good text (⟨[⟨none, 0, text⟩], ⟨[], [], []⟩, []⟩ : Masking).units [] [⟨none, 0, text⟩] :=
      good_start htext
    obtain ⟨⟨h, S, tiles, T, hf⟩, hj, hnone⟩ := foldl_maskRule_spec rules hgood
    generalize rules.foldl maskRule ⟨[⟨none, 0, text⟩], ⟨[], [], []⟩, []⟩ = state at S T hf hj hnone ⊢
    have hstart : joined [⟨none, 0, text⟩] = text := by simp [joined]
    simp only [hstart] at hj hnone
    have hsplice : splice text (maskedSpans tiles) = substituteAll text rules := by
      rw [splice, spliceFrom_maskedSpans T.laid T.ok, hf, hj]
    split
    · rename_i hempty
      rw [List.isEmpty_iff] at hempty
      have hcount : h.count = 0 := by
        rw [← S.count, hempty]
        rfl
      have hmasked : maskedSpans tiles = [] := by
        refine List.eq_nil_iff_forall_not_mem.mpr fun s hs => ?_
        obtain ⟨t, ht, hsome, _⟩ := mem_maskedSpans.mp hs
        obtain ⟨r, hr⟩ := Option.isSome_iff_exists.mp hsome
        have := ((T.ok t ht).hull hr).1
        omega
      rw [hmasked] at hsplice
      exact ⟨trivial, by simp, hsplice, fun _ => (hnone hempty).2⟩
    · rename_i hunits
      have hfuel : (tiles.flatMap Tile.pieces).length ≤ state.pieces.length := by rw [hf]
      obtain ⟨h1, h2, h3⟩ := pieceSpans_spec S tiles T.laid T.ok [] state.pieces.length hfuel
      rw [hf] at h1 h2 h3
      rw [mergeSpans_found T S h3 h1 (by simpa using h2)]
      refine ⟨maskedSpans_inOrder T.laid, ?_, hsplice, ?_⟩
      · intro s hs
        obtain ⟨t, ht, _, rfl⟩ := mem_maskedSpans.mp hs
        exact (T.laid.bounds ht).2.1
      · intro hnil
        have hpos : 0 < h.count := by
          rw [← S.count]
          exact List.length_pos_iff.mpr (by simpa using hunits)
        have hlt := S.roots.lt 0 (S.count ▸ hpos)
        obtain ⟨t, ht, hcase⟩ := T.placed (h.root 0) (S.count ▸ hlt) (S.roots.idem (S.count ▸ hpos))
        have hmasked : t.unit.isSome := by
          obtain hunit | hin := hcase
          · simp [hunit]
          · exact hin.1
        have hmem := mem_maskedSpans.mpr ⟨t, ht, hmasked, rfl⟩
        rw [hnil] at hmem
        cases hmem

/-- Without spans no rule matches the text. -/
theorem Found.hits_nil {text : Text} {rules : List MaskingRule} (h : Found text rules []) :
    ∀ rule ∈ rules, rule.hits text = [] := by
  have hmissed := h.missed rfl
  clear h
  induction rules with
  | nil => exact fun _ hr => nomatch hr
  | cons rule rules ih =>
    have hfirst : rule.hits text = [] := hmissed [] rule rules rfl
    intro r hr
    rcases List.mem_cons.mp hr with rfl | hr
    · exact hfirst
    · refine ih (fun before r after he => ?_) r hr
      have := hmissed (rule :: before) r after (by rw [he]; rfl)
      rwa [substituteAll, List.foldl_cons, substitute_of_hits_nil hfirst] at this

theorem findMaskedSpans_agrees (text : Text) (rules : List MaskingRule) :
    InOrder text.length 0 (findMaskedSpans text rules) ∧
    (∀ s ∈ findMaskedSpans text rules, s.lo < s.hi) ∧
    splice text (findMaskedSpans text rules) = (applyRules text rules true).text ∧
    (findMaskedSpans text rules = [] → ∀ before rule after, rules = before ++ rule :: after →
      rule.hits (applyRules text before true).text = []) := by
  simp only [applyRules_text]
  obtain ⟨hin, hne, hsplice, hmissed⟩ := findMaskedSpans_found text rules
  exact ⟨hin, hne, hsplice, hmissed⟩

end XgenSdk.Spans
