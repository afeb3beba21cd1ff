import XgenSdk.ControlPolicy.HtmlCuts

/-! What a tag depends on: its own characters, and that no quote it leaves open
comes behind it. -/
namespace XgenSdk.HtmlTags
open XgenSdk.Search XgenSdk.Rules XgenSdk.Html XgenSdk.HtmlScan XgenSdk.HtmlCuts

/-- The value of the attribute a round of the tag scan reads, with all behind it. -/
def tagValue (s : Text) : Option Text :=
  match s.dropWhile Py.isSpace with
  | [] => none
  | c :: t =>
    if c = '>' ∨ c = '/' then none
    else match (t.dropWhile attrNameChar).dropWhile Py.isSpace with
      | '=' :: v => some (v.dropWhile Py.isSpace)
      | _ => none

/-- Scanned from its attributes on, the tag has a value whose quote never closes. -/
inductive LeavesOpen : Text → Char → Prop
  | value {s quote t} : tagValue s = some (quote :: t) → isQuote quote = true → quote ∉ t → LeavesOpen s quote
  | more {s mid quote} : tagStep s = .more mid → LeavesOpen mid quote → LeavesOpen s quote

/-! The text behind a character. -/

theorem afterChar_of_mem {c : Char} {front back : Text} (h : c ∉ front) :
    afterChar c (front ++ c :: back) = some back := by
  have hs : search (literal [c]) (front ++ c :: back) = some (front.length, 1) := by
    refine search_eq_some (by simp) ?_ fun j hj => ?_
    · rw [List.drop_left]
      exact literal_eq_some.mpr ⟨by simp, rfl⟩
    · cases hm : literal [c] ((front ++ c :: back).drop j) with
      | none => rfl
      | some n =>
        obtain ⟨rest, hrest⟩ := (literal_eq_some.mp hm).1
        rw [List.drop_append_of_le_length (by omega)] at hrest
        cases hd : front.drop j with
        | nil =>
          have hlen := congrArg List.length hd
          rw [List.length_drop] at hlen
          simp at hlen
          omega
        | cons x xs =>
          rw [hd] at hrest
          obtain rfl : c = x := (List.cons.inj hrest).1
          exact absurd (List.mem_of_mem_drop (hd ▸ List.mem_cons_self)) h
  rw [afterChar, hs, Option.map_some, ← List.drop_drop, List.drop_left]
  rfl

theorem afterChar_of_notMem {c : Char} {s : Text} (h : c ∉ s) : afterChar c s = none := by
  cases hs : afterChar c s with
  | none => rfl
  | some rest =>
    obtain ⟨⟨k, n⟩, hfound, -⟩ := Option.map_eq_some_iff.mp hs
    obtain ⟨t, ht⟩ := (literal_eq_some.mp (search_some hfound).2.1).1
    have hmem : c ∈ s.drop k := by
      rw [← ht]
      exact List.mem_cons_self
    exact absurd (List.mem_of_mem_drop hmem) h

/-- Split at the first `c`. -/
theorem split_first {c : Char} {s : Text} (h : c ∈ s) : ∃ front back, s = front ++ c :: back ∧ c ∉ front := by
  induction s with
  | nil => cases h
  | cons x s ih =>
    by_cases hx : x = c
    · exact ⟨[], s, by rw [hx]; rfl, List.not_mem_nil⟩
    · obtain ⟨front, back, rfl, hfront⟩ := ih ((List.mem_cons.mp h).resolve_left (Ne.symm hx))
      exact ⟨x :: front, back, rfl, by simp [Ne.symm hx, hfront]⟩

theorem afterChar_suffix {c : Char} {s y : Text} (h : afterChar c s = some y) : y <:+ s ∧ y.length < s.length := by
  by_cases hmem : c ∈ s
  · obtain ⟨front, back, rfl, hfront⟩ := split_first hmem
    rw [afterChar_of_mem hfront] at h
    obtain rfl := Option.some.inj h
    exact ⟨⟨front ++ [c], by simp⟩, by simp only [List.length_append, List.length_cons]; omega⟩
  · rw [afterChar_of_notMem hmem] at h
    cases h

/-- A run that ends in the first part ends there whatever follows. -/
theorem dropWhile_append {p : Char → Bool} {m : Text} (h : m.dropWhile p ≠ []) (r : Text) :
    (m ++ r).dropWhile p = m.dropWhile p ++ r := by
  rw [List.dropWhile_append, if_neg (by simpa using h)]

theorem dropWhile_through {p : Char → Bool} {m : Text} (h : m.dropWhile p = []) (r : Text) :
    (m ++ r).dropWhile p = r.dropWhile p := by
  rw [List.dropWhile_append, if_pos (by simpa using h)]

theorem length_dropWhile_le (p : Char → Bool) (s : Text) : (s.dropWhile p).length ≤ s.length :=
  (List.dropWhile_sublist p).length_le

theorem mem_of_mem_dropWhile {p : Char → Bool} {s : Text} {c : Char} (h : c ∈ s.dropWhile p) : c ∈ s :=
  (List.dropWhile_sublist p).subset h

/-! A round gets shorter. -/

/-- Less than `n` characters behind a round that ends the tag, at most `n` behind another one. -/
def Within (n : Nat) : TagStep → Prop
  | .ended rest => rest.length < n
  | .more rest => rest.length ≤ n

theorem Within.mono {m n : Nat} {step : TagStep} (h : Within m step) (hle : m ≤ n) : Within n step := by
  cases step with
  | ended rest => exact Nat.lt_of_lt_of_le h hle
  | more rest => exact Nat.le_trans h hle

theorem valueStep_within (s : Text) : Within s.length (valueStep s) := by
  cases s with
  | nil => exact Nat.le_refl _
  | cons quote s =>
    rw [valueStep]
    split
    · split
      · rename_i rest hrest
        exact (afterChar_suffix hrest).2.le.trans (Nat.le_succ _)
      · cases hgt : afterChar '>' (quote :: s) with
        | none => exact Nat.succ_pos _
        | some rest => exact (afterChar_suffix hgt).2
    · exact length_dropWhile_le _ _

theorem attrStep_within (s : Text) : Within s.length (attrStep s) := by
  unfold attrStep
  split
  · rename_i s
    exact (valueStep_within _).mono ((length_dropWhile_le _ s).trans (Nat.le_succ _))
  · exact Nat.le_refl _

/-- Every round takes a character. -/
theorem tagStep_shorter {s rest : Text} (hs : s ≠ [])
    (h : tagStep s = .ended rest ∨ tagStep s = .more rest) : rest.length < s.length := by
  have hpos := List.length_pos_iff.mpr hs
  unfold tagStep at h
  have hle := length_dropWhile_le Py.isSpace s
  split at h
  · obtain h | h := h
    · rw [← TagStep.ended.inj h]
      exact hpos
    · cases h
  · rename_i c t ht
    rw [ht, List.length_cons] at hle
    split at h
    · obtain h | h := h
      · rw [← TagStep.ended.inj h]
        omega
      · cases h
    · split at h
      · obtain h | h := h
        · cases h
        · rw [← TagStep.more.inj h]
          omega
      · have hattr := attrStep_within ((t.dropWhile attrNameChar).dropWhile Py.isSpace)
        have hle1 := length_dropWhile_le attrNameChar t
        have hle2 := length_dropWhile_le Py.isSpace (t.dropWhile attrNameChar)
        obtain h | h := h
        · rw [h] at hattr
          have hlt : rest.length < _ := hattr
          omega
        · rw [h] at hattr
          have hlt : rest.length ≤ _ := hattr
          omega

theorem tagTo_shorter {s rest : Text} (h : TagTo s rest) (hrest : rest ≠ []) : rest.length < s.length := by
  induction h with
  | @ended s rest hstep =>
    have hs : s ≠ [] := by
      rintro rfl
      exact hrest (TagStep.ended.inj hstep).symm
    exact tagStep_shorter hs (.inl hstep)
  | @more s mid rest hstep hto ih =>
    have hs : s ≠ [] := by
      rintro rfl
      cases hstep
    exact (ih hrest).trans (tagStep_shorter hs (.inr hstep))

/-! A round on a tag with a text behind it. -/

/-- What a round on `m ++ r` comes to: it runs over into `r`, or goes on in `m`, or ends the tag
there, with or without a quote left open. -/
inductive Round (m r : Text) : Prop
  | over : Within r.length (tagStep (m ++ r)) → Round m r
  | on (mid : Text) : (∀ c ∈ mid, c ∈ m) → (∀ r', tagStep (m ++ r') = .more (mid ++ r')) → Round m r
  | closed (rest : Text) : '>' ∈ m → tagValue m = none → (∀ r', tagStep (m ++ r') = .ended (rest ++ r')) → Round m r
  | leftOpen (quote : Char) (value rest : Text) : tagValue m = some (quote :: value) → isQuote quote = true →
      quote ∉ value → quote ∉ r → '>' ∈ m →
      (∀ r', quote ∉ r' → tagStep (m ++ r') = .ended (rest ++ r')) → Round m r

/-- A round at a value that begins in `m`. -/
theorem round_value {m w r : Text} (hmem : ∀ c ∈ w, c ∈ m) (hw : w ≠ []) (hr : r ≠ []) (hvalue : tagValue m = some w)
    (hstep : ∀ r', tagStep (m ++ r') = valueStep (w ++ r')) : Round m r := by
  obtain ⟨quote, value, rfl⟩ := List.exists_cons_of_ne_nil hw
  by_cases hq : isQuote quote = true
  · by_cases hclose : quote ∈ value
    · obtain ⟨front, back, rfl, hfront⟩ := split_first hclose
      refine .on back (fun c hc => hmem c (by simp [hc])) fun r' => ?_
      rw [hstep, List.cons_append]
      exact valueStep_closed hq (by rw [List.append_assoc, List.cons_append, afterChar_of_mem hfront])
    · by_cases hin : quote ∈ r
      · -- it is closed behind the tag
        obtain ⟨front, back, rfl, hfront⟩ := split_first hin
        refine .over ?_
        rw [hstep, List.cons_append, ← List.append_assoc,
          valueStep_closed hq (afterChar_of_mem (by simp [hclose, hfront]))]
        change back.length ≤ (front ++ quote :: back).length
        rw [List.length_append, List.length_cons]
        omega
      · have hended : ∀ r', quote ∉ r' →
            tagStep (m ++ r') = .ended ((afterChar '>' (quote :: (value ++ r'))).getD []) := by
          intro r' hr'
          rw [hstep, List.cons_append, valueStep_open hq (afterChar_of_notMem (by simp [hclose, hr']))]
        by_cases hgt : '>' ∈ quote :: value
        · obtain ⟨front, back, hsplit, hfront⟩ := split_first hgt
          refine .leftOpen quote value back hvalue hq hclose hin (hmem _ hgt) fun r' hr' => ?_
          rw [hended r' hr', ← List.cons_append, hsplit, List.append_assoc, List.cons_append,
            afterChar_of_mem hfront]
          rfl
        · -- so is the first `>`
          refine .over ?_
          rw [hended r hin]
          by_cases hgt' : '>' ∈ r
          · obtain ⟨front, back, rfl, hfront⟩ := split_first hgt'
            have hnone : '>' ∉ quote :: value ++ front := by
              rw [List.mem_append]
              exact fun h => h.elim hgt hfront
            rw [← List.cons_append, ← List.append_assoc, afterChar_of_mem hnone]
            change back.length < (front ++ '>' :: back).length
            rw [List.length_append, List.length_cons]
            omega
          · have hnone : '>' ∉ quote :: (value ++ r) := by
              rw [← List.cons_append, List.mem_append]
              exact fun h => h.elim hgt hgt'
            rw [afterChar_of_notMem hnone]
            exact List.length_pos_iff.mpr hr
  · have hstep' : ∀ r', tagStep (m ++ r') = .more ((quote :: value ++ r').dropWhile unquotedChar) := by
      intro r'
      rw [hstep, List.cons_append, valueStep, if_neg hq]
    by_cases hover : (quote :: value).dropWhile unquotedChar = []
    · refine .over ?_
      rw [hstep', dropWhile_through hover]
      exact length_dropWhile_le _ _
    · refine .on ((quote :: value).dropWhile unquotedChar) (fun c hc => hmem c (mem_of_mem_dropWhile hc))
        fun r' => ?_
      rw [hstep', dropWhile_append hover]

theorem round_of (m : Text) {r : Text} (hr : r ≠ []) : Round m r := by
  by_cases hspaces : m.dropWhile Py.isSpace = []
  · -- spaces only
    have hstep : tagStep (m ++ r) = tagStep r := by
      unfold tagStep
      rw [dropWhile_through hspaces]
    refine .over ?_
    rw [hstep]
    cases hr' : tagStep r with
    | ended rest => exact tagStep_shorter hr (.inl hr')
    | more rest => exact (tagStep_shorter hr (.inr hr')).le
  · obtain ⟨c, t, hct⟩ := List.exists_cons_of_ne_nil hspaces
    have hmem : ∀ x ∈ c :: t, x ∈ m := fun x hx => mem_of_mem_dropWhile (hct ▸ hx)
    have hdrop : ∀ r', (m ++ r').dropWhile Py.isSpace = c :: (t ++ r') := by
      intro r'
      rw [dropWhile_append hspaces, hct, List.cons_append]
    by_cases hgt : c = '>'
    · refine .closed t (hmem _ (hgt ▸ List.mem_cons_self)) ?_ fun r' => ?_
      · rw [tagValue, hct]
        simp [hgt]
      · rw [tagStep, hdrop]
        simp [hgt]
    · by_cases hslash : c = '/'
      · refine .on t (fun x hx => hmem x (List.mem_cons_of_mem _ hx)) fun r' => ?_
        rw [tagStep, hdrop]
        simp [hslash]
      · have hattr : ∀ r', tagStep (m ++ r') =
            attrStep (((t ++ r').dropWhile attrNameChar).dropWhile Py.isSpace) := by
          intro r'
          rw [tagStep, hdrop]
          simp only [if_neg hgt, if_neg hslash]
        by_cases hname : t.dropWhile attrNameChar = []
        · refine .over ?_
          rw [hattr, dropWhile_through hname]
          exact (attrStep_within _).mono ((length_dropWhile_le _ _).trans (length_dropWhile_le _ _))
        · by_cases hafter : (t.dropWhile attrNameChar).dropWhile Py.isSpace = []
          · refine .over ?_
            rw [hattr, dropWhile_append hname, dropWhile_through hafter]
            exact (attrStep_within _).mono (length_dropWhile_le _ _)
          · have hattr' : ∀ r', tagStep (m ++ r') =
                attrStep ((t.dropWhile attrNameChar).dropWhile Py.isSpace ++ r') := by
              intro r'
              rw [hattr, dropWhile_append hname, dropWhile_append hafter]
            have hsub : ∀ x ∈ (t.dropWhile attrNameChar).dropWhile Py.isSpace, x ∈ m := fun x hx =>
              hmem x (List.mem_cons_of_mem _ (mem_of_mem_dropWhile (mem_of_mem_dropWhile hx)))
            obtain ⟨x, v, hxv⟩ := List.exists_cons_of_ne_nil hafter
            rw [hxv] at hattr' hsub
            by_cases heq : x = '='
            · subst heq
              by_cases hvalue : v.dropWhile Py.isSpace = []
              · refine .over ?_
                rw [hattr', List.cons_append, attrStep, dropWhile_through hvalue]
                exact (valueStep_within _).mono (length_dropWhile_le _ _)
              · refine round_value (fun x hx => hsub x (List.mem_cons_of_mem _ (mem_of_mem_dropWhile hx)))
                  hvalue hr ?_ fun r' => ?_
                · rw [tagValue, hct]
                  simp [hgt, hslash, hxv]
                · rw [hattr', List.cons_append, attrStep, dropWhile_append hvalue]
            · refine .on (x :: v) hsub fun r' => ?_
              rw [hattr', List.cons_append]
              unfold attrStep
              split
              · rename_i s hs
                exact absurd (List.cons.inj hs).1 heq
              · rfl

/-! Whole tags. -/

/-- A value whose quote stays open ends the scan of the tag by itself. -/
theorem ended_of_tagValue {m value : Text} {quote : Char} (h : tagValue m = some (quote :: value))
    (hq : isQuote quote = true) (hopen : quote ∉ value) : ∃ rest, tagStep m = .ended rest := by
  unfold tagValue at h
  split at h
  · cases h
  · rename_i c t hct
    split at h
    · cases h
    · rename_i hc
      split at h
      · rename_i v hv
        refine ⟨(afterChar '>' (quote :: value)).getD [], ?_⟩
        have hc' := not_or.mp hc
        unfold tagStep
        rw [hct]
        simp only [if_neg hc'.1, if_neg hc'.2]
        rw [hv, attrStep, Option.some.inj h, valueStep, if_pos hq, afterChar_of_notMem hopen]
      · cases h

theorem leavesOpen_iff_of_more {m mid : Text} {quote : Char} (hstep : tagStep m = .more mid) :
    LeavesOpen m quote ↔ LeavesOpen mid quote := by
  constructor
  · intro h
    cases h with
    | value hvalue hq hopen =>
      obtain ⟨rest, hended⟩ := ended_of_tagValue hvalue hq hopen
      rw [hstep] at hended
      cases hended
    | more hstep' hrest => exact TagStep.more.inj (hstep'.symm.trans hstep) ▸ hrest
  · exact .more hstep

theorem leavesOpen_iff_of_ended {m rest : Text} {quote : Char} (hstep : tagStep m = .ended rest) :
    LeavesOpen m quote ↔ ∃ value, tagValue m = some (quote :: value) ∧ isQuote quote = true ∧ quote ∉ value := by
  constructor
  · intro h
    cases h with
    | value hvalue hq hopen => exact ⟨_, hvalue, hq, hopen⟩
    | more hstep' _ => cases hstep'.symm.trans hstep
  · rintro ⟨value, hvalue, hq, hopen⟩
    exact .value hvalue hq hopen

/-- A tag that ends before a text holds its `>` and leaves open no quote that is in the text;
it ends before any other text of which that is so too. -/
theorem tagTo_append {m r : Text} (hr : r ≠ []) (h : TagTo (m ++ r) r) :
    '>' ∈ m ∧ (∀ quote, LeavesOpen m quote → quote ∉ r) ∧
      ∀ r', (∀ quote, LeavesOpen m quote → quote ∉ r') → TagTo (m ++ r') r' := by
  generalize hs : m ++ r = s at h
  induction h generalizing m with
  | @ended s rest hstep =>
    subst hs
    cases round_of m hr with
    | «over» hwithin =>
      rw [hstep] at hwithin
      exact absurd hwithin (Nat.lt_irrefl _)
    | on mid _ hall => cases hstep.symm.trans (hall rest)
    | closed front hgt hnone hall =>
      obtain rfl : front = [] := by simpa using TagStep.ended.inj (hstep.symm.trans (hall rest))
      have hno : ∀ quote, ¬ LeavesOpen m quote := by
        intro quote hopen
        have hself := hall []
        rw [List.append_nil] at hself
        obtain ⟨value, hvalue, -⟩ := (leavesOpen_iff_of_ended hself).mp hopen
        rw [hnone] at hvalue
        cases hvalue
      exact ⟨hgt, fun quote hopen => absurd hopen (hno quote), fun r' _ => .ended (hall r')⟩
    | leftOpen quote value front hvalue hq hopen hnotin hgt hall =>
      obtain rfl : front = [] := by simpa using TagStep.ended.inj (hstep.symm.trans (hall rest hnotin))
      have hself := hall [] List.not_mem_nil
      rw [List.append_nil] at hself
      have honly : ∀ other, LeavesOpen m other ↔ other = quote := by
        intro other
        rw [leavesOpen_iff_of_ended hself, hvalue]
        constructor
        · rintro ⟨value', heq, -⟩
          exact (List.cons.inj (Option.some.inj heq)).1.symm
        · rintro rfl
          exact ⟨value, rfl, hq, hopen⟩
      refine ⟨hgt, fun other hother => ?_, fun r' hr' => .ended (hall r' (hr' quote ((honly quote).mpr rfl)))⟩
      rw [(honly other).mp hother]
      exact hnotin
  | @more s mid rest hstep hto ih =>
    subst hs
    cases round_of m hr with
    | «over» hwithin =>
      rw [hstep] at hwithin
      exact absurd (tagTo_shorter hto hr) (Nat.not_lt_of_le hwithin)
    | on front hsub hall =>
      obtain rfl : mid = front ++ rest := TagStep.more.inj (hstep.symm.trans (hall rest))
      obtain ⟨hgt, hclosed, hany⟩ := ih hr rfl
      have hself := hall []
      rw [List.append_nil, List.append_nil] at hself
      refine ⟨hsub _ hgt, fun quote hopen => ?_, fun r' hr' => .more (hall r') (hany r' fun quote hopen => ?_)⟩
      · exact hclosed quote ((leavesOpen_iff_of_more hself).mp hopen)
      · exact hr' quote ((leavesOpen_iff_of_more hself).mpr hopen)
    | closed front _ _ hall => cases hstep.symm.trans (hall rest)
    | leftOpen quote value front _ _ _ hnotin _ hall => cases hstep.symm.trans (hall rest hnotin)

end XgenSdk.HtmlTags
