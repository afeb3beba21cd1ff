import Mathlib.Data.List.TakeWhile
import XgenSdk.ControlPolicy.Html

/-! The scan of an HTML document as a relation on texts, and that the loops over
positions compute it. -/
namespace XgenSdk.HtmlScan
open XgenSdk.Search XgenSdk.Splice XgenSdk.Rules XgenSdk.Html

theorem drop_run (p : Char → Bool) (s : Text) : s.drop (s.takeWhile p).length = s.dropWhile p := by
  have h := List.takeWhile_append_dropWhile (p := p) (l := s)
  calc s.drop (s.takeWhile p).length
      = (s.takeWhile p ++ s.dropWhile p).drop (s.takeWhile p).length := by rw [h]
    _ = s.dropWhile p := List.drop_left

/-! Closing tags. -/

theorem closingAt_some {name s : Text} {n : Nat} (h : closingAt name s = some n) :
    ∃ body spaces after, s = '<' :: '/' :: (body ++ spaces ++ '>' :: after) ∧ body.length = name.length ∧
      sameCaseless body name = true ∧ (∀ c ∈ spaces, Py.isSpace c = true) ∧
      n = 2 + name.length + spaces.length + 1 := by
  unfold closingAt at h
  split at h
  · rename_i s
    split at h
    · rename_i hsame
      dsimp only at h
      split at h
      · rename_i hgt
        have hlen : (s.take name.length).length = name.length := by
          have hmap := congrArg List.length (of_decide_eq_true hsame)
          simpa using hmap
        have hdrop : s.drop (name.length + ((s.drop name.length).takeWhile Py.isSpace).length) =
            (s.drop name.length).dropWhile Py.isSpace := by
          rw [← List.drop_drop, drop_run]
        obtain ⟨after, hafter⟩ : ∃ after, (s.drop name.length).dropWhile Py.isSpace = '>' :: after := by
          rw [hdrop] at hgt
          exact List.head?_eq_some_iff.mp hgt
        refine ⟨s.take name.length, (s.drop name.length).takeWhile Py.isSpace, after, ?_, hlen, hsame, ?_,
          (Option.some.inj h).symm⟩
        · rw [← hafter, List.append_assoc, List.takeWhile_append_dropWhile, List.take_append_drop]
        · exact fun c hc => List.mem_takeWhile_imp hc
      · cases h
    · cases h
  · cases h

theorem closingAt_of {name body spaces after : Text} (hlen : body.length = name.length)
    (hsame : sameCaseless body name = true) (hspaces : ∀ c ∈ spaces, Py.isSpace c = true) :
    closingAt name ('<' :: '/' :: (body ++ spaces ++ '>' :: after)) = some (2 + name.length + spaces.length + 1) := by
  have htake : (body ++ spaces ++ '>' :: after).take name.length = body := by
    rw [List.append_assoc, ← hlen, List.take_left]
  have hdrop : (body ++ spaces ++ '>' :: after).drop name.length = spaces ++ '>' :: after := by
    rw [List.append_assoc, ← hlen, List.drop_left]
  have hspan : (spaces ++ '>' :: after).takeWhile Py.isSpace = spaces := by
    rw [List.takeWhile_append_of_pos hspaces, List.takeWhile_cons]
    simp [show Py.isSpace '>' = false by decide]
  simp only [closingAt]
  rw [htake, if_pos hsame, hdrop, hspan, ← List.drop_drop, hdrop, List.drop_left]
  rfl

theorem toLower_eq_lt {c : Char} (h : c.toLower = '<') : c = '<' := by
  unfold Char.toLower at h
  split at h
  · rename_i hupper
    exfalso
    have hlow : 65 ≤ c.val.toNat := hupper.1
    have hhigh : c.val.toNat ≤ 90 := hupper.2
    have hval : (c.val + ('a'.val - 'A'.val)).toNat = 60 := congrArg (fun c => c.val.toNat) h
    have hshift : ('a'.val - 'A'.val).toNat = 32 := by decide
    rw [UInt32.toNat_add, hshift] at hval
    omega
  · exact h

theorem caseless_eq_lt {c : Char} (h : caseless c = '<') : c = '<' := by
  unfold caseless at h
  split at h
  · exact absurd h (by decide)
  · split at h
    · exact absurd h (by decide)
    · exact toLower_eq_lt h

/-- Letters of `name` are no angle brackets, so closing tags do not overlap. -/
theorem notMem_of_sameCaseless {body name : Text} (hsame : sameCaseless body name = true) (hname : '<' ∉ name) :
    '<' ∉ body := by
  intro hmem
  have hfolded : '<' ∈ name.map caseless := by
    rw [← of_decide_eq_true hsame]
    exact List.mem_map.mpr ⟨'<', hmem, by decide⟩
  obtain ⟨c, hc, heq⟩ := List.mem_map.mp hfolded
  exact hname (caseless_eq_lt heq ▸ hc)

theorem local_closingAt (name : Text) : Local (closingAt name) where
  pos := by
    intro s n h
    obtain ⟨body, spaces, after, -, -, -, -, rfl⟩ := closingAt_some h
    omega
  length_le := by
    intro s n h
    obtain ⟨body, spaces, after, rfl, hlen, -, -, rfl⟩ := closingAt_some h
    simp only [List.length_cons, List.length_append]
    omega
  append := by
    intro s n t h
    obtain ⟨body, spaces, after, rfl, hlen, hsame, hspaces, rfl⟩ := closingAt_some h
    have happend : '<' :: '/' :: (body ++ spaces ++ '>' :: after) ++ t =
        '<' :: '/' :: (body ++ spaces ++ '>' :: (after ++ t)) := by simp
    rw [happend]
    exact closingAt_of hlen hsame hspaces
  take := by
    intro s n h
    obtain ⟨body, spaces, after, rfl, hlen, hsame, hspaces, rfl⟩ := closingAt_some h
    have htake : ('<' :: '/' :: (body ++ spaces ++ '>' :: after)).take (2 + name.length + spaces.length + 1) =
        '<' :: '/' :: (body ++ spaces ++ '>' :: []) := by
      have hsplit : '<' :: '/' :: (body ++ spaces ++ '>' :: after) =
          ('<' :: '/' :: (body ++ spaces ++ '>' :: [])) ++ after := by simp
      rw [hsplit, List.take_left' (by simp only [List.length_cons, List.length_append, List.length_nil]; omega)]
    rw [htake]
    exact closingAt_of hlen hsame hspaces

theorem unbordered_closingAt {name : Text} (hname : '<' ∉ name) : Unbordered (closingAt name) := by
  intro v w hv hw i hi hlt
  obtain ⟨body, spaces, after, hv, hlen, hsame, hspaces, hn⟩ := closingAt_some hv
  obtain ⟨body', spaces', after', rfl, -, -, -, -⟩ := closingAt_some hw
  have hafter : after = [] := by
    have hcount := congrArg List.length hv
    simp only [List.length_cons, List.length_append] at hcount
    exact List.length_eq_zero_iff.mp (by omega)
  have htail : '<' ∉ v.tail := by
    rw [hv, hafter]
    have hbody := notMem_of_sameCaseless hsame hname
    have hspace : '<' ∉ spaces := fun hmem => absurd (hspaces '<' hmem) (by decide)
    simp [hbody, hspace]
  have hdrop : '<' ∉ v.drop i := by
    intro hmem
    cases i with
    | zero => exact absurd hi (Nat.lt_irrefl 0)
    | succ k =>
      rw [← List.drop_tail] at hmem
      exact htail (List.mem_of_mem_drop hmem)
  constructor
  · intro hpre
    cases hd : v.drop i with
    | nil =>
      have hcount := congrArg List.length hd
      rw [List.length_drop] at hcount
      simp at hcount
      omega
    | cons c rest =>
      rw [hd] at hpre hdrop
      obtain ⟨rfl, -⟩ := List.cons_prefix_cons.mp hpre
      exact hdrop List.mem_cons_self
  · intro hpre
    exact hdrop (hpre.subset List.mem_cons_self)

/-! Tags. -/

/-- One round of the tag scan: the tag ends before the rest, or the scan goes on there. -/
inductive TagStep where
  | ended (rest : Text)
  | more (rest : Text)

/-- The text behind the first `c`. -/
def afterChar (c : Char) (s : Text) : Option Text :=
  (search (literal [c]) s).map fun r => s.drop (r.1 + 1)

/-- At the value of an attribute. A quote that never closes gives the tag up to the next `>`. -/
def valueStep : Text → TagStep
  | [] => .more []
  | quote :: s =>
    if isQuote quote then
      match afterChar quote s with
      | some rest => .more rest
      | none => .ended ((afterChar '>' (quote :: s)).getD [])
    else .more ((quote :: s).dropWhile unquotedChar)

theorem valueStep_closed {quote : Char} (hq : isQuote quote = true) {s rest : Text} (h : afterChar quote s = some rest) :
    valueStep (quote :: s) = .more rest := by
  rw [valueStep, if_pos hq, h]

theorem valueStep_open {quote : Char} (hq : isQuote quote = true) {s : Text} (h : afterChar quote s = none) :
    valueStep (quote :: s) = .ended ((afterChar '>' (quote :: s)).getD []) := by
  rw [valueStep, if_pos hq, h]

/-- Behind the name of an attribute and the spaces after it. -/
def attrStep : Text → TagStep
  | '=' :: s => valueStep (s.dropWhile Py.isSpace)
  | s => .more s

def tagStep (s : Text) : TagStep :=
  match s.dropWhile Py.isSpace with
  | [] => .ended []
  | c :: t =>
    if c = '>' then .ended t
    else if c = '/' then .more t
    else attrStep ((t.dropWhile attrNameChar).dropWhile Py.isSpace)

/-- From the attributes on, the tag ends before the second text. -/
inductive TagTo : Text → Text → Prop
  | ended {s rest} : tagStep s = .ended rest → TagTo s rest
  | more {s mid rest} : tagStep s = .more mid → TagTo mid rest → TagTo s rest

theorem TagTo.unique {s r r' : Text} (h : TagTo s r) (h' : TagTo s r') : r = r' := by
  induction h with
  | ended hs =>
    cases h' with
    | ended hs' => exact TagStep.ended.inj (hs.symm.trans hs')
    | more hs' _ => cases hs.symm.trans hs'
  | more hs _ ih =>
    cases h' with
    | ended hs' => cases hs.symm.trans hs'
    | more hs' hrest => exact ih (TagStep.more.inj (hs.symm.trans hs') ▸ hrest)

section Positions
variable {document : Text}

theorem drop_runEnd (document : Text) (p : Char → Bool) (i : Nat) :
    document.drop (runEnd document p i) = (document.drop i).dropWhile p := by
  rw [runEnd, ← List.drop_drop, drop_run]

theorem runEnd_le (document : Text) (p : Char → Bool) {i : Nat} (hi : i ≤ document.length) :
    runEnd document p i ≤ document.length := by
  have h := (List.takeWhile_sublist p (l := document.drop i)).length_le
  rw [List.length_drop] at h
  rw [runEnd]
  omega

theorem le_runEnd (document : Text) (p : Char → Bool) (i : Nat) : i ≤ runEnd document p i := Nat.le_add_right _ _

theorem drop_of_getElem? {i : Nat} {c : Char} (h : document[i]? = some c) :
    document.drop i = c :: document.drop (i + 1) := by
  obtain ⟨hi, rfl⟩ := List.getElem?_eq_some_iff.mp h
  exact List.drop_eq_getElem_cons hi

theorem lt_of_getElem? {i : Nat} {c : Char} (h : document[i]? = some c) : i < document.length :=
  (List.getElem?_eq_some_iff.mp h).1

theorem findFrom_some {sub : Text} {start k : Nat} (h : findFrom document sub start = some k)
    (hsub : sub ≠ []) : start ≤ k ∧ k + sub.length ≤ document.length ∧
      search (literal sub) (document.drop start) = some (k - start, sub.length) := by
  obtain ⟨⟨j, n⟩, hs, rfl⟩ := Option.map_eq_some_iff.mp h
  obtain ⟨hle, hm, -⟩ := search_some hs
  obtain ⟨hpre, rfl⟩ := literal_eq_some.mp hm
  have hlen := hpre.length_le
  have hpos := List.length_pos_iff.mpr hsub
  rw [List.length_drop, List.length_drop] at hlen
  dsimp only
  refine ⟨by omega, by omega, ?_⟩
  rw [Nat.add_sub_cancel_left]
  exact hs

theorem findFrom_char {c : Char} {start : Nat} :
    (findFrom document [c] start).map (fun k => document.drop (k + 1)) = afterChar c (document.drop start) := by
  rw [findFrom, afterChar, Option.map_map]
  congr 1
  funext r
  simp [List.drop_drop, Nat.add_assoc]

end Positions

/-! The memory of the quotes looked for. -/

/-- What is remembered was found. -/
def Remembers (document : Text) (found : Found) : Prop :=
  ∀ quote asked hit, found.lookup quote = some (asked, hit) → hit = findFrom document [quote] asked

theorem Remembers.nil (document : Text) : Remembers document [] := by
  intro quote asked hit h
  cases h

theorem Remembers.add {document : Text} {found : Found} (h : Remembers document found) (quote : Char)
    (start : Nat) : Remembers document ((quote, start, findFrom document [quote] start) :: found) := by
  intro other asked hit hlookup
  rw [List.lookup_cons] at hlookup
  split at hlookup
  · rename_i heq
    obtain ⟨rfl, rfl⟩ := Prod.mk.inj (Option.some.inj hlookup)
    rw [beq_iff_eq.mp heq]
  · exact h other asked hit hlookup

/-- A search from later on gives the same place, as long as it is not behind. -/
theorem findFrom_later {document : Text} {quote : Char} {asked start : Nat} (hle : asked ≤ start)
    (hhit : findFrom document [quote] asked = none ∨ ∃ k ∈ findFrom document [quote] asked, start ≤ k) :
    findFrom document [quote] asked = findFrom document [quote] start := by
  have hdrop : ∀ j, (document.drop start).drop j = (document.drop asked).drop (start - asked + j) := by
    intro j
    rw [List.drop_drop, List.drop_drop]
    congr 1
    omega
  obtain hnone | ⟨k, hk, hstart⟩ := hhit
  · have hs := Option.map_eq_none_iff.mp hnone
    have hlater : search (literal [quote]) (document.drop start) = none := by
      refine search_eq_none fun j _ => ?_
      rw [hdrop]
      by_cases hin : start - asked + j ≤ (document.drop asked).length
      · exact search_none hs _ hin
      · rw [List.drop_of_length_le (by omega)]
        rfl
    rw [hnone, findFrom, hlater]
    rfl
  · obtain ⟨hasked, hlen, hs⟩ := findFrom_some hk (List.cons_ne_nil _ _)
    obtain ⟨-, hm, hfirst⟩ := search_some hs
    have hlater : search (literal [quote]) (document.drop start) = some (k - start, [quote].length) := by
      refine search_eq_some ?_ ?_ fun j hj => ?_
      · rw [List.length_drop]
        omega
      · rw [hdrop]
        have hplace : start - asked + (k - start) = k - asked := by omega
        rw [hplace]
        exact hm
      · rw [hdrop]
        exact hfirst _ (by omega)
    rw [hk, findFrom, hlater, Option.map_some, Nat.add_sub_cancel' hstart]

/-- `_find` gives what `document.find` gives, and goes on remembering what was found. -/
theorem find_eq {document : Text} {found : Found} (h : Remembers document found) (quote : Char) (start : Nat) :
    (Html.find document found quote start).1 = findFrom document [quote] start ∧
      Remembers document (Html.find document found quote start).2 := by
  unfold Html.find
  dsimp only
  split
  · rename_i asked hit hlookup
    have hhit := h quote asked hit hlookup
    split
    · rename_i hcond
      refine ⟨?_, h⟩
      rw [hhit] at hcond ⊢
      exact findFrom_later hcond.1 hcond.2
    · exact ⟨rfl, h.add quote start⟩
  · exact ⟨rfl, h.add quote start⟩

/-- What a call of the tag scan from `i` on comes to. -/
def Tagged (document : Text) (i : Nat) (result : Option (Nat × Found)) : Prop :=
  ∃ j found, result = some (j, found) ∧ Remembers document found ∧ i ≤ j ∧ j ≤ document.length ∧
    TagTo (document.drop i) (document.drop j)

theorem Tagged.of_more {document : Text} {i i' : Nat} {result : Option (Nat × Found)} (hle : i ≤ i')
    (hstep : tagStep (document.drop i) = .more (document.drop i')) (h : Tagged document i' result) :
    Tagged document i result := by
  obtain ⟨j, found, hresult, hfound, hij, hj, hto⟩ := h
  exact ⟨j, found, hresult, hfound, hle.trans hij, hj, .more hstep hto⟩

theorem Tagged.of_ended {document : Text} {i j : Nat} {found : Found} (hfound : Remembers document found)
    (hle : i ≤ j) (hj : j ≤ document.length) (hstep : tagStep (document.drop i) = .ended (document.drop j)) :
    Tagged document i (some (j, found)) :=
  ⟨j, found, rfl, hfound, hle, hj, .ended hstep⟩

/-- The branch of the loop at the value of an attribute. -/
theorem value_tagged {document : Text} {fuel : Nat} {found : Found} {i j : Nat}
    (hfound : Remembers document found) (hij : i < j) (hj : j ≤ document.length)
    (hstep : tagStep (document.drop i) = valueStep (document.drop j))
    (hrec : ∀ found i', Remembers document found → i < i' → i' ≤ document.length →
      Tagged document i' (tagLoop document fuel found i')) :
    Tagged document i (match document[j]? with
      | none => tagLoop document fuel found j
      | some quote =>
        if isQuote quote then
          match Html.find document found quote (j + 1) with
          | (some close, found) => tagLoop document fuel found (close + 1)
          | (none, found) =>
            match findFrom document ['>'] j with
            | none => some (document.length, found)
            | some gt => some (gt + 1, found)
        else tagLoop document fuel found (runEnd document unquotedChar j)) := by
  split
  · rename_i hnone
    have hnil : document.drop j = [] := List.drop_eq_nil_of_le (List.getElem?_eq_none_iff.mp hnone)
    refine .of_more hij.le ?_ (hrec found j hfound hij hj)
    rw [hstep, hnil, valueStep]
  · rename_i quote hquote
    have hcons := drop_of_getElem? hquote
    have hlt := lt_of_getElem? hquote
    by_cases hq : isQuote quote = true
    · rw [if_pos hq]
      have hvalue : valueStep (document.drop j) = match afterChar quote (document.drop (j + 1)) with
          | some rest => .more rest
          | none => .ended ((afterChar '>' (document.drop j)).getD []) := by
        rw [hcons, valueStep, if_pos hq]
      obtain ⟨hfind, hfound'⟩ := find_eq hfound quote (j + 1)
      rw [← findFrom_char] at hvalue
      split
      · rename_i close found' heq
        rw [heq] at hfind hfound'
        dsimp only at hfind hfound'
        rw [← hfind] at hvalue
        obtain ⟨hclose, hlen, -⟩ := findFrom_some hfind.symm (List.cons_ne_nil _ _)
        rw [List.length_singleton] at hlen
        exact .of_more (by omega) (hstep.trans hvalue) (hrec found' (close + 1) hfound' (by omega) hlen)
      · rename_i found' heq
        rw [heq] at hfind hfound'
        dsimp only at hfind hfound'
        rw [← hfind] at hvalue
        dsimp only [Option.map_none] at hvalue
        rw [← findFrom_char] at hvalue
        cases hgt : findFrom document ['>'] j with
        | none =>
          rw [hgt] at hvalue
          refine .of_ended hfound' (by omega) (Nat.le_refl _) (hstep.trans (hvalue.trans ?_))
          rw [List.drop_length]
          rfl
        | some gt =>
          rw [hgt] at hvalue
          obtain ⟨hle, hlen, -⟩ := findFrom_some hgt (List.cons_ne_nil _ _)
          rw [List.length_singleton] at hlen
          exact .of_ended hfound' (by omega) hlen (hstep.trans hvalue)
    · rw [if_neg hq]
      have hle := le_runEnd document unquotedChar j
      refine .of_more (by omega) ?_ (hrec found _ hfound (by omega) (runEnd_le document unquotedChar hj))
      rw [hstep, hcons, valueStep, if_neg hq, ← hcons, drop_runEnd]

theorem tagLoop_tagged {document : Text} (fuel : Nat) {found : Found} {i : Nat}
    (hfound : Remembers document found) (hi : i ≤ document.length) (hfuel : document.length - i ≤ fuel) :
    Tagged document i (tagLoop document fuel found i) := by
  induction fuel generalizing found i with
  | zero =>
    have heq : i = document.length := by omega
    unfold tagLoop
    rw [if_pos (by omega)]
    refine .of_ended hfound hi (Nat.le_refl _) ?_
    rw [heq, List.drop_length]
    rfl
  | succ fuel ih =>
    unfold tagLoop
    by_cases hend : document.length ≤ i
    · have heq : i = document.length := by omega
      rw [if_pos hend]
      refine .of_ended hfound hi (Nat.le_refl _) ?_
      rw [heq, List.drop_length]
      rfl
    · rw [if_neg hend]
      dsimp only
      have hle1 := le_runEnd document Py.isSpace i
      have hspaces := drop_runEnd document Py.isSpace i
      generalize runEnd document Py.isSpace i = i1 at hle1 hspaces ⊢
      have hlast : document.drop document.length = [] := List.drop_length
      split
      · -- only spaces are left
        rename_i hnone
        have hnil : document.drop i1 = [] := List.drop_eq_nil_of_le (List.getElem?_eq_none_iff.mp hnone)
        refine .of_ended hfound hi (Nat.le_refl _) ?_
        rw [tagStep, ← hspaces, hnil, hlast]
      · rename_i ch hch
        have hlt1 := lt_of_getElem? hch
        have hcons := drop_of_getElem? hch
        rw [hcons] at hspaces
        by_cases hgt : ch = '>'
        · rw [if_pos hgt]
          refine .of_ended hfound (by omega) (by omega) ?_
          rw [tagStep, ← hspaces]
          simp [hgt]
        · rw [if_neg hgt]
          by_cases hslash : ch = '/'
          · rw [if_pos hslash]
            refine .of_more (by omega : i ≤ i1 + 1) ?_ (ih hfound (by omega) (by omega))
            rw [tagStep, ← hspaces]
            simp [hslash]
          · rw [if_neg hslash]
            have hstep : tagStep (document.drop i) =
                attrStep (document.drop (runEnd document Py.isSpace (runEnd document attrNameChar (i1 + 1)))) := by
              rw [tagStep, ← hspaces, drop_runEnd, drop_runEnd]
              simp only [if_neg hgt, if_neg hslash]
            have hle2 := le_runEnd document attrNameChar (i1 + 1)
            have hn2 := runEnd_le document attrNameChar hlt1
            generalize runEnd document attrNameChar (i1 + 1) = i2 at hle2 hn2 hstep ⊢
            have hle3 := le_runEnd document Py.isSpace i2
            have hn3 := runEnd_le document Py.isSpace hn2
            generalize runEnd document Py.isSpace i2 = j at hle3 hn3 hstep ⊢
            have hrec : ∀ found i', Remembers document found → i < i' → i' ≤ document.length →
                Tagged document i' (tagLoop document fuel found i') :=
              fun found i' hf hlt hle => ih hf hle (by omega)
            by_cases heq : document[j]? = some '='
            · rw [if_pos heq]
              have hltj := lt_of_getElem? heq
              have hle4 := le_runEnd document Py.isSpace (j + 1)
              refine value_tagged hfound (by omega) (runEnd_le document Py.isSpace hltj) ?_ hrec
              rw [hstep, drop_of_getElem? heq, attrStep, drop_runEnd]
            · rw [if_neg heq]
              refine .of_more (by omega) ?_ (hrec found j hfound (by omega) hn3)
              rw [hstep]
              unfold attrStep
              split
              · rename_i s hs
                refine absurd ?_ heq
                rw [← List.head?_drop, hs]
                rfl
              · rfl

end XgenSdk.HtmlScan
