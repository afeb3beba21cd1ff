import XgenSdk.ControlPolicy.PlainText
import XgenSdk.ControlPolicy.Spans

/-! Compiled rules as policies on texts of code points. -/
namespace XgenSdk.RulePolicies
open XgenSdk.Py.Utf16 XgenSdk.Splice XgenSdk.Rules XgenSdk.Spans XgenSdk.PlainText

def toChar (c : CodePoint) : Char := Char.ofNat c.val

def ofChar (c : Char) : CodePoint := Fin.ofNat 0x110000 c.toNat

def ofSpan (s : Span Char) : Span CodePoint := ⟨s.lo, s.hi, s.body.map ofChar⟩

theorem ofChar_toChar {c : CodePoint} (h : isSurrogate c = false) : ofChar (toChar c) = c := by
  have hc := c.isLt
  have hvalid : c.val.isValidChar := by
    simp only [isSurrogate, Bool.and_eq_false_iff, decide_eq_false_iff_not] at h
    unfold Nat.isValidChar
    omega
  have hval : (toChar c).toNat = c.val := by
    rw [toChar, Char.ofNat, dif_pos hvalid]
    rfl
  refine Fin.ext ?_
  change (toChar c).toNat % 0x110000 = c.val
  rw [hval, Nat.mod_eq_of_lt hc]

theorem map_ofChar_toChar {text : Str} (h : ∀ c ∈ text, isSurrogate c = false) : (text.map toChar).map ofChar = text := by
  rw [List.map_map]
  exact (List.map_congr_left fun c hc => ofChar_toChar (h c hc)).trans (List.map_id _)

theorem inOrder_ofSpan {n p : Nat} {spans : List (Span Char)} (h : InOrder n p spans) : InOrder n p (spans.map ofSpan) := by
  induction spans generalizing p with
  | nil => trivial
  | cons s rest ih => exact ⟨h.1, h.2.1, h.2.2.1, ih h.2.2.2⟩

theorem map_spliceFrom (text : Text) (p : Nat) (spans : List (Span Char)) :
    (spliceFrom text p spans).map ofChar = spliceFrom (text.map ofChar) p (spans.map ofSpan) := by
  induction spans generalizing p with
  | nil => exact List.map_drop
  | cons s rest ih =>
    simp only [spliceFrom, List.map_append, List.map_cons, ih, slice, List.map_drop, List.map_take]
    rfl

/-- A text without surrogates. -/
def plain (text : Str) : Bool := text.all fun c => !isSurrogate c

theorem plain_iff {text : Str} : plain text = true ↔ ∀ c ∈ text, isSurrogate c = false := by simp [plain]

/-- `apply_rules` and `find_masked_spans` of compiled rules, on the texts whose characters all are. -/
def rulePolicies (rules : List MaskingRule) : Policies where
  maskText text :=
    if plain text then
      let result := applyRules (text.map toChar) rules true
      (result.text.map ofChar, result.totalDetected)
    else (text, 0)
  spans text := if plain text then (findMaskedSpans (text.map toChar) rules).map ofSpan else []
  inOrder text := by
    split
    · have h := inOrder_ofSpan (findMaskedSpans_found (text.map toChar) rules).inOrder
      rwa [List.length_map] at h
    · trivial
  spliced text := by
    split
    · rename_i h
      have hfound := (findMaskedSpans_found (text.map toChar) rules).spliced
      dsimp only
      rw [applyRules_text, ← hfound, splice, map_spliceFrom, map_ofChar_toChar (plain_iff.mp h)]
      rfl
    · rfl

theorem applyRule_totalDetected (result : MaskingResult) (rule : MaskingRule) :
    (applyRule true result rule).totalDetected = result.totalDetected + (rule.hits result.text).length := by
  unfold applyRule
  dsimp only
  split
  · rename_i hnil
    rw [List.isEmpty_iff.mp hnil]
    rfl
  · split <;> rfl

theorem foldl_applyRule_counted {rules : List MaskingRule} {result : MaskingResult}
    (h : (rules.foldl (applyRule true) result).totalDetected = 0) :
    result.totalDetected = 0 ∧ (rules.foldl (applyRule true) result).text = result.text := by
  induction rules generalizing result with
  | nil => exact ⟨h, rfl⟩
  | cons rule rules ih =>
    obtain ⟨hrule, htext⟩ := ih h
    rw [applyRule_totalDetected] at hrule
    have hhits : rule.hits result.text = [] := List.eq_nil_of_length_eq_zero (by omega)
    rw [List.foldl_cons, htext, applyRule_text, substitute_of_hits_nil hhits]
    exact ⟨by omega, rfl⟩

/-- Where nothing is detected, the text is as it was. -/
theorem applyRules_counted {text : Text} {rules : List MaskingRule} (h : (applyRules text rules true).totalDetected = 0) :
    (applyRules text rules true).text = text := by
  unfold applyRules at h ⊢
  dsimp only at h ⊢
  split
  · rfl
  · rename_i hsome
    rw [if_neg hsome] at h
    exact (foldl_applyRule_counted h).2

theorem rulePolicies_counted {rules : List MaskingRule} {text : Str} (h : ((rulePolicies rules).maskText text).1 ≠ text) :
    ((rulePolicies rules).maskText text).2 ≠ 0 := by
  intro hnone
  refine h ?_
  unfold rulePolicies at hnone ⊢
  dsimp only at hnone ⊢
  split
  · rename_i hplain
    rw [if_pos hplain] at hnone
    rw [applyRules_counted hnone, map_ofChar_toChar (plain_iff.mp hplain)]
  · rfl

/-- What holds of the characters of a text and of every mask holds of the masked text. -/
theorem mem_substituteAll {has : Char → Prop} {text : Text} {rules : List MaskingRule} (htext : ∀ c ∈ text, has c)
    (hrules : ∀ rule ∈ rules, ∀ text, (∀ c ∈ text, has c) → ∀ m ∈ rule.finditer text, ∀ c ∈ m.replacement, has c) :
    ∀ c ∈ substituteAll text rules, has c := by
  induction rules generalizing text with
  | nil => exact htext
  | cons rule rules ih =>
    refine ih (fun c hc => ?_) fun r hr => hrules r (List.mem_cons_of_mem rule hr)
    rcases mem_spliceFrom hc with hc | ⟨s, hs, hc⟩
    · exact htext c hc
    · obtain ⟨m, hm, rfl⟩ := List.mem_map.mp hs
      exact hrules rule List.mem_cons_self text htext m hm c hc

theorem mem_maskText {has : CodePoint → Prop} {text : Str} {rules : List MaskingRule} (htext : ∀ c ∈ text, has c)
    (hrules : ∀ rule ∈ rules, ∀ text, (∀ c ∈ text, has (ofChar c)) → ∀ m ∈ rule.finditer text,
      ∀ c ∈ m.replacement, has (ofChar c)) : ∀ c ∈ ((rulePolicies rules).maskText text).1, has c := by
  unfold rulePolicies
  dsimp only
  split
  · rename_i hplain
    intro c hc
    obtain ⟨d, hd, rfl⟩ := List.mem_map.mp hc
    rw [applyRules_text] at hd
    have hall : ∀ d ∈ text.map toChar, has (ofChar d) := by
      intro d hd
      obtain ⟨c, hc, rfl⟩ := List.mem_map.mp hd
      rw [ofChar_toChar (plain_iff.mp hplain c hc)]
      exact htext c hc
    exact mem_substituteAll hall hrules d hd
  · exact htext

end XgenSdk.RulePolicies
