import XgenSdk.Approval.FormEdits
import XgenSdk.Lib.Sorting
import Mathlib.Data.List.Perm.Basic

/-! What the shape check of a form promises about the steps it accepts and the
blocks it returns. -/
namespace XgenSdk.FormShape
open XgenSdk.Models XgenSdk.Tables XgenSdk.Forms XgenSdk.FormEdits XgenSdk.Sorting

/-! Which indices are accepted. -/

theorem length_upTo (n : Nat) : (upTo n).length = n := by simp [upTo]

theorem nodup_upTo (n : Nat) : (upTo n).Nodup :=
  List.nodup_range.map fun _ _ h => Int.ofNat.inj h

theorem getLast_upTo (n : Nat) : (upTo (n + 1)).getLast?.getD 0 = n := by
  simp [upTo, List.range_succ]

theorem upTo_succ (n : Nat) : upTo (n + 1) = 0 :: (List.range n).map fun i => Int.ofNat (i + 1) := by
  simp [upTo, List.range_succ_eq_map, Function.comp_def]

theorem checkIndices_ok_iff (idx : List Int) : checkIndices idx = .ok () ↔ ∃ n ≥ 1, idx = upTo (n + 1) := by
  constructor
  · intro h
    cases idx with
    | nil => cases h
    | cons first rest =>
      rw [checkIndices] at h
      split at h
      · cases h
      split at h
      · cases h
      rename_i hupTo
      split at h
      · cases h
      rename_i hlast
      have hidx := not_not.mp hupTo
      rw [List.length_cons] at hidx
      rw [hidx, getLast_upTo] at hlast
      exact ⟨rest.length, by omega, hidx⟩
  · rintro ⟨n, hn, rfl⟩
    have hlength := length_upTo (n + 1)
    have hlast := getLast_upTo n
    rw [upTo_succ] at hlength hlast ⊢
    rw [checkIndices, hlength, hlast, ← upTo_succ]
    simp only [ne_eq, not_true_eq_false, if_false]
    exact if_neg (by omega)

/-! Which blocks are accepted, and as what. -/

def normalized (b : GivenBlock) : GivenBlock := { b with blockType := Blocks.normalizeBlockType b.blockType }

/-- A block of a known kind on one of these steps. -/
def Stands (idx : List Int) (b : GivenBlock) : Prop :=
  Blocks.isKnown (Blocks.normalizeBlockType b.blockType) = true ∧ b.stepIndex ∈ idx

theorem checkBlock_of_stands {idx : List Int} {b : GivenBlock} (h : Stands idx b) : checkBlock idx b = .ok (normalized b) := by
  rw [checkBlock]
  simp only [h.1, h.2, Bool.not_true, Bool.false_eq_true, if_false, not_true_eq_false]
  rfl

theorem stands_of_checkBlock {idx : List Int} {b checked : GivenBlock} (h : checkBlock idx b = .ok checked) : Stands idx b := by
  unfold checkBlock at h
  dsimp only at h
  split at h
  · cases h
  rename_i hknown
  split at h
  · cases h
  rename_i hidx
  exact ⟨by simpa using hknown, not_not.mp hidx⟩

theorem checkBlocks_ok_iff (idx : List Int) (blocks checked : List GivenBlock) :
    checkBlocks idx blocks = .ok checked ↔ (∀ b ∈ blocks, Stands idx b) ∧ checked = blocks.map normalized := by
  induction blocks generalizing checked with
  | nil =>
    have hnil : checkBlocks idx [] = .ok [] := rfl
    simp [hnil, eq_comm]
  | cons b rest ih =>
    constructor
    · intro h
      rw [checkBlocks_cons] at h
      split at h
      · cases h
      rename_i c hc
      split at h
      · cases h
      rename_i others hothers
      have hb := stands_of_checkBlock hc
      obtain ⟨hrest, rfl⟩ := (ih others).mp hothers
      rw [checkBlock_of_stands hb] at hc
      cases hc
      exact ⟨List.forall_mem_cons.mpr ⟨hb, hrest⟩, (Except.ok.inj h).symm⟩
    · rintro ⟨hall, rfl⟩
      obtain ⟨hb, hrest⟩ := List.forall_mem_cons.mp hall
      rw [checkBlocks_cons, checkBlock_of_stands hb, (ih _).mpr ⟨hrest, rfl⟩]
      rfl

/-- The set of indices runs from 0 to some n ≥ 1, and every block stands on one of them. -/
def Fits (steps : List GivenStep) (blocks : List GivenBlock) : Prop :=
  (∃ n ≥ 1, indices steps = upTo (n + 1)) ∧ ∀ b ∈ blocks, Stands (indices steps) b

theorem validateFormShape_ok_iff (steps : List GivenStep) (blocks result : List GivenBlock) :
    validateFormShape steps blocks = .ok result ↔
      Fits steps blocks ∧ result = renumber (indices steps) (blocks.map normalized) := by
  rw [validateFormShape]
  constructor
  · intro h
    split at h
    · cases h
    rename_i hindices
    split at h
    · cases h
    rename_i checked hchecked
    obtain ⟨hstands, rfl⟩ := (checkBlocks_ok_iff _ _ _).mp hchecked
    exact ⟨⟨(checkIndices_ok_iff _).mp hindices, hstands⟩, (Except.ok.inj h).symm⟩
  · rintro ⟨⟨hindices, hstands⟩, rfl⟩
    rw [(checkIndices_ok_iff _).mpr hindices, (checkBlocks_ok_iff _ _ _).mpr ⟨hstands, rfl⟩]

theorem nodup_indices (steps : List GivenStep) : (indices steps).Nodup :=
  (List.perm_insertionSort _ _).nodup_iff.mpr (List.nodup_dedup _)

theorem mem_indices {steps : List GivenStep} {i : Int} : i ∈ indices steps ↔ i ∈ steps.map GivenStep.stepIndex := by
  rw [indices, List.mem_insertionSort, List.mem_dedup]

/-! The blocks of one step, numbered. -/

def withNumber (b : GivenBlock) (n : Nat) : GivenBlock := { b with sortOrder := n }

def numbered (blocks : List GivenBlock) : List GivenBlock :=
  ((byKey GivenBlock.sortOrder blocks).zipIdx 1).map fun e => withNumber e.1 e.2

theorem withNumber_self {b : GivenBlock} {n : Nat} (h : b.sortOrder = n) : withNumber b n = b := by
  rw [withNumber, ← h]

/-- A block but for its number. -/
def unnumbered (b : GivenBlock) : GivenBlock := { b with sortOrder := 0 }

theorem renumber_eq (idx : List Int) (blocks : List GivenBlock) :
    renumber idx blocks = idx.flatMap fun step => numbered (blocks.filter fun b => b.stepIndex = step) := rfl

theorem length_numbered (blocks : List GivenBlock) : (numbered blocks).length = blocks.length := by
  rw [numbered, List.length_map, List.length_zipIdx, (byKey_perm _ _).length_eq]

theorem sortOrder_numbered (blocks : List GivenBlock) :
    (numbered blocks).map GivenBlock.sortOrder = (List.range' 1 (numbered blocks).length).map Int.ofNat := by
  have hcomp : (GivenBlock.sortOrder ∘ fun e : GivenBlock × Nat => withNumber e.1 e.2) =
      Int.ofNat ∘ Prod.snd := rfl
  rw [length_numbered, numbered, List.map_map, hcomp, ← List.map_map, List.zipIdx_map_snd, (byKey_perm _ _).length_eq]

theorem unnumbered_numbered (blocks : List GivenBlock) :
    (numbered blocks).map unnumbered = (byKey GivenBlock.sortOrder blocks).map unnumbered := by
  have hcomp : (unnumbered ∘ fun e : GivenBlock × Nat => withNumber e.1 e.2) = unnumbered ∘ Prod.fst := rfl
  rw [numbered, List.map_map, hcomp, ← List.map_map, List.zipIdx_map_fst]

theorem mem_numbered {blocks : List GivenBlock} {b : GivenBlock} (h : b ∈ numbered blocks) :
    ∃ c ∈ blocks, b = { c with sortOrder := b.sortOrder } := by
  obtain ⟨e, he, rfl⟩ := List.mem_map.mp h
  exact ⟨e.1, (List.mem_insertionSort _).mp (List.fst_mem_of_mem_zipIdx he), rfl⟩

/-- Numbered blocks are in order, and numbering them again changes nothing. -/
theorem numbered_numbered (blocks : List GivenBlock) : numbered (numbered blocks) = numbered blocks := by
  have horders := sortOrder_numbered blocks
  have hsorted : (numbered blocks).Pairwise fun a b => a.sortOrder ≤ b.sortOrder := by
    rw [← List.pairwise_map, horders, List.pairwise_map]
    exact List.pairwise_le_range'.imp fun h => Int.ofNat_le.mpr h
  conv_lhs => rw [numbered, byKey_of_pairwise hsorted]
  exact numbered_again (fun b n h => withNumber_self h) horders

/-! All steps together. -/

theorem stepIndex_numbered {blocks : List GivenBlock} {step : Int} (h : ∀ b ∈ blocks, b.stepIndex = step) :
    ∀ b ∈ numbered blocks, b.stepIndex = step := by
  intro b hb
  obtain ⟨c, hc, hbc⟩ := mem_numbered hb
  rw [hbc]
  exact h c hc

theorem stepIndex_filter (blocks : List GivenBlock) (step : Int) :
    ∀ b ∈ blocks.filter fun b => b.stepIndex = step, b.stepIndex = step :=
  fun _ hb => by simpa using (List.mem_filter.mp hb).2

section Renumber
variable {idx : List Int} (hidx : idx.Nodup) {blocks : List GivenBlock} (hblocks : ∀ b ∈ blocks, b.stepIndex ∈ idx)
include hidx hblocks

/-- The blocks of a step in the result are those of the step, numbered. -/
theorem filter_renumber (step : Int) :
    (renumber idx blocks).filter (fun b => b.stepIndex = step) = numbered (blocks.filter fun b => b.stepIndex = step) := by
  rw [renumber_eq, filter_flatMap_groups hidx fun k => stepIndex_numbered (stepIndex_filter blocks k)]
  split
  · rfl
  · rename_i hstep
    have hnone : (blocks.filter fun b => decide (b.stepIndex = step)) = [] :=
      List.filter_eq_nil_iff.mpr fun b hb => by simpa using fun h : b.stepIndex = step => hstep (h ▸ hblocks b hb)
    rw [hnone]
    rfl

theorem renumber_renumber : renumber idx (renumber idx blocks) = renumber idx blocks := by
  conv_lhs => rw [renumber_eq]
  rw [renumber_eq idx blocks]
  refine List.flatMap_congr fun step _ => ?_
  rw [← renumber_eq, filter_renumber hidx hblocks, numbered_numbered]

theorem renumber_perm : ((renumber idx blocks).map unnumbered).Perm (blocks.map unnumbered) := by
  have hgroups := (flatMap_filter_perm hidx hblocks).map unnumbered
  refine List.Perm.trans ?_ hgroups
  rw [renumber_eq, List.map_flatMap, List.map_flatMap]
  refine List.Perm.flatMap_left _ fun step _ => ?_
  rw [unnumbered_numbered]
  exact (byKey_perm _ _).map unnumbered

end Renumber

/-- No two blocks of the result are named alike. -/
theorem nodup_renumber {idx : List Int} (hidx : idx.Nodup) (blocks : List GivenBlock) :
    ((renumber idx blocks).map fun b => (b.stepIndex, b.sortOrder)).Nodup := by
  rw [renumber_eq, List.map_flatMap, List.nodup_flatMap]
  have hsteps := fun step => stepIndex_numbered (stepIndex_filter blocks step)
  refine ⟨fun step _ => ?_, hidx.imp fun {a b} hab => ?_⟩
  · have horders : ((numbered (blocks.filter fun b => b.stepIndex = step)).map GivenBlock.sortOrder).Nodup := by
      have hrange : ∀ n, (List.range' 1 n).Nodup := fun n => List.nodup_range'
      rw [sortOrder_numbered]
      exact (hrange _).map fun _ _ h => Int.ofNat.inj h
    exact List.Nodup.of_map Prod.snd (by rw [List.map_map]; exact horders)
  · rintro ⟨s, n⟩ hfirst hsecond
    obtain ⟨c, hc, hceq⟩ := List.mem_map.mp hfirst
    obtain ⟨d, hd, hdeq⟩ := List.mem_map.mp hsecond
    have hca := hsteps a c hc
    have hdb := hsteps b d hd
    rw [Prod.mk.injEq] at hceq hdeq
    exact hab (by rw [← hca, ← hdb, hceq.1, hdeq.1])

theorem normalizeBlockType_twice (kind : String) :
    Blocks.normalizeBlockType (Blocks.normalizeBlockType kind) = Blocks.normalizeBlockType kind := by
  by_cases h : "risk_assessment" = kind
  · subst h
    decide
  · have hkept : Blocks.normalizeBlockType kind = kind := by
      simp [Blocks.normalizeBlockType, Blocks.legacyBlockTypes, h]
    rw [hkept, hkept]

theorem stepIndex_of_mem_renumber {idx : List Int} {blocks : List GivenBlock} {b : GivenBlock}
    (hb : b ∈ renumber idx blocks) : b.stepIndex ∈ idx ∧ ∃ c ∈ blocks, b = { c with sortOrder := b.sortOrder } := by
  rw [renumber_eq, List.mem_flatMap] at hb
  obtain ⟨step, hstep, hb⟩ := hb
  obtain ⟨c, hc, hbc⟩ := mem_numbered hb
  refine ⟨?_, c, List.mem_of_mem_filter hc, hbc⟩
  rw [stepIndex_numbered (stepIndex_filter blocks step) b hb]
  exact hstep

theorem indices_perm {steps : List GivenStep} (h : (steps.map GivenStep.stepIndex).Nodup) :
    (steps.map GivenStep.stepIndex).Perm (indices steps) := by
  rw [indices, List.Nodup.dedup h]
  exact (List.perm_insertionSort _ _).symm

theorem validateFormShape_again {steps : List GivenStep} {blocks : List GivenBlock} (hfits : Fits steps blocks) :
    validateFormShape steps (renumber (indices steps) (blocks.map normalized)) =
      .ok (renumber (indices steps) (blocks.map normalized)) := by
  have hon : ∀ b ∈ blocks.map normalized, b.stepIndex ∈ indices steps :=
    List.forall_mem_map.mpr fun b hb => (hfits.2 b hb).2
  have hkept : ∀ b ∈ renumber (indices steps) (blocks.map normalized), Stands (indices steps) b ∧ normalized b = b := by
    intro b hb
    obtain ⟨hstep, c, hc, hbc⟩ := stepIndex_of_mem_renumber hb
    obtain ⟨d, hd, rfl⟩ := List.mem_map.mp hc
    have hkind : b.blockType = Blocks.normalizeBlockType d.blockType := by rw [hbc]; rfl
    have htwice : Blocks.normalizeBlockType b.blockType = b.blockType := by rw [hkind, normalizeBlockType_twice]
    refine ⟨⟨?_, hstep⟩, ?_⟩
    · rw [htwice, hkind]
      exact (hfits.2 d hd).1
    · rw [normalized, htwice]
  have hself : (renumber (indices steps) (blocks.map normalized)).map normalized =
      renumber (indices steps) (blocks.map normalized) :=
    (List.map_congr_left fun b hb => (hkept b hb).2).trans (List.map_id _)
  rw [validateFormShape_ok_iff, hself, renumber_renumber (nodup_indices steps) hon]
  exact ⟨⟨hfits.1, fun b hb => (hkept b hb).1⟩, rfl⟩

/-- Blocks of one step in the result: numbered from 1, in the stable order of the given numbers. -/
structure InGivenOrder (mine kept : List GivenBlock) : Prop where
  numbers : kept.map GivenBlock.sortOrder = (List.range' 1 kept.length).map Int.ofNat
  stable : ∃ ordered : List GivenBlock, ordered.Perm mine ∧ (ordered.Pairwise fun a b => a.sortOrder ≤ b.sortOrder) ∧
    (∀ v, (ordered.filter fun b => b.sortOrder = v) = mine.filter fun b => b.sortOrder = v) ∧
    kept.map unnumbered = ordered.map unnumbered

/-- What the check of a form promises with the blocks it returns. -/
structure Promised (steps : List GivenStep) (blocks result : List GivenBlock) : Prop where
  contiguous : ∃ n ≥ 1, (steps.map GivenStep.stepIndex).Perm (upTo (n + 1))
  written : ∀ formId o, ((writeSteps formId steps).on o).1 = .ok ()
  stands : ∀ b ∈ blocks, Stands (steps.map GivenStep.stepIndex) b
  perm : (result.map unnumbered).Perm (blocks.map fun b => unnumbered (normalized b))
  distinct : (result.map fun b => (b.stepIndex, b.sortOrder)).Nodup
  ordered : ∀ step, InGivenOrder ((blocks.map normalized).filter fun b => b.stepIndex = step)
    (result.filter fun b => b.stepIndex = step)
  again : validateFormShape steps result = .ok result

theorem inGivenOrder_numbered (mine : List GivenBlock) : InGivenOrder mine (numbered mine) :=
  ⟨sortOrder_numbered mine, byKey GivenBlock.sortOrder mine, byKey_perm _ _, pairwise_byKey _ _,
    fun v => filter_byKey _ _ v, unnumbered_numbered mine⟩

theorem promised_of_nodup {steps : List GivenStep} {blocks : List GivenBlock} (hfits : Fits steps blocks)
    (hdistinct : (steps.map GivenStep.stepIndex).Nodup) :
    Promised steps blocks (renumber (indices steps) (blocks.map normalized)) := by
  obtain ⟨⟨n, hn, hupTo⟩, hstands⟩ := hfits
  have hon : ∀ b ∈ blocks.map normalized, b.stepIndex ∈ indices steps :=
    List.forall_mem_map.mpr fun b hb => (hstands b hb).2
  refine ⟨⟨n, hn, hupTo ▸ indices_perm hdistinct⟩, fun formId o => ?_,
    fun b hb => ⟨(hstands b hb).1, mem_indices.mp (hstands b hb).2⟩, ?_, nodup_renumber (nodup_indices steps) _,
    fun step => ?_, validateFormShape_again ⟨⟨n, hn, hupTo⟩, hstands⟩⟩
  · rw [writeSteps_on hdistinct]
  · have hperm := renumber_perm (nodup_indices steps) hon
    rwa [List.map_map] at hperm
  · rw [filter_renumber (nodup_indices steps) hon]
    exact inGivenOrder_numbered _

/-- The check of a form keeps its promise exactly where no index is given twice. -/
theorem shape_promised_iff (steps : List GivenStep) (blocks : List GivenBlock) :
    (∀ result, validateFormShape steps blocks = .ok result → Promised steps blocks result) ↔
      (Fits steps blocks → (steps.map GivenStep.stepIndex).Nodup) := by
  constructor
  · intro hpromised hfits
    obtain ⟨n, -, hperm⟩ := (hpromised _ ((validateFormShape_ok_iff _ _ _).mpr ⟨hfits, rfl⟩)).contiguous
    exact hperm.nodup_iff.mpr (nodup_upTo (n + 1))
  · intro hdistinct result hresult
    obtain ⟨hfits, rfl⟩ := (validateFormShape_ok_iff _ _ _).mp hresult
    exact promised_of_nodup hfits (hdistinct hfits)

def step (i : Int) : GivenStep := ⟨i, "", ""⟩

/-- Index 1 is given twice. -/
def repeatedSteps : List GivenStep := [step 0, step 1, step 1]

def oneForm : Office :=
  { empty with forms := [{ id := 1, name := "양식", isBuiltin := false, isActive := true, steps := [], blocks := [] }] }

/-- A repeated index is accepted, and the database refuses the second of its rows. -/
theorem repeated_index_accepted : validateFormShape repeatedSteps [] = .ok [] ∧ ¬Promised repeatedSteps [] [] ∧
    ((writeSteps 1 repeatedSteps).on oneForm).1 = .error ⟨duplicateStep⟩ := by
  have haccepted : validateFormShape repeatedSteps [] = .ok [] := by rfl
  refine ⟨haccepted, fun h => ?_, by rfl⟩
  obtain ⟨n, -, hperm⟩ := h.contiguous
  have hnodup := hperm.nodup_iff.mpr (nodup_upTo (n + 1))
  revert hnodup
  decide

end XgenSdk.FormShape
