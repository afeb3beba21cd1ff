import XgenSdk.ControlPolicy.Loading
import XgenSdk.Lib.Checks
import Mathlib.Data.List.ReduceOption

/-! Which rows keep the others from being compiled. -/
namespace XgenSdk.LoadingRows
open XgenSdk.Py XgenSdk.Settings XgenSdk.Loading XgenSdk.Checks
variable {P : Type}

/-- The columns of a row. -/
abbrev Columns := List (String × Json)

variable (regex : Regex P) (policyType : String) (unmasked : Unmasked)

/-- A row that is no rule: unmasked under `skip`, without a regex, or with one that is no regex. -/
def LeftOut (row : Json) : Prop :=
  (row.get "masking").truthy = false ∧ unmasked = .skip ∨ (row.get "regex_pattern").truthy = false ∨
    ∃ source, row.get "regex_pattern" = .str source ∧ regex.compile source = .error

/-- `int(value or 0)` raises. -/
def IntRefuses (value : Json) : Prop := ∃ raised, intOrZero value = .error raised

/-- What the loop does not catch: the row is looked at, and its regex is no text or overflows, or it is one but a kept
length is no number. -/
def Breaks (row : Json) : Prop :=
  ((row.get "masking").truthy = true ∨ unmasked = .default) ∧ (row.get "regex_pattern").truthy = true ∧
    ((∀ source, row.get "regex_pattern" ≠ .str source) ∨ ∃ source, row.get "regex_pattern" = .str source ∧
      (regex.compile source = .overflow ∨ (∃ pattern, regex.compile source = .pattern pattern) ∧
        (IntRefuses (row.get "keep_prefix") ∨ IntRefuses (row.get "keep_suffix"))))

/-- All rows together give what each gives alone, and only rows that are no rule are left out. -/
def Separate (rows : List Columns) : Prop :=
  ∃ rules parts, compileRules regex (rows.map .obj) policyType unmasked = .ok rules ∧
    List.Forall₂ (fun row part => compileRules regex [.obj row] policyType unmasked = .ok part) rows parts ∧
    rules = parts.flatten ∧
    ∀ row ∈ rows, compileRules regex [.obj row] policyType unmasked = .ok [] → LeftOut regex unmasked (.obj row)

variable {regex policyType unmasked}

theorem compileRow_error {row : Json} {raised : Raised} (h : compileRow regex policyType unmasked row = .error raised) :
    Breaks regex unmasked row := by
  rw [compileRow] at h
  split at h
  · cases h
  · rename_i hseen
    split at h
    · cases h
    · rename_i hregex
      have hmasked : (row.get "masking").truthy = true ∨ unmasked = .default := by
        cases unmasked with
        | default => exact .inr rfl
        | skip => exact .inl (by simpa using hseen)
      refine ⟨hmasked, by simpa using hregex, ?_⟩
      cases hvalue : row.get "regex_pattern" with
      | str source =>
        rw [hvalue] at h
        dsimp only at h
        refine .inr ⟨source, rfl, ?_⟩
        cases hcompile : regex.compile source with
        | error =>
          rw [hcompile] at h
          cases h
        | overflow => exact .inl rfl
        | pattern p =>
          rw [hcompile] at h
          refine .inr ⟨⟨p, rfl⟩, ?_⟩
          obtain hstart | ⟨_, _, h⟩ := bind_error h
          · exact .inl ⟨raised, hstart⟩
          · obtain hsuffix | ⟨_, _, h⟩ := bind_error h
            · exact .inr ⟨raised, hsuffix⟩
            · cases h
      | _ => exact .inl fun source hsource => by cases hsource

theorem compileRow_breaks (policyType : String) {row : Json} (h : Breaks regex unmasked row) :
    ∃ raised, compileRow regex policyType unmasked row = .error raised := by
  obtain ⟨hseen, hregex, hcase⟩ := h
  have hskip : ¬ (!(row.get "masking").truthy && decide (unmasked = .skip)) = true := by
    obtain hmasked | rfl := hseen
    · simp [hmasked]
    · simp
  rw [compileRow, if_neg hskip, if_neg (by simp [hregex])]
  obtain hother | ⟨source, hsource, hcase⟩ := hcase
  · cases hvalue : row.get "regex_pattern" with
    | str source => exact absurd hvalue (hother source)
    | _ => exact ⟨.typeError, rfl⟩
  · rw [hsource]
    dsimp only
    obtain hoverflow | ⟨⟨p, hp⟩, hkeep⟩ := hcase
    · exact ⟨.overflowError, by rw [hoverflow]⟩
    · rw [hp]
      dsimp only
      cases hstart : intOrZero (row.get "keep_prefix") with
      | error raised => exact ⟨raised, rfl⟩
      | ok keepPrefix =>
        obtain ⟨raised, hraised⟩ | ⟨raised, hraised⟩ := hkeep
        · rw [hstart] at hraised
          cases hraised
        · exact ⟨raised, by rw [ok_bind, hraised]; rfl⟩

theorem compileRow_none {row : Json} (h : compileRow regex policyType unmasked row = .ok none) : LeftOut regex unmasked row := by
  rw [compileRow] at h
  split at h
  · rename_i hskip
    exact .inl (by simpa using hskip)
  · split at h
    · rename_i hregex
      exact .inr (.inl (by simpa using hregex))
    · cases hvalue : row.get "regex_pattern" with
      | str source =>
        rw [hvalue] at h
        dsimp only at h
        cases hcompile : regex.compile source with
        | error => exact .inr (.inr ⟨source, hvalue, hcompile⟩)
        | overflow =>
          rw [hcompile] at h
          cases h
        | pattern p =>
          rw [hcompile] at h
          obtain ⟨_, _, h⟩ := bind_ok h
          obtain ⟨_, _, h⟩ := bind_ok h
          cases h
      | _ =>
        rw [hvalue] at h
        cases h

/-- A row alone gives its rule, if it has one. -/
theorem compileRules_single (row : Json) : compileRules regex [row] policyType unmasked =
    (compileRow regex policyType unmasked row).map Option.toList := by
  rw [compileRules, List.mapM_cons, List.mapM_nil]
  cases compileRow regex policyType unmasked row with
  | error raised => rfl
  | ok rule => cases rule <;> rfl

theorem reduceOption_eq {α : Type} (xs : List (Option α)) : xs.reduceOption = (xs.map Option.toList).flatten := by
  induction xs with
  | nil => rfl
  | cons x xs ih =>
    cases x with
    | none => rw [List.reduceOption_cons_of_none, ih, List.map_cons, List.flatten_cons, Option.toList_none, List.nil_append]
    | some a => rw [List.reduceOption_cons_of_some, ih, List.map_cons, List.flatten_cons, Option.toList_some, List.singleton_append]

def anyRegex : Regex Unit where
  compile _ := .pattern ()
  groups _ := []
  expands _ _ := true

def twoRows : List Columns :=
  [[("regex_pattern", .str "a"), ("masking", .bool true)],
    [("regex_pattern", .str "b"), ("masking", .bool true), ("keep_prefix", .str "two")]]

end XgenSdk.LoadingRows
