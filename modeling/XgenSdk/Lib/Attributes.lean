import Mathlib.Data.List.Basic

/-! Attributes in one text: a mark ends each of them, another stands between key and value. -/
namespace XgenSdk.Attributes
variable {α : Type} [DecidableEq α] {mark equals : α}

abbrev Field (α : Type) := List α × List α

def renderField (equals : α) (f : Field α) : List α := f.1 ++ equals :: f.2

def render (mark equals : α) (fields : List (Field α)) : List α := fields.flatMap fun f => renderField equals f ++ [mark]

/-- A part at its first `equals`. -/
def cut (equals : α) (part : List α) : Field α :=
  (part.takeWhile fun c => c ≠ equals, (part.dropWhile fun c => c ≠ equals).drop 1)

/-- The text at each mark; what stands behind the last one is no attribute. -/
def read (mark equals : α) (text : List α) : List (Field α) := (text.splitOn mark).dropLast.map (cut equals)

theorem cut_renderField {f : Field α} (h : equals ∉ f.1) : cut equals (renderField equals f) = f := by
  have hkey : ∀ c ∈ f.1, (decide (c ≠ equals)) = true := fun c hc => decide_eq_true fun heq => h (heq ▸ hc)
  rw [cut, renderField, List.takeWhile_append_of_pos hkey, List.dropWhile_append_of_pos hkey, List.takeWhile_cons, List.dropWhile_cons,
    if_neg (by simp), if_neg (by simp), List.append_nil]
  rfl

theorem splitOn_render {fields : List (Field α)} (h : ∀ f ∈ fields, mark ∉ renderField equals f) :
    (render mark equals fields).splitOn mark = fields.map (renderField equals) ++ [[]] := by
  induction fields with
  | nil => rfl
  | cons f fields ih =>
    obtain ⟨hf, hfields⟩ := List.forall_mem_cons.mp h
    rw [render, List.flatMap_cons, List.append_assoc, List.singleton_append, List.splitOn_append_cons_self_of_not_mem hf]
    exact congrArg (renderField equals f :: ·) (ih hfields)

/-- A part holds no mark. -/
theorem not_mem_of_mem_splitOn {text part : List α} (h : part ∈ text.splitOn mark) : mark ∉ part := by
  induction text generalizing part with
  | nil =>
    rw [List.splitOn_nil, List.mem_singleton] at h
    rw [h]
    exact List.not_mem_nil
  | cons c text ih =>
    rw [List.splitOn_cons_eq_if_modifyHead] at h
    split at h
    · obtain rfl | h := List.mem_cons.mp h
      · exact List.not_mem_nil
      · exact ih h
    · rename_i hc
      have hne : mark ≠ c := fun heq => hc (by rw [heq]; exact beq_self_eq_true c)
      cases hparts : text.splitOn mark with
      | nil => exact absurd hparts (List.splitOn_ne_nil mark text)
      | cons head parts =>
        rw [hparts, List.modifyHead_cons] at h
        obtain rfl | h := List.mem_cons.mp h
        · intro hmem
          obtain heq | hmem := List.mem_cons.mp hmem
          · exact hne heq
          · exact ih (hparts ▸ List.mem_cons_self) hmem
        · exact ih (hparts ▸ List.mem_cons_of_mem head h)

theorem mem_of_mem_cut {part : List α} {c : α} (h : c ∈ (cut equals part).2) : c ∈ part :=
  (List.dropWhile_sublist _).subset ((List.drop_sublist _ _).subset h)

/-- The attributes are read as they are, if and only if no value holds the mark. -/
theorem read_render_iff {fields : List (Field α)} (hne : mark ≠ equals) (hkeys : ∀ f ∈ fields, mark ∉ f.1 ∧ equals ∉ f.1) :
    read mark equals (render mark equals fields) = fields ↔ ∀ f ∈ fields, mark ∉ f.2 := by
  constructor
  · intro h f hf hmark
    rw [← h, read] at hf
    obtain ⟨part, hpart, rfl⟩ := List.mem_map.mp hf
    exact not_mem_of_mem_splitOn ((List.dropLast_sublist _).subset hpart) (mem_of_mem_cut hmark)
  · intro h
    have hparts : ∀ f ∈ fields, mark ∉ renderField equals f := by
      intro f hf hmark
      obtain hmark | hmark := List.mem_append.mp hmark
      · exact (hkeys f hf).1 hmark
      · obtain heq | hmark := List.mem_cons.mp hmark
        · exact hne heq
        · exact h f hf hmark
    have hcut : ∀ f ∈ fields, cut equals (renderField equals f) = f := fun f hf => cut_renderField (hkeys f hf).2
    rw [read, splitOn_render hparts, List.dropLast_concat, List.map_map]
    exact (List.map_congr_left hcut).trans (List.map_id fields)

end XgenSdk.Attributes
