import Mathlib.Data.List.Infix
import Mathlib.Data.List.TakeWhile

/-! The functions of `posixpath`; a path is the list of its characters. -/
namespace XgenSdk.Py

abbrev Path := List Char

/-- What follows the last `c`, and everything where there is none. -/
def afterLast (c : Char) (text : List Char) : List Char := (text.reverse.takeWhile (· ≠ c)).reverse

def basename (p : Path) : Path := afterLast '/' p

/-- Dots that only other dots precede begin no extension. -/
def splitext (p : Path) : Path × Path :=
  let name := basename p
  let ext := '.' :: afterLast '.' name
  if '.' ∈ name ∧ ¬ (name.take (name.length - ext.length)).all (· = '.') then
    (p.take (p.length - ext.length), ext)
  else (p, [])

def dirname (p : Path) : Path :=
  let head := p.take (p.length - (basename p).length)
  if head.all (· = '/') then head else (head.reverse.dropWhile (· = '/')).reverse

def joinPath (a b : Path) : Path :=
  if b.head? = some '/' then b
  else if a = [] ∨ a.getLast? = some '/' then a ++ b
  else a ++ '/' :: b

/-- Two slashes at the start stay two, three or more are one. -/
def rootSlashes : Path → Nat
  | '/' :: '/' :: '/' :: _ => 1
  | '/' :: '/' :: _ => 2
  | '/' :: _ => 1
  | _ => 0

def normStep (rooted : Bool) (comps : List Path) (comp : Path) : List Path :=
  if comp = [] ∨ comp = ['.'] then comps
  else if comp ≠ ['.', '.'] ∨ (rooted = false ∧ comps = []) ∨ comps.getLast? = some ['.', '.'] then
    comps ++ [comp]
  else comps.dropLast

def normpath (p : Path) : Path :=
  let comps := (p.splitOn '/').foldl (normStep (0 < rootSlashes p)) []
  let path := List.replicate (rootSlashes p) '/' ++ List.intercalate ['/'] comps
  if path = [] then ['.'] else path

def abspath (cwd p : Path) : Path := normpath (if p.head? = some '/' then p else joinPath cwd p)

theorem afterLast_suffix (c : Char) (text : List Char) : afterLast c text <:+ text := by
  rw [← List.reverse_prefix, afterLast, List.reverse_reverse]
  exact List.takeWhile_prefix _

/-- The last `c` stands right before what follows it. -/
theorem cons_afterLast_suffix {c : Char} {text : List Char} (h : c ∈ text) : c :: afterLast c text <:+ text := by
  have hrest : text.reverse.dropWhile (· ≠ c) ≠ [] := by
    intro hnil
    have hall := List.dropWhile_eq_nil_iff.mp hnil c (List.mem_reverse.mpr h)
    simp at hall
  obtain ⟨d, rest, hd⟩ := List.exists_cons_of_ne_nil hrest
  have hdc : d = c := by
    have hnot := List.head_dropWhile_not (p := fun x => decide (x ≠ c)) (l := text.reverse) hrest
    simp only [hd, List.head_cons] at hnot
    simpa using hnot
  refine ⟨rest.reverse, ?_⟩
  have hsplit := List.takeWhile_append_dropWhile (p := fun x => decide (x ≠ c)) (l := text.reverse)
  rw [hd, hdc] at hsplit
  have hback := congrArg List.reverse hsplit
  rw [List.reverse_append, List.reverse_cons, List.reverse_reverse, List.append_assoc] at hback
  exact hback

/-- An extension ends the path it belongs to. -/
theorem splitext_suffix (p : Path) : (splitext p).2 <:+ p := by
  unfold splitext
  dsimp only
  split
  · rename_i h
    exact (cons_afterLast_suffix h.1).trans (afterLast_suffix '/' p)
  · exact List.nil_suffix

end XgenSdk.Py
