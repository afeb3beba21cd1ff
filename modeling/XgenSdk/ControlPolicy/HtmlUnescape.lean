import XgenSdk.ControlPolicy.HtmlReferences
import Mathlib.Data.List.DropRight

/-! `html.unescape`: the references of a whole text, with or without a semicolon. -/
namespace XgenSdk.HtmlUnescape
open XgenSdk.Rules XgenSdk.Html XgenSdk.Matches

/-- The values of `html5` by name; most names end in a semicolon. -/
abbrev Html5 := Text → Option Text

def isNameChar (c : Char) : Bool := !"\t\n\x0c <&#;".toList.contains c

/-- `;?` after `n` characters. -/
def closing (s : Text) (n : Nat) : Nat := if (s.drop n).head? = some ';' then n + 1 else n

def run (p : Char → Bool) (s : Text) : Nat := (s.takeWhile p).length

/-- The length of the `_charref` match at the head of a text. -/
def charrefLength : Text → Option Nat
  | '&' :: '#' :: x :: s =>
    if isAsciiDigit x then some (closing (x :: s) (run isAsciiDigit (x :: s)) + 2)
    else if (x = 'x' ∨ x = 'X') ∧ run isHexDigit s ≠ 0 then some (closing s (run isHexDigit s) + 3)
    else none
  | '&' :: s =>
    if run isNameChar s = 0 then none else some (closing s (min 32 (run isNameChar s)) + 1)
  | _ => none

def digit (c : Char) : Nat :=
  if isAsciiDigit c then c.toNat - '0'.toNat
  else if c ≤ 'F' then c.toNat - 'A'.toNat + 10
  else c.toNat - 'a'.toNat + 10

def number (base : Nat) (digits : Text) : Nat := digits.foldl (fun n c => n * base + digit c) 0

/-- `_invalid_charrefs`. -/
def invalidCharrefs : List (Nat × Char) :=
  [(0x00, '\ufffd'), (0x0d, '\r'), (0x80, '\u20ac'), (0x81, '\u0081'), (0x82, '\u201a'), (0x83, '\u0192'), (0x84, '\u201e'),
    (0x85, '\u2026'), (0x86, '\u2020'), (0x87, '\u2021'), (0x88, '\u02c6'), (0x89, '\u2030'), (0x8a, '\u0160'),
    (0x8b, '\u2039'), (0x8c, '\u0152'), (0x8d, '\u008d'), (0x8e, '\u017d'), (0x8f, '\u008f'), (0x90, '\u0090'),
    (0x91, '\u2018'), (0x92, '\u2019'), (0x93, '\u201c'), (0x94, '\u201d'), (0x95, '\u2022'), (0x96, '\u2013'),
    (0x97, '\u2014'), (0x98, '\u02dc'), (0x99, '\u2122'), (0x9a, '\u0161'), (0x9b, '\u203a'), (0x9c, '\u0153'),
    (0x9d, '\u009d'), (0x9e, '\u017e'), (0x9f, '\u0178')]

/-- `_invalid_codepoints`. -/
def invalidCodepoint (n : Nat) : Bool :=
  (0x1 ≤ n && n ≤ 0x8) || n = 0xb || (0xe ≤ n && n ≤ 0x1f) || (0x7f ≤ n && n ≤ 0x9f) || (0xfdd0 ≤ n && n ≤ 0xfdef) ||
    n % 0x10000 = 0xfffe || n % 0x10000 = 0xffff

def numericCharref (n : Nat) : Text :=
  match invalidCharrefs.lookup n with
  | some c => [c]
  | none =>
    if (0xd800 ≤ n ∧ n ≤ 0xdfff) ∨ 0x10ffff < n then ['\ufffd']
    else if invalidCodepoint n then []
    else [Char.ofNat n]

/-- The longest name that a text of `n` characters or more starts with, two at least, and what is behind it. -/
def longestName (html5 : Html5) (s : Text) : Nat → Option Text
  | 0 | 1 => none
  | n + 2 => match html5 (s.take (n + 2)) with
    | some value => some (value ++ s.drop (n + 2))
    | none => longestName html5 s (n + 1)

/-- `_replace_charref` on what follows the `&`. -/
def replaceCharref (html5 : Html5) : Text → Text
  | '#' :: x :: s =>
    if x = 'x' ∨ x = 'X' then numericCharref (number 16 (s.rdropWhile (· = ';')))
    else numericCharref (number 10 ((x :: s).rdropWhile (· = ';')))
  | s => match html5 s with
    | some value => value
    | none => (longestName html5 s (s.length - 1)).getD ('&' :: s)

/-- `_charref.sub(_replace_charref, s)`; a match is taken without its `&`. -/
def unescape (html5 : Html5) (s : Text) : Text :=
  if s.contains '&' then sub charrefLength (fun r => replaceCharref html5 (r.drop 1)) s else s

/-- The references of a text. -/
def charrefs (s : Text) : List Text := found charrefLength s

end XgenSdk.HtmlUnescape
