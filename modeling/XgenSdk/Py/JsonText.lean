import Mathlib.Data.List.Sort
import XgenSdk.Py.Json
import XgenSdk.Lib.Search

/-! `json.dumps` with `ensure_ascii`, without blanks, with the keys in order:
the text of a value, and how long it is. -/
namespace XgenSdk.Py.Json

def hexFour (n : Nat) : List Char := [hexDigit (n / 4096 % 16), hexDigit (n / 256 % 16), hexDigit (n / 16 % 16), hexDigit (n % 16)]

/-- A character inside a string; beyond the basic plane, its two surrogates. -/
def escapeChar (c : Char) : List Char :=
  let n := c.toNat
  if c = '"' ∨ c = '\\' then ['\\', c]
  else if n = 0x0A then ['\\', 'n']
  else if n = 0x0D then ['\\', 'r']
  else if n = 0x09 then ['\\', 't']
  else if n = 0x08 then ['\\', 'b']
  else if n = 0x0C then ['\\', 'f']
  else if 0x20 ≤ n ∧ n < 0x7F then [c]
  else if n < 0x10000 then '\\' :: 'u' :: hexFour n
  else '\\' :: 'u' :: hexFour (0xD800 + (n - 0x10000) / 1024) ++ '\\' :: 'u' :: hexFour (0xDC00 + (n - 0x10000) % 1024)

def quoted (s : String) : List Char := '"' :: s.toList.flatMap escapeChar ++ ['"']

/-- Texts with commas between them. -/
def commas : List (List Char) → List Char
  | [] => []
  | [t] => t
  | t :: ts => t ++ ',' :: commas ts

def byKey {α : Type} (fields : List (String × α)) : List (String × α) := fields.insertionSort fun a b => a.1 ≤ b.1

def member (field : String × List Char) : List Char := quoted field.1 ++ ':' :: field.2

mutual

/-- `json.dumps`. -/
def dumps : Json → List Char
  | .null => "null".toList
  | .bool b => if b then "true".toList else "false".toList
  | .int n => (toString n).toList
  | .float x => x.text.toList
  | .str s => quoted s
  | .arr xs => '[' :: commas (dumpsItems xs) ++ [']']
  | .obj fields => '\x7b' :: commas ((byKey (dumpsFields fields)).map member) ++ ['\x7d']

def dumpsItems : List Json → List (List Char)
  | [] => []
  | x :: xs => dumps x :: dumpsItems xs

def dumpsFields : List (String × Json) → List (String × List Char)
  | [] => []
  | f :: fs => (f.1, dumps f.2) :: dumpsFields fs

end

/-- The characters a text takes between its quotes. -/
def escapedLength (s : String) : Nat := (s.toList.flatMap escapeChar).length

theorem length_quoted (s : String) : (quoted s).length = escapedLength s + 2 := by
  rw [quoted, List.length_append, List.length_cons, escapedLength]
  rfl

theorem hexDigit_ascii (n : Nat) : (hexDigit n).toNat < 0x80 := by
  have hall : ∀ c ∈ "0123456789abcdef".toList, c.toNat < 0x80 := Search.forall_mem_of_all (by decide)
  unfold hexDigit
  by_cases h : n < "0123456789abcdef".toList.length
  · rw [List.getD_eq_getElem?_getD, List.getElem?_eq_getElem h]
    exact hall _ (List.getElem_mem h)
  · rw [List.getD_eq_getElem?_getD, List.getElem?_eq_none (by omega)]
    decide

theorem hexFour_ascii (n : Nat) : ∀ c ∈ hexFour n, c.toNat < 0x80 := by
  intro c hc
  simp only [hexFour, List.mem_cons, List.not_mem_nil, or_false] at hc
  obtain rfl | rfl | rfl | rfl := hc <;> exact hexDigit_ascii _

theorem escapeChar_ascii (c : Char) : ∀ d ∈ escapeChar c, d.toNat < 0x80 := by
  have hback : ('\\' : Char).toNat < 0x80 ∧ ('u' : Char).toNat < 0x80 := by decide
  have htwo : ∀ {a b d : Char}, a.toNat < 0x80 → b.toNat < 0x80 → d ∈ [a, b] → d.toNat < 0x80 := by
    intro a b d ha hb hd
    obtain rfl | hd := List.mem_cons.mp hd
    · exact ha
    · rw [List.mem_singleton.mp hd]
      exact hb
  have hescape : ∀ {n : Nat} {d : Char}, d ∈ '\\' :: 'u' :: hexFour n → d.toNat < 0x80 := by
    intro n d hd
    obtain rfl | hd := List.mem_cons.mp hd
    · exact hback.1
    · obtain rfl | hd := List.mem_cons.mp hd
      · exact hback.2
      · exact hexFour_ascii n d hd
  intro d hd
  unfold escapeChar at hd
  dsimp only at hd
  split at hd
  · rename_i hquote
    refine htwo hback.1 ?_ hd
    obtain rfl | rfl := hquote <;> decide
  split at hd
  · exact htwo hback.1 (by decide) hd
  split at hd
  · exact htwo hback.1 (by decide) hd
  split at hd
  · exact htwo hback.1 (by decide) hd
  split at hd
  · exact htwo hback.1 (by decide) hd
  split at hd
  · exact htwo hback.1 (by decide) hd
  split at hd
  · rename_i hplain
    rw [List.mem_singleton.mp hd]
    omega
  split at hd
  · exact hescape hd
  · obtain hd | hd := List.mem_append.mp hd
    · exact hescape hd
    · exact hescape hd

theorem quoted_ascii (s : String) : ∀ c ∈ quoted s, c.toNat < 0x80 := by
  intro c hc
  simp only [quoted, List.mem_append, List.mem_cons, List.mem_flatMap, List.not_mem_nil, or_false] at hc
  obtain (rfl | ⟨d, -, hd⟩) | rfl := hc
  · decide
  · exact escapeChar_ascii d c hd
  · decide

theorem commas_ascii {ts : List (List Char)} (h : ∀ t ∈ ts, ∀ c ∈ t, c.toNat < 0x80) : ∀ c ∈ commas ts, c.toNat < 0x80 := by
  induction ts using commas.induct with
  | case1 => intro c hc; cases hc
  | case2 t => exact h t List.mem_cons_self
  | case3 t ts hne ih =>
    intro c hc
    rw [commas] at hc
    · obtain hc | hc := List.mem_append.mp hc
      · exact h t List.mem_cons_self c hc
      · obtain rfl | hc := List.mem_cons.mp hc
        · decide
        · exact ih (fun t ht => h t (List.mem_cons_of_mem _ ht)) c hc
    · exact hne

theorem length_commas (ts : List (List Char)) : (commas ts).length = (ts.map List.length).sum + (ts.length - 1) := by
  induction ts using commas.induct with
  | case1 => rfl
  | case2 t => simp [commas]
  | case3 t ts hne ih =>
    rw [commas]
    · have hpos : 0 < ts.length := List.length_pos_iff.mpr hne
      rw [List.length_append, List.length_cons, ih, List.map_cons, List.sum_cons, List.length_cons]
      omega
    · exact hne

/-! Objects, whatever the order of their keys. -/

theorem byKey_perm {α : Type} (fields : List (String × α)) : (byKey fields).Perm fields := List.perm_insertionSort _ _

theorem dumpsFields_eq (fields : List (String × Json)) : dumpsFields fields = fields.map fun f => (f.1, dumps f.2) := by
  induction fields with
  | nil => rfl
  | cons f fields ih => rw [dumpsFields, ih, List.map_cons]

theorem dumps_ascii_obj {fields : List (String × Json)} (h : ∀ f ∈ fields, ∀ c ∈ dumps f.2, c.toNat < 0x80) :
    ∀ c ∈ dumps (.obj fields), c.toNat < 0x80 := by
  have hmembers : ∀ t ∈ (byKey (dumpsFields fields)).map member, ∀ c ∈ t, c.toNat < 0x80 := by
    intro t ht
    obtain ⟨g, hg, rfl⟩ := List.mem_map.mp ht
    rw [(byKey_perm _).mem_iff, dumpsFields_eq] at hg
    obtain ⟨f, hf, rfl⟩ := List.mem_map.mp hg
    intro c hc
    obtain hc | hc := List.mem_append.mp hc
    · exact quoted_ascii f.1 c hc
    · obtain rfl | hc := List.mem_cons.mp hc
      · decide
      · exact h f hf c hc
  intro c hc
  rw [dumps, List.cons_append] at hc
  obtain rfl | hc := List.mem_cons.mp hc
  · decide
  · obtain hc | hc := List.mem_append.mp hc
    · exact commas_ascii hmembers c hc
    · rw [List.mem_singleton.mp hc]
      decide

theorem length_dumps_obj (fields : List (String × Json)) :
    (dumps (.obj fields)).length =
      (fields.map fun f => escapedLength f.1 + 3 + (dumps f.2).length).sum + (fields.length - 1) + 2 := by
  have hperm := (byKey_perm (dumpsFields fields)).map fun g => (member g).length
  have hlength := (byKey_perm (dumpsFields fields)).length_eq
  rw [dumps, List.length_append, List.length_cons, length_commas, List.map_map, List.length_map, hlength,
    Function.comp_def, hperm.sum_nat, dumpsFields_eq, List.map_map, List.length_map, List.length_singleton]
  have hmember : ((fun g => (member g).length) ∘ fun f : String × Json => (f.1, dumps f.2)) =
      fun f => escapedLength f.1 + 3 + (dumps f.2).length := by
    funext f
    rw [Function.comp_apply, member, List.length_append, length_quoted, List.length_cons]
    dsimp only
    omega
  rw [hmember]

theorem intText_ascii (n : Int) : ∀ c ∈ (toString n).toList, c.toNat < 0x80 := by
  have hnat : ∀ m : Nat, ∀ c ∈ m.repr.toList, c.toNat < 0x80 := by
    intro m c hc
    rw [Nat.toList_repr] at hc
    have hdigit := Nat.isDigit_of_mem_toDigits (by decide) (by decide) hc
    simp only [Char.isDigit, Bool.and_eq_true, decide_eq_true_eq] at hdigit
    have hle : c.toNat ≤ 57 := hdigit.2
    omega
  intro c hc
  rw [Int.toString_eq_repr, Int.repr_eq_if] at hc
  split at hc
  · exact hnat _ c hc
  · rw [String.toList_append] at hc
    obtain hc | hc := List.mem_append.mp hc
    · have hminus : c = '-' := by simpa using hc
      rw [hminus]
      decide
    · exact hnat _ c hc

mutual

/-- A value with the keys of its objects in order, as `json.loads` reads it from its text. -/
def sorted : Json → Json
  | .arr xs => .arr (sortedItems xs)
  | .obj fields => .obj (byKey (sortedFields fields))
  | v => v

def sortedItems : List Json → List Json
  | [] => []
  | x :: xs => sorted x :: sortedItems xs

def sortedFields : List (String × Json) → List (String × Json)
  | [] => []
  | f :: fs => (f.1, sorted f.2) :: sortedFields fs

end

theorem lookup_iff_mem {fields : List (String × Json)} (hunique : (fields.map Prod.fst).Nodup) {key : String} {value : Json} :
    lookup key fields = some value ↔ (key, value) ∈ fields := by
  constructor
  · intro hlookup
    obtain ⟨f, hf, hv⟩ := Option.map_eq_some_iff.mp hlookup
    have hkey : f.1 = key := by simpa using List.find?_some hf
    rw [← hkey, ← hv]
    exact List.mem_of_find?_eq_some hf
  · intro hin
    induction fields with
    | nil => cases hin
    | cons g fields ih =>
      rw [List.map_cons, List.nodup_cons] at hunique
      unfold lookup
      obtain rfl | hin := List.mem_cons.mp hin
      · simp
      · have hne : g.1 ≠ key := fun heq => hunique.1 (heq ▸ List.mem_map_of_mem (f := Prod.fst) hin)
        rw [List.find?_cons_of_neg (by simpa using hne)]
        exact ih hunique.2 hin

/-- Objects are the same, up to order, where they say the same of every key. -/
theorem perm_of_lookup {fields after : List (String × Json)} (hunique : (fields.map Prod.fst).Nodup)
    (hafter : (after.map Prod.fst).Nodup) (h : ∀ key value, lookup key fields = some value → lookup key after = some value)
    (hkeys : ∀ f ∈ after, f.1 ∈ fields.map Prod.fst) : after.Perm fields := by
  refine (List.perm_ext_iff_of_nodup hafter.of_map hunique.of_map).mpr fun f => ⟨fun hf => ?_, fun hf => ?_⟩
  · obtain ⟨g, hg, hname⟩ := List.mem_map.mp (hkeys f hf)
    have hlookup := h g.1 g.2 ((lookup_iff_mem hunique).mpr hg)
    rw [hname, (lookup_iff_mem hafter).mpr hf] at hlookup
    rwa [show f = g from Prod.ext hname.symm (Option.some.inj hlookup)]
  · exact (lookup_iff_mem hafter).mp (h f.1 f.2 ((lookup_iff_mem hunique).mpr hf))

theorem lookup_perm {fields after : List (String × Json)} (hperm : after.Perm fields)
    (hunique : (fields.map Prod.fst).Nodup) (key : String) : lookup key after = lookup key fields := by
  have hafter : (after.map Prod.fst).Nodup := (hperm.map Prod.fst).nodup_iff.mpr hunique
  refine Option.ext fun value => ?_
  rw [lookup_iff_mem hafter, lookup_iff_mem hunique, hperm.mem_iff]

theorem dumps_ascii_arr {items : List Json} (h : ∀ v ∈ items, ∀ c ∈ dumps v, c.toNat < 0x80) :
    ∀ c ∈ dumps (.arr items), c.toNat < 0x80 := by
  have hitems : dumpsItems items = items.map dumps := by
    clear h
    induction items with
    | nil => rfl
    | cons v items ih => rw [dumpsItems, ih, List.map_cons]
  intro c hc
  rw [dumps, hitems, List.cons_append] at hc
  obtain rfl | hc := List.mem_cons.mp hc
  · decide
  · obtain hc | hc := List.mem_append.mp hc
    · refine commas_ascii (fun t ht => ?_) c hc
      obtain ⟨v, hv, rfl⟩ := List.mem_map.mp ht
      exact h v hv
    · rw [List.mem_singleton.mp hc]
      decide

end XgenSdk.Py.Json
