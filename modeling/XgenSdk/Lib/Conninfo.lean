import Mathlib.Data.List.Perm.Subperm
import Mathlib.Algebra.Order.BigOperators.Group.List
import Mathlib.Algebra.BigOperators.Group.List.Basic
import Mathlib.Algebra.Order.Ring.Nat
import Mathlib.Data.List.Nodup

/-! The connection strings of libpq: keywords with values, read the way `conninfo_parse` does, and the texts that are read
back as they were written. -/
namespace XgenSdk.Conninfo

abbrev Text := List Char
abbrev Fields := List (Text × Text)

/-- `isspace` of the C locale. -/
def isBlank (c : Char) : Bool := c = ' ' || (0x09 ≤ c.toNat && c.toNat ≤ 0x0D)

/-! The reader. -/

/-- The keyword up to its equals sign. -/
def readName : Text → Option (Text × Text)
  | [] => none
  | c :: cs =>
    if c = '=' then some ([], cs)
    else if isBlank c then
      match cs.dropWhile isBlank with
      | '=' :: rest => some ([], rest)
      | _ => none
    else (readName cs).map fun r => (c :: r.1, r.2)

/-- A value without quotes ends at a blank; a backslash takes the next character as it is. -/
def readPlain : Text → Text × Text
  | [] => ([], [])
  | ['\\'] => ([], [])
  | '\\' :: c :: cs => (c :: (readPlain cs).1, (readPlain cs).2)
  | c :: cs => if isBlank c then ([], cs) else (c :: (readPlain cs).1, (readPlain cs).2)

/-- A value in quotes, after the first quote. -/
def readQuoted : Text → Option (Text × Text)
  | [] => none
  | ['\\'] => none
  | '\\' :: c :: cs => (readQuoted cs).map fun r => (c :: r.1, r.2)
  | c :: cs => if c = '\'' then some ([], cs) else (readQuoted cs).map fun r => (c :: r.1, r.2)

def readValue (cs : Text) : Option (Text × Text) :=
  match cs.dropWhile isBlank with
  | '\'' :: rest => readQuoted rest
  | rest => some (readPlain rest)

/-- The assignments, with a bound on their number. -/
def readFields : Nat → Text → Option Fields
  | 0, _ => none
  | n + 1, cs =>
    match cs.dropWhile isBlank with
    | [] => some []
    | c :: rest => do
      let (name, afterName) ← readName (c :: rest)
      let (value, afterValue) ← readValue afterName
      let fields ← readFields n afterValue
      return (name, value) :: fields

/-- Every assignment takes a character at least. -/
def parse (cs : Text) : Option Fields := readFields (cs.length + 1) cs

/-- A later keyword overrides an earlier one. -/
def valueOf (name : Text) (fields : Fields) : Option Text := (fields.reverse.find? fun f => f.1 = name).map Prod.snd

/-- The text is read, and each keyword has the value it has among the fields, if any. -/
def Means (cs : Text) (fields : Fields) : Prop := ∃ found, parse cs = some found ∧ ∀ name, valueOf name found = valueOf name fields

/-! The writer that quotes nothing. -/

def renderField (f : Text × Text) : Text := f.1 ++ '=' :: f.2

def render : Fields → Text
  | [] => []
  | [f] => renderField f
  | f :: g :: fields => renderField f ++ ' ' :: render (g :: fields)

/-- A value that needs no quotes, where it is not empty. -/
def Plain (value : Text) : Prop := (∀ c ∈ value, isBlank c = false ∧ c ≠ '\\') ∧ value.head? ≠ some '\''

instance (value : Text) : Decidable (Plain value) :=
  @instDecidableAnd _ _ (List.decidableBAll _ _) inferInstance

def IsName (name : Text) : Prop := name ≠ [] ∧ ∀ c ∈ name, isBlank c = false ∧ c ≠ '='

instance (name : Text) : Decidable (IsName name) :=
  @instDecidableAnd _ _ inferInstance (List.decidableBAll _ _)

/-- Values that need no quotes; only the last may be empty. -/
def Readable : Fields → Prop
  | [] => True
  | [f] => Plain f.2
  | f :: g :: fields => Plain f.2 ∧ f.2 ≠ [] ∧ Readable (g :: fields)

/-! Lengths: the assignments that are read take no more room than the text, and all of it only where nothing is quoted,
escaped or skipped. -/

def AllPlain (value : Text) : Prop := ∀ c ∈ value, isBlank c = false ∧ c ≠ '\\'

theorem readName_length {cs name rest : Text} (h : readName cs = some (name, rest)) :
    name.length + 1 + rest.length ≤ cs.length ∧
      (name.length + 1 + rest.length = cs.length → cs = name ++ '=' :: rest ∧ ∀ c ∈ name, c ≠ '=') := by
  induction cs generalizing name with
  | nil => cases h
  | cons c cs ih =>
    rw [readName] at h
    split_ifs at h with heq hblank
    · obtain ⟨rfl, rfl⟩ := Prod.mk.inj (Option.some.inj h)
      exact ⟨by simp; omega, fun _ => ⟨by rw [heq]; rfl, fun d hd => absurd hd List.not_mem_nil⟩⟩
    · split at h
      · rename_i skipped hskipped
        obtain ⟨rfl, rfl⟩ := Prod.mk.inj (Option.some.inj h)
        have hlength := (List.dropWhile_sublist isBlank (l := cs)).length_le
        rw [hskipped, List.length_cons] at hlength
        exact ⟨by simp; omega, fun heq => by simp at heq; omega⟩
      · cases h
    · obtain ⟨⟨tail, last⟩, htail, heq'⟩ := Option.map_eq_some_iff.mp h
      obtain ⟨rfl, rfl⟩ : c :: tail = name ∧ last = rest := by simpa using heq'
      obtain ⟨hle, hexact⟩ := ih htail
      simp only [List.length_cons]
      refine ⟨by omega, fun hlength => ?_⟩
      obtain ⟨rfl, hname⟩ := hexact (by omega)
      refine ⟨rfl, fun d hd => ?_⟩
      obtain rfl | hd := List.mem_cons.mp hd
      · exact heq
      · exact hname d hd

theorem readPlain_cons {c : Char} (h : c ≠ '\\') (cs : Text) :
    readPlain (c :: cs) = if isBlank c then ([], cs) else (c :: (readPlain cs).1, (readPlain cs).2) := by
  rw [readPlain]
  · exact fun heq _ => h heq
  · exact fun _ _ heq _ => h heq

theorem readPlain_length (cs : Text) :
    ((readPlain cs).1.length + 1 + (readPlain cs).2.length ≤ cs.length ∧
        ((readPlain cs).1.length + 1 + (readPlain cs).2.length = cs.length →
          AllPlain (readPlain cs).1 ∧ ∃ b, isBlank b = true ∧ cs = (readPlain cs).1 ++ b :: (readPlain cs).2)) ∨
      ((readPlain cs).2 = [] ∧ (readPlain cs).1.length ≤ cs.length ∧
        ((readPlain cs).1.length = cs.length → AllPlain (readPlain cs).1 ∧ cs = (readPlain cs).1)) := by
  induction cs using readPlain.induct with
  | case1 => exact .inr ⟨rfl, Nat.le_refl _, fun _ => ⟨fun c hc => absurd hc List.not_mem_nil, rfl⟩⟩
  | case2 => exact .inr ⟨rfl, Nat.zero_le _, fun h => by cases h⟩
  | case3 c cs ih =>
    rw [readPlain]
    obtain ⟨hle, -⟩ | ⟨hrest, hle, -⟩ := ih
    · exact .inl ⟨by simp; omega, fun heq => by simp at heq; omega⟩
    · exact .inr ⟨hrest, by simp; omega, fun heq => by simp at heq; omega⟩
  | case4 c cs hlast hescape hblank =>
    have hc : c ≠ '\\' := fun heq => by rw [heq] at hblank; cases hblank
    rw [readPlain_cons hc, if_pos hblank]
    exact .inl ⟨by simp; omega, fun _ => ⟨fun d hd => absurd hd List.not_mem_nil, c, hblank, rfl⟩⟩
  | case5 c cs hlast hescape hblank ih =>
    have hc : c ≠ '\\' := by
      intro heq
      cases cs with
      | nil => exact hlast heq rfl
      | cons d cs => exact hescape d cs heq rfl
    have hplain : ∀ {value : Text}, AllPlain value → AllPlain (c :: value) := by
      intro value hvalue d hd
      obtain rfl | hd := List.mem_cons.mp hd
      · exact ⟨by simpa using hblank, hc⟩
      · exact hvalue d hd
    rw [readPlain_cons hc, if_neg hblank]
    simp only [List.length_cons]
    obtain ⟨hle, hexact⟩ | ⟨hrest, hle, hexact⟩ := ih
    · refine .inl ⟨by omega, fun hlength => ?_⟩
      obtain ⟨hvalue, b, hb, hcs⟩ := hexact (by omega)
      exact ⟨hplain hvalue, b, hb, by rw [List.cons_append, ← hcs]⟩
    · refine .inr ⟨hrest, by omega, fun hlength => ?_⟩
      obtain ⟨hvalue, hcs⟩ := hexact (by omega)
      exact ⟨hplain hvalue, by rw [← hcs]⟩

theorem readQuoted_cons {c : Char} (h : c ≠ '\\') (cs : Text) :
    readQuoted (c :: cs) = if c = '\'' then some ([], cs) else (readQuoted cs).map fun r => (c :: r.1, r.2) := by
  rw [readQuoted]
  · exact fun heq _ => h heq
  · exact fun _ _ heq _ => h heq

theorem readQuoted_length {cs value rest : Text} (h : readQuoted cs = some (value, rest)) :
    value.length + 1 + rest.length ≤ cs.length := by
  induction cs using readQuoted.induct generalizing value with
  | case1 => cases h
  | case2 => cases h
  | case3 c cs ih =>
    rw [readQuoted] at h
    obtain ⟨⟨tail, last⟩, htail, heq⟩ := Option.map_eq_some_iff.mp h
    obtain ⟨rfl, rfl⟩ : c :: tail = value ∧ last = rest := by simpa using heq
    have hle := ih htail
    simp only [List.length_cons]
    omega
  | case4 cs hlast hescape =>
    rw [readQuoted_cons (by decide), if_pos rfl] at h
    obtain ⟨rfl, rfl⟩ : [] = value ∧ cs = rest := by simpa using h
    simp only [List.length_cons, List.length_nil]
    omega
  | case5 c cs hlast hescape hquote ih =>
    have hc : c ≠ '\\' := by
      intro heq
      cases cs with
      | nil => exact hlast heq rfl
      | cons d cs => exact hescape d cs heq rfl
    rw [readQuoted_cons hc, if_neg hquote] at h
    obtain ⟨⟨tail, last⟩, htail, heq⟩ := Option.map_eq_some_iff.mp h
    obtain ⟨rfl, rfl⟩ : c :: tail = value ∧ last = rest := by simpa using heq
    have hle := ih htail
    simp only [List.length_cons]
    omega

/-- A value that is read takes its own room and that of the blank after it, unless the text ends with it. -/
theorem readValue_length {cs value rest : Text} (h : readValue cs = some (value, rest)) :
    (value.length + 1 + rest.length ≤ cs.length ∧
        (value.length + 1 + rest.length = cs.length → Plain value ∧ value ≠ [] ∧ ∃ b, isBlank b = true ∧ cs = value ++ b :: rest)) ∨
      (rest = [] ∧ value.length ≤ cs.length ∧ (value.length = cs.length → Plain value ∧ cs = value)) := by
  have hskip := (List.dropWhile_sublist isBlank (l := cs)).length_le
  have hsame : (cs.dropWhile isBlank).length = cs.length → cs.dropWhile isBlank = cs :=
    fun heq => (List.dropWhile_sublist isBlank).eq_of_length heq
  unfold readValue at h
  split at h
  · rename_i quoted hquoted
    have hle := readQuoted_length h
    rw [hquoted, List.length_cons] at hskip
    exact .inl ⟨by omega, fun heq => by omega⟩
  · rename_i hquote
    obtain ⟨hvalue, hrest⟩ : (readPlain (cs.dropWhile isBlank)).1 = value ∧ (readPlain (cs.dropWhile isBlank)).2 = rest :=
      Prod.mk.inj (Option.some.inj h)
    have hhead : ∀ {front : Text} {back : Text}, cs.dropWhile isBlank = front ++ back → front.head? ≠ some '\'' := by
      intro front back heq hfront
      obtain ⟨tail, rfl⟩ := List.head?_eq_some_iff.mp hfront
      exact hquote (tail ++ back) heq
    have hread := readPlain_length (cs.dropWhile isBlank)
    rw [hvalue, hrest] at hread
    obtain ⟨hle, hexact⟩ | ⟨hend, hle, hexact⟩ := hread
    · refine .inl ⟨by omega, fun hlength => ?_⟩
      obtain ⟨hall, b, hb, heq⟩ := hexact (by omega)
      have hcs := hsame (by omega)
      refine ⟨⟨hall, hhead heq⟩, ?_, b, hb, hcs ▸ heq⟩
      -- A blank at the front would have been skipped.
      rintro rfl
      rw [List.nil_append] at heq
      have hfront := List.head?_dropWhile_not isBlank cs
      rw [heq] at hfront
      exact Bool.false_ne_true (hfront.symm.trans hb)
    · refine .inr ⟨hend, by omega, fun hlength => ?_⟩
      obtain ⟨hall, heq⟩ := hexact (by omega)
      have hcs := hsame (by omega)
      refine ⟨⟨hall, @hhead _ [] (heq.trans (List.append_nil value).symm)⟩, ?_⟩
      rw [hcs] at heq
      exact heq

/-- The room of an assignment, with a blank after it. -/
def room (f : Text × Text) : Nat := f.1.length + 1 + f.2.length + 1

def totalRoom (fields : Fields) : Nat := (fields.map room).sum

/-- The text consists of these assignments, with one blank between any two. -/
inductive Laid : Fields → Text → Prop where
  | last (name value : Text) (hname : ∀ c ∈ name, c ≠ '=') (hvalue : Plain value) : Laid [(name, value)] (name ++ '=' :: value)
  | more (name value : Text) (b : Char) (fields : Fields) (cs : Text) (hname : ∀ c ∈ name, c ≠ '=') (hvalue : Plain value)
    (hne : value ≠ []) (hb : isBlank b = true) (h : Laid fields cs) : Laid ((name, value) :: fields) (name ++ '=' :: (value ++ b :: cs))

theorem readFields_length {n : Nat} {cs : Text} {fields : Fields} (h : readFields n cs = some fields) :
    fields = [] ∨ totalRoom fields ≤ cs.length + 1 ∧ (totalRoom fields = cs.length + 1 → Laid fields cs) := by
  induction n generalizing cs fields with
  | zero => cases h
  | succ n ih =>
    have hskip := (List.dropWhile_sublist isBlank (l := cs)).length_le
    rw [readFields] at h
    split at h
    · exact .inl (Option.some.inj h).symm
    · rename_i c rest hcs
      obtain ⟨⟨name, afterName⟩, hname, h⟩ := Option.bind_eq_some_iff.mp h
      obtain ⟨⟨value, afterValue⟩, hvalue, h⟩ := Option.bind_eq_some_iff.mp h
      obtain ⟨others, hothers, h⟩ := Option.bind_eq_some_iff.mp h
      obtain rfl := Option.some.inj h
      obtain ⟨hnameLe, hnameExact⟩ := readName_length hname
      have htotal : totalRoom ((name, value) :: others) = name.length + 1 + value.length + 1 + totalRoom others := by
        rw [totalRoom, List.map_cons, List.sum_cons]
        rfl
      have hsame : (c :: rest).length = cs.length → c :: rest = cs := by
        intro heq
        rw [← hcs] at heq ⊢
        exact (List.dropWhile_sublist isBlank).eq_of_length heq
      rw [hcs] at hskip
      rw [htotal]
      refine .inr ?_
      obtain ⟨hle, hexact⟩ | ⟨rfl, hle, hexact⟩ := readValue_length hvalue
      · obtain rfl | ⟨hrest, hlaid⟩ := ih hothers
        · have hnone : totalRoom [] = 0 := rfl
          exact ⟨by omega, fun heq => by omega⟩
        · refine ⟨by omega, fun heq => ?_⟩
          obtain ⟨hnameEq, hnameChars⟩ := hnameExact (by omega)
          obtain ⟨hplain, hne, b, hb, hvalueEq⟩ := hexact (by omega)
          rw [← hsame (by omega), hnameEq, hvalueEq]
          exact .more name value b others afterValue hnameChars hplain hne hb (hlaid (by omega))
      · have hothers' : others = [] := by
          cases n with
          | zero => cases hothers
          | succ n => exact (Option.some.inj hothers).symm
        subst hothers'
        have hnone : totalRoom [] = 0 := rfl
        refine ⟨by omega, fun heq => ?_⟩
        obtain ⟨hnameEq, hnameChars⟩ := hnameExact (by omega)
        obtain ⟨hplain, hvalueEq⟩ := hexact (by omega)
        rw [← hsame (by omega), hnameEq, hvalueEq]
        exact .last name value hnameChars hplain

theorem Laid.readable {fields : Fields} {cs : Text} (h : Laid fields cs) : Readable fields := by
  induction h with
  | last name value hname hvalue => exact hvalue
  | more name value b fields cs hname hvalue hne hb h ih =>
    cases fields with
    | nil => cases h
    | cons f fields => exact ⟨hvalue, hne, ih⟩

theorem Laid.plain {fields : Fields} {cs : Text} (h : Laid fields cs) : ∀ f ∈ fields, Plain f.2 := by
  induction h with
  | last name value hname hvalue =>
    intro f hf
    rw [List.mem_singleton.mp hf]
    exact hvalue
  | more name value b fields cs hname hvalue hne hb h ih =>
    intro f hf
    obtain rfl | hf := List.mem_cons.mp hf
    · exact hvalue
    · exact ih f hf

theorem length_render {f : Text × Text} {fields : Fields} : (render (f :: fields)).length + 1 = totalRoom (f :: fields) := by
  induction fields generalizing f with
  | nil => simp [render, renderField, totalRoom, room]; omega
  | cons g fields ih =>
    have htotal : totalRoom (f :: g :: fields) = room f + totalRoom (g :: fields) := by simp [totalRoom]
    rw [htotal, ← ih, render, List.length_append, List.length_cons, renderField, List.length_append, List.length_cons, room]
    omega

/-! What is written without quotes is read back. -/

theorem readName_append {name : Text} (h : ∀ c ∈ name, isBlank c = false ∧ c ≠ '=') (rest : Text) :
    readName (name ++ '=' :: rest) = some (name, rest) := by
  induction name with
  | nil => rfl
  | cons c name ih =>
    obtain ⟨hblank, heq⟩ := h c List.mem_cons_self
    rw [List.cons_append, readName, if_neg heq, if_neg (by simp [hblank]), ih fun d hd => h d (List.mem_cons_of_mem c hd)]
    rfl

theorem readPlain_append {value : Text} (h : AllPlain value) {b : Char} (hb : isBlank b = true) (rest : Text) :
    readPlain (value ++ b :: rest) = (value, rest) := by
  induction value with
  | nil =>
    have hne : b ≠ '\\' := fun heq => by rw [heq] at hb; cases hb
    rw [List.nil_append, readPlain_cons hne, if_pos hb]
  | cons c value ih =>
    obtain ⟨hblank, hne⟩ := h c List.mem_cons_self
    rw [List.cons_append, readPlain_cons hne, if_neg (by simp [hblank]), ih fun d hd => h d (List.mem_cons_of_mem c hd)]

theorem readPlain_self {value : Text} (h : AllPlain value) : readPlain value = (value, []) := by
  induction value with
  | nil => rfl
  | cons c value ih =>
    obtain ⟨hblank, hne⟩ := h c List.mem_cons_self
    rw [readPlain_cons hne, if_neg (by simp [hblank]), ih fun d hd => h d (List.mem_cons_of_mem c hd)]

/-- Nothing is skipped before a value that needs no quotes. -/
theorem readValue_of_plain {value rest : Text} (h : Plain value) (hne : value ≠ [] ∨ rest = []) :
    readValue (value ++ rest) = some (readPlain (value ++ rest)) := by
  cases value with
  | nil =>
    obtain rfl := hne.resolve_left fun h => h rfl
    rfl
  | cons c value =>
    obtain ⟨hblank, -⟩ := h.1 c List.mem_cons_self
    have hquote : c ≠ '\'' := fun heq => h.2 (by rw [heq]; rfl)
    unfold readValue
    rw [List.cons_append, List.dropWhile_cons, if_neg (by simp [hblank])]
    split
    · rename_i quoted heq
      exact absurd (List.cons.inj heq).1 hquote
    · rfl

theorem render_cons_ne {f : Text × Text} (hf : IsName f.1) (fields : Fields) :
    ∃ c cs, render (f :: fields) = c :: cs ∧ isBlank c = false := by
  obtain ⟨c, name, hname⟩ := List.exists_cons_of_ne_nil hf.1
  have hblank := (hf.2 c (by rw [hname]; exact List.mem_cons_self)).1
  cases fields with
  | nil => exact ⟨c, name ++ '=' :: f.2, by rw [render, renderField, hname]; rfl, hblank⟩
  | cons g fields => exact ⟨c, (name ++ '=' :: f.2) ++ ' ' :: render (g :: fields), by rw [render, renderField, hname]; rfl, hblank⟩

theorem readFields_render {fields : Fields} (hnames : ∀ f ∈ fields, IsName f.1) (h : Readable fields) {n : Nat} (hn : fields.length < n) :
    readFields n (render fields) = some fields := by
  induction fields generalizing n with
  | nil =>
    obtain ⟨n, rfl⟩ := Nat.exists_eq_succ_of_ne_zero (Nat.ne_of_gt hn)
    rfl
  | cons f fields ih =>
    obtain ⟨n, rfl⟩ := Nat.exists_eq_succ_of_ne_zero (Nat.ne_of_gt (Nat.zero_lt_of_lt hn))
    have hf := hnames f List.mem_cons_self
    obtain ⟨c, cs, hrender, hblank⟩ := render_cons_ne hf fields
    have hskip : (render (f :: fields)).dropWhile isBlank = render (f :: fields) := by
      rw [hrender, List.dropWhile_cons, if_neg (by simp [hblank])]
    rw [readFields, hskip, hrender]
    dsimp only
    rw [← hrender]
    cases fields with
    | nil =>
      have hread : readValue f.2 = some (f.2, []) := by
        have hplain := readValue_of_plain h (.inr rfl)
        rwa [List.append_nil, readPlain_self h.1] at hplain
      obtain ⟨n, rfl⟩ := Nat.exists_eq_succ_of_ne_zero (Nat.ne_of_gt (Nat.lt_of_succ_lt_succ hn))
      rw [render, renderField, readName_append hf.2]
      dsimp only [bind, Option.bind]
      rw [hread]
      rfl
    | cons g fields =>
      obtain ⟨hplain, hne, hrest⟩ := h
      have hread : readValue (f.2 ++ ' ' :: render (g :: fields)) = some (f.2, render (g :: fields)) := by
        rw [readValue_of_plain hplain (.inl hne), readPlain_append hplain.1 rfl]
      rw [render, renderField, List.append_assoc, List.cons_append, readName_append hf.2]
      dsimp only [bind, Option.bind]
      rw [hread]
      dsimp only
      rw [ih (fun f hf => hnames f (List.mem_cons_of_mem _ hf)) hrest (Nat.lt_of_succ_lt_succ hn)]
      rfl

theorem parse_render {fields : Fields} (hnames : ∀ f ∈ fields, IsName f.1) (h : Readable fields) : parse (render fields) = some fields := by
  refine readFields_render hnames h ?_
  cases fields with
  | nil => exact Nat.zero_lt_succ _
  | cons f fields =>
    have hroom : ∀ gs : Fields, gs.length ≤ totalRoom gs := by
      intro gs
      induction gs with
      | nil => exact Nat.le_refl 0
      | cons g gs ih =>
        have htotal : totalRoom (g :: gs) = room g + totalRoom gs := by simp [totalRoom]
        rw [htotal, List.length_cons, room]
        omega
    have hfirst : totalRoom (f :: fields) = room f + totalRoom fields := by simp [totalRoom]
    have hlength := @length_render f fields
    have hrest := hroom fields
    rw [hfirst, room] at hlength
    rw [List.length_cons]
    omega

/-! Nothing else is read back. -/

theorem append_cons_unique (stop : Char → Prop) {a b : Text} {x y : Char} {p q : Text} (ha : ∀ c ∈ a, ¬stop c) (hb : ∀ c ∈ b, ¬stop c)
    (hx : stop x) (hy : stop y) (h : a ++ x :: p = b ++ y :: q) : a = b ∧ x = y ∧ p = q := by
  induction a generalizing b with
  | nil =>
    cases b with
    | nil => exact ⟨rfl, List.cons.inj h⟩
    | cons d b => exact absurd ((List.cons.inj h).1 ▸ hx) (hb d List.mem_cons_self)
  | cons c a ih =>
    cases b with
    | nil => exact absurd ((List.cons.inj h).1 ▸ hy) (ha c List.mem_cons_self)
    | cons d b =>
      obtain ⟨rfl, htail⟩ := List.cons.inj h
      obtain ⟨rfl, hrest⟩ := ih (fun e he => ha e (List.mem_cons_of_mem _ he)) (fun e he => hb e (List.mem_cons_of_mem _ he)) htail
      exact ⟨rfl, hrest⟩

/-- A text that is written without quotes is laid out in one way only. -/
theorem laid_unique {fields found : Fields} (hnames : ∀ f ∈ fields, IsName f.1) (hplain : ∀ f ∈ fields, Plain f.2)
    (h : Laid found (render fields)) : found = fields := by
  have hequals : ∀ {a b : Text} {p q : Text}, (∀ c ∈ a, c ≠ '=') → (∀ c ∈ b, c ≠ '=') → a ++ '=' :: p = b ++ '=' :: q → a = b ∧ p = q := by
    intro a b p q ha hb heq
    obtain ⟨hab, -, hpq⟩ := append_cons_unique (fun c => c = '=') ha hb rfl rfl heq
    exact ⟨hab, hpq⟩
  have hblank : ∀ {value : Text}, Plain value → ∀ c ∈ value, ¬isBlank c = true := by
    intro value hvalue c hc
    simp [(hvalue.1 c hc).1]
  induction fields generalizing found with
  | nil =>
    generalize hcs : render [] = cs at h
    cases h with
    | last name value _ _ => simp [render] at hcs
    | more name value b found cs _ _ _ _ _ => simp [render] at hcs
  | cons f fields ih =>
    have hname : ∀ c ∈ f.1, c ≠ '=' := fun c hc => ((hnames f List.mem_cons_self).2 c hc).2
    have hvalue := hplain f List.mem_cons_self
    cases fields with
    | nil =>
      generalize hcs : render [f] = cs at h
      rw [render, renderField] at hcs
      cases h with
      | last name value hname' _ =>
        obtain ⟨rfl, rfl⟩ := hequals hname hname' hcs
        rfl
      | more name value b found cs hname' _ _ hb _ =>
        obtain ⟨-, htail⟩ := hequals hname hname' hcs
        exact absurd hb (hblank hvalue b (htail ▸ List.mem_append_right _ List.mem_cons_self))
    | cons g fields =>
      generalize hcs : render (f :: g :: fields) = cs at h
      rw [render, renderField, List.append_assoc, List.cons_append] at hcs
      cases h with
      | last name value hname' hvalue' =>
        obtain ⟨-, htail⟩ := hequals hname hname' hcs
        exact absurd rfl (hblank hvalue' ' ' (htail ▸ List.mem_append_right _ List.mem_cons_self))
      | more name value b found cs hname' hvalue' _ hb hlaid =>
        obtain ⟨rfl, htail⟩ := hequals hname hname' hcs
        obtain ⟨rfl, -, rfl⟩ := append_cons_unique (fun c => isBlank c = true) (hblank hvalue) (hblank hvalue') rfl hb htail
        rw [ih (fun f hf => hnames f (List.mem_cons_of_mem _ hf)) (fun f hf => hplain f (List.mem_cons_of_mem _ hf)) hlaid]

theorem mem_of_valueOf {name value : Text} {fields : Fields} (h : valueOf name fields = some value) : (name, value) ∈ fields := by
  obtain ⟨f, hf, rfl⟩ := Option.map_eq_some_iff.mp h
  have hname : f.1 = name := by simpa using List.find?_some hf
  rw [← hname]
  exact List.mem_reverse.mp (List.mem_of_find?_eq_some hf)

theorem valueOf_of_mem {fields : Fields} (hkeys : (fields.map Prod.fst).Nodup) {f : Text × Text} (hf : f ∈ fields) :
    valueOf f.1 fields = some f.2 := by
  cases hfound : valueOf f.1 fields with
  | none =>
    rw [valueOf, Option.map_eq_none_iff, List.find?_eq_none] at hfound
    exact absurd (decide_eq_true rfl) (hfound f (List.mem_reverse.mpr hf))
  | some value =>
    have hmem := mem_of_valueOf hfound
    have heq : (f.1, value) = f := List.inj_on_of_nodup_map hkeys hmem hf rfl
    rw [← heq]

/-- What is written without quotes means what was written exactly where no value needs quotes. -/
theorem means_render_iff {fields : Fields} (hnames : ∀ f ∈ fields, IsName f.1) (hkeys : (fields.map Prod.fst).Nodup) :
    Means (render fields) fields ↔ Readable fields := by
  refine ⟨?_, fun h => ⟨fields, parse_render hnames h, fun _ => rfl⟩⟩
  rintro ⟨found, hparse, hvalues⟩
  cases hfields : fields with
  | nil => exact trivial
  | cons f rest =>
    rw [← hfields]
    -- Every field is among what is read, which has room for nothing more.
    have hsubset : fields ⊆ found := by
      intro g hg
      have hvalue := (hvalues g.1).trans (valueOf_of_mem hkeys hg)
      exact mem_of_valueOf hvalue
    have hroom : totalRoom fields ≤ totalRoom found := by
      obtain ⟨sub, hperm, hsub⟩ := List.subperm_of_subset (List.Nodup.of_map _ hkeys) hsubset
      calc
        totalRoom fields = totalRoom sub := ((hperm.map room).sum_eq).symm
        _ ≤ totalRoom found := (hsub.map room).sum_le_sum fun _ _ => Nat.zero_le _
    have hlength : totalRoom fields = (render fields).length + 1 := by rw [hfields, length_render]
    obtain rfl | ⟨hle, hexact⟩ := readFields_length hparse
    · rw [hfields] at hsubset
      exact absurd (hsubset List.mem_cons_self) List.not_mem_nil
    · have hlaid := hexact (by omega)
      have hplain : ∀ g ∈ fields, Plain g.2 := fun g hg => hlaid.plain g (hsubset hg)
      rw [← laid_unique hnames hplain hlaid]
      exact hlaid.readable

theorem readable_iff {fields : Fields} (h : ∀ f ∈ fields, f.2 ≠ []) : Readable fields ↔ ∀ f ∈ fields, Plain f.2 := by
  induction fields with
  | nil => exact iff_of_true trivial fun f hf => absurd hf List.not_mem_nil
  | cons f fields ih =>
    have hrest := ih fun g hg => h g (List.mem_cons_of_mem f hg)
    cases fields with
    | nil => exact ⟨fun hf => List.forall_mem_singleton.mpr hf, fun hf => hf f List.mem_cons_self⟩
    | cons g fields =>
      rw [Readable, hrest]
      refine ⟨fun hf => List.forall_mem_cons.mpr ⟨hf.1, hf.2.2⟩, fun hf => ?_⟩
      exact ⟨hf f List.mem_cons_self, h f List.mem_cons_self, fun g hg => hf g (List.mem_cons_of_mem f hg)⟩

end XgenSdk.Conninfo
