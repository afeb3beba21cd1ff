import XgenSdk.Lib.Runs
import Mathlib.Data.List.Infix
import Mathlib.Data.List.Range

/-! Words replaced in a text one after the other, and all at once. A text that is
numbered tells the letters that were in it from those that came in. -/
namespace XgenSdk.Substitution
open XgenSdk.Runs
variable {α β γ : Type} [DecidableEq α]

/-- The text starts with the word, as its letters read. -/
def starts (read : β → α) (word : List α) (text : List β) : Bool := word.isPrefixOf (text.map read)

/-- One word for another text; so many letters of a found word are left to drop. -/
def replaceFrom (read : β → α) (word : List α) (body : List β) : Nat → List β → List β
  | _, [] => []
  | skip + 1, _ :: text => replaceFrom read word body skip text
  | 0, x :: text =>
    if starts read word (x :: text) then body ++ replaceFrom read word body (word.length - 1) text
    else x :: replaceFrom read word body 0 text

/-- Every word that has a value, at once. -/
def fillFrom (read : β → α) (values : List (List α × List β)) : Nat → List β → List β
  | _, [] => []
  | skip + 1, _ :: text => fillFrom read values skip text
  | 0, x :: text =>
    match values.find? fun e => starts read e.1 (x :: text) with
    | some e => e.2 ++ fillFrom read values (e.1.length - 1) text
    | none => x :: fillFrom read values 0 text

/-! Rules. -/

section Rules
variable {read : β → α} {word : List α} {body text : List β} {values : List (List α × List β)} {e : List α × List β}

theorem starts_iff : starts read word text = true ↔ word <+: text.map read := List.isPrefixOf_iff_prefix

theorem not_starts_nil (h : word ≠ []) : starts read word ([] : List β) = false := by
  cases word with
  | nil => exact absurd rfl h
  | cons a word => rfl

theorem replaceFrom_skip (skip : Nat) (text : List β) :
    replaceFrom read word body skip text = replaceFrom read word body 0 (text.drop skip) := by
  induction skip generalizing text with
  | zero => rfl
  | succ skip ih =>
    cases text with
    | nil => rfl
    | cons x text => exact ih text

theorem fillFrom_skip (skip : Nat) (text : List β) : fillFrom read values skip text = fillFrom read values 0 (text.drop skip) := by
  induction skip generalizing text with
  | zero => rfl
  | succ skip ih =>
    cases text with
    | nil => rfl
    | cons x text => exact ih text

omit [DecidableEq α] in
theorem drop_pred (h : word ≠ []) (x : β) (text : List β) : text.drop (word.length - 1) = (x :: text).drop word.length := by
  cases word with
  | nil => exact absurd rfl h
  | cons a word => rfl

theorem replaceFrom_found (hword : word ≠ []) (h : starts read word text = true) :
    replaceFrom read word body 0 text = body ++ replaceFrom read word body 0 (text.drop word.length) := by
  cases text with
  | nil =>
    rw [not_starts_nil hword] at h
    cases h
  | cons x text => rw [replaceFrom, if_pos h, replaceFrom_skip, drop_pred hword x]

theorem fillFrom_found (h : (values.find? fun e => starts read e.1 text) = some e) (hword : e.1 ≠ []) :
    fillFrom read values 0 text = e.2 ++ fillFrom read values 0 (text.drop e.1.length) := by
  cases text with
  | nil =>
    have hstarts := List.find?_some h
    rw [not_starts_nil hword] at hstarts
    cases hstarts
  | cons x text =>
    rw [fillFrom, h]
    dsimp only
    rw [fillFrom_skip, drop_pred hword x]

theorem fillFrom_pass {n : Nat} (h : ∀ k < n, (values.find? fun e => starts read e.1 (text.drop k)) = none) :
    fillFrom read values 0 text = text.take n ++ fillFrom read values 0 (text.drop n) := by
  induction n generalizing text with
  | zero => rfl
  | succ n ih =>
    cases text with
    | nil => rfl
    | cons x text =>
      have hfirst := h 0 (Nat.succ_pos n)
      rw [List.drop_zero] at hfirst
      rw [fillFrom, hfirst]
      dsimp only
      rw [ih fun k hk => h (k + 1) (Nat.succ_lt_succ hk)]
      rfl

/-! Reading letters through another alphabet. -/

theorem map_replaceFrom (g : β → γ) (read : γ → α) (skip : Nat) (text : List β) :
    (replaceFrom (read ∘ g) word body skip text).map g = replaceFrom read word (body.map g) skip (text.map g) := by
  induction text generalizing skip with
  | nil => cases skip <;> rfl
  | cons x text ih =>
    cases skip with
    | succ skip => exact ih skip
    | zero =>
      have hstarts : starts (read ∘ g) word (x :: text) = starts read word (g x :: text.map g) := by
        rw [starts, starts, ← List.map_cons, List.map_map]
      rw [List.map_cons, replaceFrom, replaceFrom, hstarts]
      split
      · rw [List.map_append, ih]
      · rw [List.map_cons, ih]

theorem map_fillFrom (g : β → γ) (read : γ → α) (skip : Nat) (text : List β) :
    (fillFrom (read ∘ g) values skip text).map g = fillFrom read (values.map fun e => (e.1, e.2.map g)) skip (text.map g) := by
  induction text generalizing skip with
  | nil => cases skip <;> rfl
  | cons x text ih =>
    cases skip with
    | succ skip => exact ih skip
    | zero =>
      have hfind : ((values.map fun e => (e.1, e.2.map g)).find? fun e => starts read e.1 (g x :: text.map g)) =
          (values.find? fun e => starts (read ∘ g) e.1 (x :: text)).map fun e => (e.1, e.2.map g) := by
        rw [List.find?_map]
        congr 2
        funext e
        rw [Function.comp_apply, starts, starts, ← List.map_cons, List.map_map]
      rw [List.map_cons, fillFrom, fillFrom, hfind]
      cases values.find? fun e => starts (read ∘ g) e.1 (x :: text) with
      | none =>
        rw [Option.map_none]
        dsimp only
        rw [List.map_cons, ih]
      | some e =>
        rw [Option.map_some]
        dsimp only
        rw [List.map_append, ih]

end Rules

/-! Texts whose letters are numbered. -/

/-- A letter, and its place in the text that it was in from the start. -/
abbrev Marked (α : Type) : Type := α × Option Nat

def number : Nat → List α → List (Marked α)
  | _, [] => []
  | i, c :: text => (c, some i) :: number (i + 1) text

def inserted (body : List α) : List (Marked α) := body.map fun c => (c, none)

/-- The letters of a text were side by side from the start. -/
def SideBySide (text : List (Marked α)) : Prop :=
  text.map Prod.snd = (List.range' ((text.head?.bind Prod.snd).getD 0) text.length).map some

/-- The word stands nowhere but where it stood from the start. -/
def Own (word : List α) (text : List (Marked α)) : Prop :=
  ∀ rest ∈ text.tails, starts Prod.fst word rest = true → SideBySide (rest.take word.length)

/-- Words of which none starts inside another. -/
structure Tight (words : List (List α)) : Prop where
  ne_nil : ∀ w ∈ words, w ≠ []
  inside : ∀ w ∈ words, ∀ v ∈ words, ∀ k, 0 < k → k < w.length → ∀ rest, ¬ v <+: w.drop k ++ rest

def insertions (values : List (List α × List α)) : List (List α × List (Marked α)) := values.map fun e => (e.1, inserted e.2)

def replaceOne (text : List (Marked α)) (e : List α × List α) : List (Marked α) := replaceFrom Prod.fst e.1 (inserted e.2) 0 text

def fillMarked (values : List (List α × List α)) (text : List (Marked α)) : List (Marked α) :=
  fillFrom Prod.fst (insertions values) 0 text

section Marks
variable {values : List (List α × List α)} {e : List α × List α} {t word : List α} {i k n : Nat} {text : List (Marked α)}

omit [DecidableEq α] in
theorem drop_number (n i : Nat) (t : List α) : (number i t).drop n = number (i + n) (t.drop n) := by
  induction n generalizing i t with
  | zero => rfl
  | succ n ih =>
    cases t with
    | nil => rfl
    | cons c t => rw [number, List.drop_succ_cons, ih, List.drop_succ_cons, Nat.add_assoc, Nat.add_comm 1]

omit [DecidableEq α] in
theorem map_number (i : Nat) (t : List α) : (number i t).map Prod.fst = t := by
  induction t generalizing i with
  | nil => rfl
  | cons c t ih => rw [number, List.map_cons, ih]

omit [DecidableEq α] in
theorem map_inserted (body : List α) : (inserted body).map Prod.fst = body := by
  rw [inserted, List.map_map]
  exact List.map_id _

theorem starts_number (i : Nat) (t : List α) : starts Prod.fst word (number i t) = word.isPrefixOf t := by
  rw [starts, map_number]

theorem Own.suffix {text' : List (Marked α)} (h : Own word text) (hsuffix : text' <:+ text) : Own word text' := by
  intro rest hrest
  exact h rest ((List.mem_tails _ _).mpr (((List.mem_tails _ _).mp hrest).trans hsuffix))

omit [DecidableEq α] in
theorem SideBySide.first {x : Marked α} (h : SideBySide (x :: text)) : x.2.isSome = true := by
  rw [SideBySide, List.map_cons, List.length_cons, List.range'_succ, List.map_cons, List.cons.injEq] at h
  rw [h.1]
  rfl

/-- A word that starts at a letter that came in is not its own. -/
theorem Own.not_starts {c : α} (h : Own word ((c, none) :: text)) (hword : word ≠ []) :
    starts Prod.fst word ((c, none) :: text) = false := by
  rw [← Bool.not_eq_true]
  intro hstarts
  have hside := h _ ((List.mem_tails _ _).mpr List.suffix_rfl) hstarts
  cases word with
  | nil => exact hword rfl
  | cons a word =>
    rw [List.length_cons, List.take_succ_cons] at hside
    exact absurd hside.first (by simp)

/-- What came in stays, where the word is its own. -/
theorem replaceFrom_inserted (hword : word ≠ []) (new : List (Marked α)) (body : List α) (h : Own word (inserted body ++ text)) :
    replaceFrom Prod.fst word new 0 (inserted body ++ text) = inserted body ++ replaceFrom Prod.fst word new 0 text := by
  induction body with
  | nil => rfl
  | cons c body ih =>
    have hfirst : starts Prod.fst word ((c, none) :: (inserted body ++ text)) = false := Own.not_starts h hword
    have hrest := ih (h.suffix (List.suffix_cons _ _))
    have hstay : ¬ starts Prod.fst word ((c, none) :: (inserted body ++ text)) = true := by
      rw [hfirst]
      exact Bool.false_ne_true
    have hcons : inserted (c :: body) ++ text = (c, none) :: (inserted body ++ text) := rfl
    rw [hcons, replaceFrom, if_neg hstay, hrest]
    rfl

theorem fillMarked_none {c : α} (hfind : (insertions values).find? (fun e => starts Prod.fst e.1 (number i (c :: t))) = none) :
    fillMarked values (number i (c :: t)) = (c, some i) :: fillMarked values (number (i + 1) t) := by
  rw [fillMarked, number, fillFrom, ← number, hfind]
  rfl

theorem fillMarked_found {found : List α × List (Marked α)}
    (hfind : (insertions values).find? (fun e => starts Prod.fst e.1 (number i t)) = some found) (hword : found.1 ≠ []) :
    fillMarked values (number i t) = found.2 ++ fillMarked values (number (i + found.1.length) (t.drop found.1.length)) := by
  rw [fillMarked, fillFrom_found hfind hword, drop_number]
  rfl

/-- Letters of the text itself keep their places. -/
theorem mark_ge {x : Marked α} (hwords : ∀ e ∈ values, e.1 ≠ []) (hx : x ∈ fillMarked values (number i t)) (hk : x.2 = some k) : i ≤ k := by
  induction hlength : t.length using Nat.strong_induction_on generalizing i t with
  | _ length ih =>
    cases t with
    | nil => cases hx
    | cons c t =>
      rw [List.length_cons] at hlength
      cases hfind : (insertions values).find? fun e => starts Prod.fst e.1 (number i (c :: t)) with
      | none =>
        rw [fillMarked_none hfind] at hx
        obtain rfl | hx := List.mem_cons.mp hx
        · exact le_of_eq (Option.some.inj hk)
        · have hle := ih t.length (by omega) hx rfl
          omega
      | some e =>
        obtain ⟨e', he', rfl⟩ := List.mem_map.mp (List.mem_of_find?_eq_some hfind)
        have hword := hwords e' he'
        rw [fillMarked_found hfind hword] at hx
        obtain hx | hx := List.mem_append.mp hx
        · obtain ⟨c', -, rfl⟩ := List.mem_map.mp hx
          cases hk
        · have hpos := List.length_pos_iff.mpr hword
          have hshorter : ((c :: t).drop e'.1.length).length < length := by
            rw [List.length_drop, List.length_cons]
            omega
          have hle := ih _ hshorter hx rfl
          omega

/-- Letters that are side by side after the filling were so before it. -/
theorem take_fillMarked (hwords : ∀ e ∈ values, e.1 ≠ []) (hn : n ≤ (fillMarked values (number i t)).length)
    (h : ((fillMarked values (number i t)).take n).map Prod.snd = (List.range' i n).map some) :
    ((fillMarked values (number i t)).take n).map Prod.fst = t.take n := by
  induction n generalizing i t with
  | zero => rfl
  | succ n ih =>
    cases t with
    | nil => exact absurd hn (by simp [fillMarked, number, fillFrom])
    | cons c t =>
      cases hfind : (insertions values).find? fun e => starts Prod.fst e.1 (number i (c :: t)) with
      | none =>
        rw [fillMarked_none hfind] at h hn ⊢
        rw [List.length_cons] at hn
        rw [List.take_succ_cons, List.map_cons, List.range'_succ, List.map_cons, List.cons.injEq] at h
        rw [List.take_succ_cons, List.map_cons, ih (by omega) h.2, List.take_succ_cons]
      | some e =>
        obtain ⟨e', he', rfl⟩ := List.mem_map.mp (List.mem_of_find?_eq_some hfind)
        have hword := hwords e' he'
        have hpos := List.length_pos_iff.mpr hword
        have hfill : fillMarked values (number i (c :: t)) =
            inserted e'.2 ++ fillMarked values (number (i + e'.1.length) ((c :: t).drop e'.1.length)) := fillMarked_found hfind hword
        -- The first letter came in, or stood behind the word.
        cases hall : fillMarked values (number i (c :: t)) with
        | nil =>
          rw [hall] at hn
          exact absurd hn (by simp)
        | cons x rest =>
          rw [hall, List.take_succ_cons, List.map_cons, List.range'_succ, List.map_cons, List.cons.injEq] at h
          have hx : x ∈ inserted e'.2 ++ fillMarked values (number (i + e'.1.length) ((c :: t).drop e'.1.length)) :=
            hfill ▸ hall ▸ List.mem_cons_self
          obtain hx | hx := List.mem_append.mp hx
          · obtain ⟨c', -, rfl⟩ := List.mem_map.mp hx
            cases h.1
          · have hle := mark_ge hwords hx h.1
            omega

theorem find_insertions_append (values : List (List α × List α)) (e : List α × List α) (text : List (Marked α)) :
    (insertions (values ++ [e])).find? (fun e => starts Prod.fst e.1 text) =
      ((insertions values).find? fun e => starts Prod.fst e.1 text).or
        (if starts Prod.fst e.1 text then some (e.1, inserted e.2) else none) := by
  rw [insertions, List.map_append, List.find?_append, List.map_singleton, List.find?_singleton]
  rfl

variable {words : List (List α)}

/-- Inside a word no other one starts. -/
theorem Tight.pass (h : Tight words) (hvalues : ∀ e ∈ values, e.1 ∈ words) (hword : word ∈ words) {c : α}
    (hfind : (insertions values).find? (fun e => starts Prod.fst e.1 (number i (c :: t))) = none)
    (hstarts : starts Prod.fst word (number i (c :: t)) = true) : ∀ k < word.length,
      (insertions values).find? (fun e => starts Prod.fst e.1 ((number i (c :: t)).drop k)) = none := by
  intro k hk
  obtain rfl | hpos := Nat.eq_zero_or_pos k
  · exact hfind
  · rw [List.find?_eq_none]
    rintro e he hthere
    obtain ⟨e', he', rfl⟩ := List.mem_map.mp he
    rw [starts_iff, map_number] at hstarts
    obtain ⟨rest, hrest⟩ := hstarts
    rw [starts_iff, List.map_drop, map_number, ← hrest, List.drop_append_of_le_length (le_of_lt hk)] at hthere
    exact h.inside word hword e'.1 (hvalues e' he') k hpos hk rest hthere

/-- A word that is its own is replaced as it would have been with the others. -/
theorem replaceOne_fillMarked (htight : Tight words) (hvalues : ∀ e ∈ values, e.1 ∈ words) (he : e.1 ∈ words)
    (hown : Own e.1 (fillMarked values (number i t))) :
    replaceOne (fillMarked values (number i t)) e = fillMarked (values ++ [e]) (number i t) := by
  have hwords : ∀ e ∈ values, e.1 ≠ [] := fun e he => htight.ne_nil _ (hvalues e he)
  have hword := htight.ne_nil _ he
  have hlong := List.length_pos_iff.mpr hword
  induction hlength : t.length using Nat.strong_induction_on generalizing i t with
  | _ length ih =>
    cases t with
    | nil => rfl
    | cons c t =>
      rw [List.length_cons] at hlength
      have hfindAll := find_insertions_append values e (number i (c :: t))
      cases hfind : (insertions values).find? fun e => starts Prod.fst e.1 (number i (c :: t)) with
      | some found =>
        obtain ⟨e', he', rfl⟩ := List.mem_map.mp (List.mem_of_find?_eq_some hfind)
        have hpos := List.length_pos_iff.mpr (hwords e' he')
        have hfill : fillMarked values (number i (c :: t)) =
            inserted e'.2 ++ fillMarked values (number (i + e'.1.length) ((c :: t).drop e'.1.length)) :=
          fillMarked_found hfind (hwords e' he')
        have hshorter : ((c :: t).drop e'.1.length).length < length := by
          rw [List.length_drop, List.length_cons]
          omega
        rw [hfind, Option.some_or] at hfindAll
        rw [hfill] at hown ⊢
        rw [replaceOne, replaceFrom_inserted hword _ _ hown]
        have hrest := ih _ hshorter (hown.suffix (List.suffix_append _ _)) rfl
        rw [replaceOne] at hrest
        rw [hrest, fillMarked_found hfindAll (hwords e' he')]
      | none =>
        rw [hfind, Option.none_or] at hfindAll
        cases hstarts : starts Prod.fst e.1 (number i (c :: t)) with
        | true =>
          rw [hstarts, if_pos rfl] at hfindAll
          have hpass := fillFrom_pass (htight.pass hvalues he hfind hstarts)
          have hfill : fillMarked values (number i (c :: t)) = (number i (c :: t)).take e.1.length ++
              fillMarked values (number (i + e.1.length) ((c :: t).drop e.1.length)) := by
            rw [fillMarked, hpass, drop_number]
            rfl
          have hlengthTake : ((number i (c :: t)).take e.1.length).length = e.1.length := by
            have hle := (starts_iff.mp hstarts).length_le
            rw [List.length_map] at hle
            rw [List.length_take, min_eq_left hle]
          have hthere : starts Prod.fst e.1 (fillMarked values (number i (c :: t))) = true := by
            rw [starts_iff] at hstarts ⊢
            rw [hfill, List.map_append, List.map_take]
            exact (List.prefix_take_iff.mpr ⟨hstarts, le_rfl⟩).trans (List.prefix_append _ _)
          have hshorter : ((c :: t).drop e.1.length).length < length := by
            rw [List.length_drop, List.length_cons]
            omega
          rw [replaceOne, replaceFrom_found hword hthere]
          rw [hfill] at hown ⊢
          rw [List.drop_left' hlengthTake]
          have hrest := ih _ hshorter (hown.suffix (List.suffix_append _ _)) rfl
          rw [replaceOne] at hrest
          rw [hrest, fillMarked_found hfindAll hword]
        | false =>
          rw [hstarts, if_neg Bool.false_ne_true] at hfindAll
          have hfill := fillMarked_none hfind
          have hnot : ¬ starts Prod.fst e.1 (fillMarked values (number i (c :: t))) = true := by
            intro hthere
            have hside := hown _ ((List.mem_tails _ _).mpr List.suffix_rfl) hthere
            have hle := (starts_iff.mp hthere).length_le
            rw [List.length_map] at hle
            have hplaces : ((fillMarked values (number i (c :: t))).take e.1.length).map Prod.snd =
                (List.range' i e.1.length).map some := by
              have hhead : ((fillMarked values (number i (c :: t))).take e.1.length).head? = some (c, some i) := by
                rw [hfill, List.head?_take, if_neg (by omega), List.head?_cons]
              rw [SideBySide, hhead, List.length_take, min_eq_left hle] at hside
              exact hside
            have htake := take_fillMarked hwords hle hplaces
            rw [starts_iff, List.prefix_iff_eq_take] at hthere
            rw [← List.map_take, htake] at hthere
            have hprefix : starts Prod.fst e.1 (number i (c :: t)) = true := by
              rw [starts_number, List.isPrefixOf_iff_prefix, List.prefix_iff_eq_take]
              exact hthere
            rw [hstarts] at hprefix
            cases hprefix
          rw [hfill] at hown hnot ⊢
          rw [replaceOne, replaceFrom, if_neg hnot, fillMarked_none hfindAll]
          have hrest := ih t.length (by omega) (hown.suffix (List.suffix_cons _ _)) rfl
          rw [replaceOne] at hrest
          rw [hrest]

/-! The whole run. -/

/-- No word stands where it did not stand from the start, once those before it are filled in at once. -/
def Apart (values : List (List α × List α)) (text : List (Marked α)) : Prop :=
  ∀ front e rest, values = front ++ e :: rest → Own e.1 (fillMarked front text)

theorem fillMarked_nil (text : List (Marked α)) : fillMarked [] text = text := by
  induction text with
  | nil => rfl
  | cons x text ih => exact congrArg (x :: ·) ih

theorem apart_concat : Apart (values ++ [e]) text ↔ Apart values text ∧ Own e.1 (fillMarked values text) := by
  constructor
  · intro h
    refine ⟨fun front e' rest hsplit => h front e' (rest ++ [e]) ?_, h values e [] rfl⟩
    exact concat_eq_iff.mpr (.inr ⟨rest, rfl, hsplit⟩)
  · rintro ⟨hbefore, hlast⟩ front e' rest hsplit
    obtain ⟨rfl, rfl, -⟩ | ⟨rest, -, hvalues⟩ := concat_eq_iff.mp hsplit
    · exact hlast
    · exact hbefore front e' rest hvalues

/-- The words are replaced one after the other as at once exactly where each is its own when it is replaced,
and that can be told from the filled texts. -/
theorem along_own_iff (htight : Tight words) (hvalues : ∀ e ∈ values, e.1 ∈ words) (i : Nat) (t : List α) :
    (Along replaceOne (fun e text => Own e.1 text) values (number i t) ↔ Apart values (number i t)) ∧
      (Apart values (number i t) → after replaceOne values (number i t) = fillMarked values (number i t)) := by
  induction values using List.reverseRecOn with
  | nil => exact ⟨iff_of_true along_nil fun front e rest h => by simp at h, fun _ => (fillMarked_nil _).symm⟩
  | append_singleton values e ih =>
    have hbefore : ∀ e ∈ values, e.1 ∈ words := fun e' he' => hvalues e' (List.mem_append_left _ he')
    obtain ⟨hiff, hafter⟩ := ih hbefore
    rw [along_concat, apart_concat, hiff, after_concat]
    refine ⟨and_congr_right fun hapart => by rw [hafter hapart], fun h => ?_⟩
    rw [hafter h.1]
    exact replaceOne_fillMarked htight hbefore (hvalues e (List.mem_append_right _ List.mem_cons_self)) h.2

/-! Without the marks. -/

/-- `text.replace(word, body)`. -/
def replace (text : List α) (e : List α × List α) : List α := replaceFrom id e.1 e.2 0 text

/-- Every word that has a value, at once. -/
def fill (values : List (List α × List α)) (text : List α) : List α := fillFrom id values 0 text

theorem map_replaceOne (e : List α × List α) : (replaceOne text e).map Prod.fst = replace (text.map Prod.fst) e := by
  have h := @map_replaceFrom α (Marked α) α _ e.1 (inserted e.2) Prod.fst id 0 text
  rw [map_inserted] at h
  exact h

theorem map_fillMarked : (fillMarked values text).map Prod.fst = fill values (text.map Prod.fst) := by
  have h := @map_fillFrom α (Marked α) α _ (insertions values) Prod.fst id 0 text
  have hvalues : ((insertions values).map fun e => (e.1, e.2.map Prod.fst)) = values := by
    rw [insertions, List.map_map]
    refine (List.map_congr_left fun e _ => ?_).trans (List.map_id _)
    rw [Function.comp_apply, map_inserted]
    rfl
  rw [hvalues] at h
  exact h

theorem map_after (values : List (List α × List α)) (text : List (Marked α)) :
    (after replaceOne values text).map Prod.fst = after replace values (text.map Prod.fst) := by
  induction values generalizing text with
  | nil => rfl
  | cons e values ih => rw [after_cons, after_cons, ih, map_replaceOne]

/-- One after the other or at once, the text is the same, and nothing that came in is replaced, where the words stand apart. -/
theorem replaced_iff_apart (htight : Tight words) (hvalues : ∀ e ∈ values, e.1 ∈ words) (t : List α) :
    (after replace values t = fill values t ∧ Along replaceOne (fun e text => Own e.1 text) values (number 0 t)) ↔
      Apart values (number 0 t) := by
  obtain ⟨hiff, hafter⟩ := along_own_iff htight hvalues 0 t
  refine ⟨fun h => hiff.mp h.2, fun hapart => ⟨?_, hiff.mpr hapart⟩⟩
  have hsame := congrArg (List.map Prod.fst) (hafter hapart)
  rwa [map_after, map_fillMarked, map_number] at hsame

end Marks
end XgenSdk.Substitution
