import XgenSdk.Db.Records
import XgenSdk.Lib.Matches
import XgenSdk.Lib.Dict
import XgenSdk.Lib.Checks

/-! `_convert_named_params`: the named parameters of a query in the style of the driver. -/
namespace XgenSdk.NamedParams
open XgenSdk.AppDb (DbType)
open XgenSdk.Records (mark)
open Matches Checks
variable {V : Type}

/-- `[a-zA-Z_]`. -/
def isNameStart (c : Char) : Bool := c.isAlpha || c == '_'

/-- `[a-zA-Z0-9_]`. -/
def isNameChar (c : Char) : Bool := c.isAlphanum || c == '_'

/-- `:([a-zA-Z_][a-zA-Z0-9_]*)`. -/
def paramLength : List Char → Option Nat
  | x :: c :: s => if x == ':' && isNameStart c then some ((s.takeWhile isNameChar).length + 2) else none
  | _ => none

/-- `KeyError`. -/
structure KeyError where
  message : String
  deriving DecidableEq, Repr

def missing (key : String) : KeyError := ⟨"Missing SQL parameter: " ++ key⟩

/-- What stands for one part of the query, and the values it takes. -/
def repl (db : DbType) (params : Dict String V) : Matches.Part Char → Except KeyError (List Char × List V)
  | .single c => .ok ([c], [])
  | .found r =>
    let key := String.ofList (r.drop 1)
    match params.get key with
    | none => .error (missing key)
    | some v => .ok ((mark db).toList, [v])

def convertNamedParams (db : DbType) (query : String) (params : Dict String V) : Except KeyError (String × List V) :=
  if params.entries.isEmpty then .ok (query, [])
  else do
    let pieces ← (parts paramLength query.toList).mapM (repl db params)
    .ok (String.ofList (pieces.flatMap Prod.fst), pieces.flatMap Prod.snd)

/-! The SQL texts of the function. -/

/-- A text between two marks; a mark within it is written twice. -/
def quoted (q : Char) (body : List Char) : List Char := q :: body.flatMap (fun c => if c = q then [c, c] else [c]) ++ [q]

inductive Token where
  | ordinary (text : List Char)
  | delimited (body : List Char)
  | literal (body : List Char)
  | cast (type : List Char)
  | castQuoted (body : List Char)
  | param (name : List Char)
  deriving DecidableEq, Repr

def Token.text : Token → List Char
  | ordinary text => text
  | delimited body => quoted '"' body
  | literal body => quoted '\'' body
  | cast type => ':' :: ':' :: type
  | castQuoted body => ':' :: ':' :: quoted '"' body
  | param name => ':' :: name

def text (tokens : List Token) : List Char := tokens.flatMap Token.text

def Token.isParam : Token → Bool
  | param _ => true
  | _ => false

def isTypeChar (c : Char) : Bool := isNameChar c || c == '$' || 128 ≤ c.toNat

def IsName (name : List Char) : Prop := ∃ c s, name = c :: s ∧ isNameStart c = true ∧ s.all isNameChar = true

/-- No quotation begins in an ordinary text, and no colon of it begins a cast or a name. -/
def Token.Formed : Token → Prop
  | ordinary text => text ≠ [] ∧ '\'' ∉ text ∧ '"' ∉ text ∧
      ∀ front rest, text = front ++ ':' :: rest → ∃ d s, rest = d :: s ∧ d ≠ ':' ∧ isNameStart d = false
  | delimited _ => True
  | literal _ => True
  | cast type => type ≠ [] ∧ type.all isTypeChar = true
  | castQuoted _ => True
  | param name => IsName name

/-- A name goes as far as it can. -/
def Token.EndsBefore : Token → List Char → Prop
  | param _, c :: _ => isNameChar c = false
  | _, _ => True

def WellFormed : List Token → Prop
  | [] => True
  | t :: tokens => t.Formed ∧ t.EndsBefore (text tokens) ∧ WellFormed tokens

/-- The tokens with a placeholder for each named parameter. -/
def Token.converted (db : DbType) : Token → List Char
  | param _ => (mark db).toList
  | t => t.text

def Token.name? : Token → Option String
  | param name => some (String.ofList name)
  | _ => none

/-- The named parameters in order of occurrence. -/
def names (tokens : List Token) : List String := tokens.filterMap Token.name?

/-- No colon stands directly before a letter or an underscore. -/
def NamesNothing (s : List Char) : Prop := ∀ c, isNameStart c = true → ¬ [':', c] <:+: s

/-! The matches of a text. -/

theorem isNameChar_of_start {c : Char} (h : isNameStart c = true) : isNameChar c = true := by
  unfold isNameStart at h
  unfold isNameChar Char.isAlphanum
  rw [Bool.or_eq_true] at h ⊢
  rw [Bool.or_eq_true]
  exact h.imp_left .inl

theorem ne_colon {c : Char} (h : isNameChar c = true) : c ≠ ':' := by
  rintro rfl
  revert h
  decide

theorem colon_not_mem {s : List Char} (h : s.all isNameChar = true) : ':' ∉ s :=
  fun hmem => ne_colon (List.all_eq_true.mp h _ hmem) rfl

theorem IsName.all {name : List Char} (h : IsName name) : name.all isNameChar = true := by
  obtain ⟨c, s, rfl, hc, hs⟩ := h
  rw [List.all_cons, isNameChar_of_start hc, hs]
  rfl

theorem paramLength_cons (x c : Char) (s : List Char) : paramLength (x :: c :: s) =
    if x == ':' && isNameStart c then some ((s.takeWhile isNameChar).length + 2) else none := rfl

theorem paramLength_isSome (x c : Char) (s : List Char) :
    (paramLength (x :: c :: s)).isSome = (x == ':' && isNameStart c) := by
  rw [paramLength_cons]
  cases x == ':' && isNameStart c <;> rfl

theorem paramLength_of_ne {x : Char} (h : x ≠ ':') (s : List Char) : paramLength (x :: s) = none := by
  cases s with
  | nil => rfl
  | cons c s => rw [paramLength_cons, beq_eq_false_iff_ne.mpr h, Bool.false_and, if_neg Bool.false_ne_true]

theorem paramLength_some {s : List Char} {n : Nat} (h : paramLength s = some n) :
    ∃ c rest, s = ':' :: c :: rest ∧ isNameStart c = true ∧ n = (rest.takeWhile isNameChar).length + 2 := by
  cases s with
  | nil => cases h
  | cons x s =>
    cases s with
    | nil => cases h
    | cons c s =>
      rw [paramLength_cons] at h
      by_cases hmatch : (x == ':' && isNameStart c) = true
      · rw [if_pos hmatch] at h
        rw [Bool.and_eq_true, beq_iff_eq] at hmatch
        exact ⟨c, s, by rw [hmatch.1], hmatch.2, (Option.some.inj h).symm⟩
      · rw [if_neg hmatch] at h
        cases h

theorem bounded_paramLength : Bounded paramLength := by
  intro s n h
  obtain ⟨c, rest, rfl, -, rfl⟩ := paramLength_some h
  have := (List.takeWhile_sublist isNameChar : (rest.takeWhile isNameChar).Sublist rest).length_le
  simp only [List.length_cons]
  omega

/-- What a match is: a name that goes as far as it can. -/
theorem paramLength_eq_some {s : List Char} {n : Nat} (h : paramLength s = some n) :
    ∃ name rest, s = ':' :: name ++ rest ∧ IsName name ∧ n = (':' :: name).length := by
  obtain ⟨c, rest, rfl, hc, rfl⟩ := paramLength_some h
  refine ⟨c :: rest.takeWhile isNameChar, rest.dropWhile isNameChar, ?_, ⟨c, _, rfl, hc, List.all_takeWhile⟩, rfl⟩
  rw [List.cons_append, List.cons_append, List.takeWhile_append_dropWhile]

theorem paramLength_name {name rest : List Char} (hname : IsName name) (hrest : (Token.param name).EndsBefore rest) :
    paramLength (':' :: name ++ rest) = some (':' :: name).length := by
  obtain ⟨c, s, rfl, hc, hs⟩ := hname
  have hrun : (s ++ rest).takeWhile isNameChar = s := by
    rw [List.takeWhile_append_of_pos (List.all_eq_true.mp hs)]
    cases rest with
    | nil => simp
    | cons d rest => rw [List.takeWhile_cons_of_neg (by rw [show isNameChar d = false from hrest]; decide), List.append_nil]
  rw [List.cons_append, List.cons_append, paramLength_cons, if_pos (by rw [hc]; rfl), hrun]
  rfl
/-! How many matches a text has. -/

def hits : List Char → Nat
  | [] => 0
  | x :: s => (if (paramLength (x :: s)).isSome then 1 else 0) + hits s

theorem hits_cons (x : Char) (s : List Char) : hits (x :: s) = (if (paramLength (x :: s)).isSome then 1 else 0) + hits s := rfl

theorem hits_of_none {x : Char} {s : List Char} (h : paramLength (x :: s) = none) : hits (x :: s) = hits s := by
  rw [hits_cons, h, Option.isSome_none, if_neg Bool.false_ne_true, Nat.zero_add]

theorem hits_of_not_mem {s : List Char} (h : ':' ∉ s) : hits s = 0 := by
  induction s with
  | nil => rfl
  | cons x s ih =>
    rw [List.mem_cons, not_or] at h
    rw [hits_of_none (paramLength_of_ne (Ne.symm h.1) s), ih h.2]

theorem getLast?_tail {x : Char} {s : List Char} (h : (x :: s).getLast? ≠ some ':') : s.getLast? ≠ some ':' := by
  cases s with
  | nil =>
    intro hlast
    cases hlast
  | cons c s => rwa [List.getLast?_cons_cons] at h

/-- A match does not begin in one text and end in the next, unless a colon stands at the seam. -/
theorem paramLength_append {x : Char} {s : List Char} (h : (x :: s).getLast? ≠ some ':') (rest : List Char) :
    (paramLength (x :: (s ++ rest))).isSome = (paramLength (x :: s)).isSome := by
  cases s with
  | nil =>
    have hx : x ≠ ':' := fun hx => h (by rw [hx]; rfl)
    rw [paramLength_of_ne hx, paramLength_of_ne hx]
  | cons c s => rw [List.cons_append, paramLength_isSome, paramLength_isSome]

theorem hits_append {front : List Char} (h : front.getLast? ≠ some ':') (rest : List Char) :
    hits (front ++ rest) = hits front + hits rest := by
  induction front with
  | nil => rw [List.nil_append, hits, Nat.zero_add]
  | cons x s ih => rw [List.cons_append, hits_cons, hits_cons, paramLength_append h, ih (getLast?_tail h), Nat.add_assoc]

theorem hits_name {name : List Char} (h : IsName name) : hits (':' :: name) = 1 := by
  obtain ⟨c, s, rfl, hc, -⟩ := id h
  rw [hits, paramLength_isSome, hc, hits_of_not_mem (colon_not_mem h.all)]
  rfl

theorem getLast?_ne_of_not_mem {x : Char} {s : List Char} (h : x ∉ s) : s.getLast? ≠ some x :=
  fun hlast => h (List.mem_of_getLast? hlast)

theorem getLast?_name {name : List Char} (h : IsName name) : (':' :: name).getLast? ≠ some ':' := by
  obtain ⟨c, s, rfl, -, -⟩ := id h
  rw [List.getLast?_cons_cons]
  exact getLast?_ne_of_not_mem (colon_not_mem h.all)

theorem hits_eq_zero_iff {s : List Char} : hits s = 0 ↔ NamesNothing s := by
  induction s with
  | nil => exact ⟨fun _ c _ h => absurd h.length_le (by simp), fun _ => rfl⟩
  | cons x s ih =>
    have hhead : (paramLength (x :: s)).isSome = true ↔ ∃ c, isNameStart c = true ∧ [':', c] <+: x :: s := by
      cases s with
      | nil =>
        constructor
        · intro h
          cases h
        · rintro ⟨c, -, h⟩
          exact absurd h.length_le (by simp)
      | cons d s =>
        rw [paramLength_isSome, Bool.and_eq_true, beq_iff_eq]
        constructor
        · rintro ⟨rfl, hd⟩
          exact ⟨d, hd, s, rfl⟩
        · rintro ⟨c, hc, t, ht⟩
          cases ht
          exact ⟨rfl, hc⟩
    rw [hits, Nat.add_eq_zero_iff, ih]
    constructor
    · rintro ⟨hnone, hs⟩ c hc hin
      obtain hin | hin := List.infix_cons_iff.mp hin
      · rw [if_pos (hhead.mpr ⟨c, hc, hin⟩)] at hnone
        cases hnone
      · exact hs c hc hin
    · intro h
      refine ⟨if_neg fun hsome => ?_, fun c hc hin => h c hc (List.infix_cons_iff.mpr (.inr hin))⟩
      obtain ⟨c, hc, hin⟩ := hhead.mp hsome
      exact h c hc (List.infix_cons_iff.mpr (.inl hin))

/-! What the conversion answers. -/

section Conversion
variable {db : DbType} {params : Dict String V}

/-- A value for each match. -/
theorem length_values {s : List Char} {pieces : List (List Char × List V)}
    (h : (parts paramLength s).mapM (repl db params) = .ok pieces) : (pieces.flatMap Prod.snd).length = hits s := by
  induction s using parts_induction bounded_paramLength generalizing pieces with
  | nil =>
    cases h
    rfl
  | single x s hn ih =>
    rw [parts_of_none hn, List.mapM_cons] at h
    obtain ⟨piece, hpiece, h⟩ := bind_ok h
    obtain ⟨pieces, hpieces, h⟩ := bind_ok h
    cases hpiece
    cases h
    rw [hits_of_none hn, ← ih hpieces]
    rfl
  | found x s n hn ih =>
    rw [parts_of_some bounded_paramLength hn, List.mapM_cons] at h
    obtain ⟨piece, hpiece, h⟩ := bind_ok h
    obtain ⟨pieces, hpieces, h⟩ := bind_ok h
    cases h
    have hone : piece.2.length = 1 := by
      unfold repl at hpiece
      dsimp only at hpiece
      split at hpiece
      · cases hpiece
      · cases hpiece
        rfl
    obtain ⟨name, rest, hs, hname, rfl⟩ := paramLength_eq_some hn
    rw [List.flatMap_cons, List.length_append, hone, ih hpieces, hs, List.drop_left, hits_append (getLast?_name hname), hits_name hname]

/-- Text without a match stays. -/
theorem convert_front {front rest : List Char} (hzero : hits front = 0) (hlast : front.getLast? ≠ some ':')
    {pieces : List (List Char × List V)} (h : (parts paramLength rest).mapM (repl db params) = .ok pieces) :
    (parts paramLength (front ++ rest)).mapM (repl db params) = .ok (front.map (fun c => ([c], [])) ++ pieces) := by
  induction front with
  | nil => exact h
  | cons x s ih =>
    rw [hits_cons, Nat.add_eq_zero_iff] at hzero
    have hnone : paramLength (x :: (s ++ rest)) = none := by
      rw [← Option.not_isSome_iff_eq_none, paramLength_append hlast]
      intro hsome
      rw [if_pos hsome] at hzero
      cases hzero.1
    rw [List.cons_append, parts_of_none hnone, List.mapM_cons, ih hzero.2 (getLast?_tail hlast)]
    rfl

theorem convert_name {name rest : List Char} (hname : IsName name) (hrest : (Token.param name).EndsBefore rest) {v : V}
    (hv : params.get (String.ofList name) = some v) {pieces : List (List Char × List V)}
    (h : (parts paramLength rest).mapM (repl db params) = .ok pieces) :
    (parts paramLength (':' :: name ++ rest)).mapM (repl db params) = .ok (((mark db).toList, [v]) :: pieces) := by
  have hfound := paramLength_name hname hrest
  have hrepl : repl db params (.found (':' :: name)) = .ok ((mark db).toList, [v]) := by
    unfold repl
    dsimp only
    rw [show (':' :: name).drop 1 = name from rfl, hv]
  rw [List.cons_append] at hfound ⊢
  rw [parts_of_some bounded_paramLength hfound, ← List.cons_append, List.take_left, List.drop_left, List.mapM_cons, hrepl, h]
  rfl

end Conversion

/-! The tokens of a text. -/

theorem text_cons (t : Token) (tokens : List Token) : text (t :: tokens) = t.text ++ text tokens := List.flatMap_cons

theorem getLast?_quoted {q : Char} (h : q ≠ ':') (s body : List Char) : (s ++ quoted q body).getLast? ≠ some ':' := by
  rw [quoted, ← List.append_assoc, List.getLast?_concat]
  exact fun heq => h (Option.some.inj heq)

/-- No token ends with a colon. -/
theorem Token.Formed.getLast? {t : Token} (h : t.Formed) : t.text.getLast? ≠ some ':' := by
  cases t with
  | ordinary text =>
    intro hlast
    obtain ⟨front, hfront⟩ := List.getLast?_eq_some_iff.mp hlast
    obtain ⟨d, s, hs, -⟩ := h.2.2.2 front [] hfront
    cases hs
  | delimited body => exact getLast?_quoted (by decide) [] body
  | literal body => exact getLast?_quoted (by decide) [] body
  | cast type =>
    obtain ⟨c, type, rfl⟩ := List.exists_cons_of_ne_nil h.1
    rw [Token.text, List.getLast?_cons_cons, List.getLast?_cons_cons]
    refine getLast?_ne_of_not_mem fun hmem => ?_
    have := List.all_eq_true.mp h.2 _ hmem
    revert this
    decide
  | castQuoted body => exact getLast?_quoted (by decide) [':', ':'] body
  | param name => exact getLast?_name h

theorem Token.eq_param {t : Token} (h : t.isParam = true) : ∃ name, t = param name := by
  cases t with
  | param name => exact ⟨name, rfl⟩
  | _ => cases h

theorem Token.converted_of_not {t : Token} (h : t.isParam = false) (db : DbType) : t.converted db = t.text := by
  cases t with
  | param name => cases h
  | _ => rfl

theorem names_cons_of_not {t : Token} (h : t.isParam = false) (tokens : List Token) : names (t :: tokens) = names tokens := by
  cases t with
  | param name => cases h
  | _ => rfl

theorem names_cons_param (name : List Char) (tokens : List Token) :
    names (.param name :: tokens) = String.ofList name :: names tokens := rfl

/-- Each named parameter of the text is one match. -/
theorem hits_text {tokens : List Token} (h : WellFormed tokens) :
    hits (text tokens) = (names tokens).length + ((tokens.filter fun t => !t.isParam).map fun t => hits t.text).sum := by
  induction tokens with
  | nil => rfl
  | cons t tokens ih =>
    obtain ⟨hformed, -, hrest⟩ := h
    rw [text_cons, hits_append hformed.getLast?, ih hrest]
    cases hparam : t.isParam with
    | true =>
      obtain ⟨name, rfl⟩ := Token.eq_param hparam
      rw [Token.text, hits_name hformed, names_cons_param, List.length_cons, List.filter_cons_of_neg (by rw [hparam]; decide)]
      omega
    | false =>
      rw [names_cons_of_not hparam, List.filter_cons_of_pos (by rw [hparam]; rfl), List.map_cons, List.sum_cons]
      omega

/-- The tokens are converted where none but the parameters has a match. -/
theorem convert_tokens (db : DbType) {params : Dict String V} {tokens : List Token} (h : WellFormed tokens)
    (hdefined : ∀ name ∈ names tokens, params.get name ≠ none) (hzero : ∀ t ∈ tokens, t.isParam = false → hits t.text = 0) :
    ∃ pieces, (parts paramLength (text tokens)).mapM (repl db params) = .ok pieces ∧
      pieces.flatMap Prod.fst = tokens.flatMap (Token.converted db) ∧
      pieces.flatMap Prod.snd = (names tokens).filterMap params.get := by
  induction tokens with
  | nil => exact ⟨[], rfl, rfl, rfl⟩
  | cons t tokens ih =>
    obtain ⟨hformed, hends, hrest⟩ := h
    have hsub : ∀ name ∈ names tokens, params.get name ≠ none := by
      refine fun name hname => hdefined name ?_
      rw [names, List.mem_filterMap] at hname ⊢
      obtain ⟨t', ht', hname⟩ := hname
      exact ⟨t', List.mem_cons_of_mem t ht', hname⟩
    obtain ⟨pieces, hpieces, hfst, hsnd⟩ := ih hrest hsub fun t' ht' => hzero t' (List.mem_cons_of_mem t ht')
    rw [text_cons]
    cases hparam : t.isParam with
    | true =>
      obtain ⟨name, rfl⟩ := Token.eq_param hparam
      obtain ⟨v, hv⟩ := Option.ne_none_iff_exists'.mp (hdefined (String.ofList name) List.mem_cons_self)
      refine ⟨_, convert_name hformed hends hv hpieces, ?_, ?_⟩
      · rw [List.flatMap_cons, List.flatMap_cons, hfst]
        rfl
      · rw [List.flatMap_cons, hsnd, names_cons_param, List.filterMap_cons, hv]
        rfl
    | false =>
      refine ⟨_, convert_front (hzero t List.mem_cons_self hparam) hformed.getLast? hpieces, ?_, ?_⟩
      · rw [List.flatMap_append, List.flatMap_map, hfst, List.flatMap_cons, t.converted_of_not hparam]
        exact congrArg (· ++ _) (List.flatMap_singleton' t.text)
      · rw [List.flatMap_append, List.flatMap_map, hsnd, names_cons_of_not hparam]
        exact congrArg (· ++ _) (List.flatMap_eq_nil_iff.mpr fun c _ => rfl)

theorem length_filterMap_get {params : Dict String V} {keys : List String} (h : ∀ key ∈ keys, params.get key ≠ none) :
    (keys.filterMap params.get).length = keys.length := by
  rw [List.length_filterMap_eq_countP, List.countP_eq_length]
  exact fun key hkey => Option.isSome_iff_ne_none.mpr (h key hkey)

theorem names_eq_nil {params : Dict String V} {tokens : List Token} (h : params.entries = [])
    (hdefined : ∀ name ∈ names tokens, params.get name ≠ none) : names tokens = [] := by
  refine List.eq_nil_iff_forall_not_mem.mpr fun name hname => hdefined name hname ?_
  rw [Dict.get, h]
  rfl

theorem converted_of_names_nil {tokens : List Token} (h : names tokens = []) (db : DbType) :
    tokens.flatMap (Token.converted db) = text tokens := by
  refine List.flatMap_congr fun t ht => t.converted_of_not ?_ db
  by_contra hparam
  obtain ⟨name, rfl⟩ := Token.eq_param (Bool.eq_true_of_not_eq_false hparam)
  exact List.not_mem_nil (h ▸ List.mem_filterMap.mpr ⟨_, ht, rfl⟩ : String.ofList name ∈ [])

/-- The named parameters, and nothing else, are converted exactly if no other token reads like one. -/
theorem converts_exactly_iff (db : DbType) (params : Dict String V) (tokens : List Token) (hformed : WellFormed tokens)
    (hdefined : ∀ name ∈ names tokens, params.get name ≠ none) :
    convertNamedParams db (String.ofList (text tokens)) params =
        .ok (String.ofList (tokens.flatMap (Token.converted db)), (names tokens).filterMap params.get) ↔
      params.entries = [] ∨ ∀ t ∈ tokens, t.isParam = false → NamesNothing t.text := by
  unfold convertNamedParams
  by_cases hempty : params.entries = []
  · rw [if_pos (by rw [hempty]; rfl), names_eq_nil hempty hdefined, converted_of_names_nil (names_eq_nil hempty hdefined)]
    exact iff_of_true rfl (.inl hempty)
  · rw [if_neg (by rwa [List.isEmpty_iff]), String.toList_ofList]
    constructor
    · intro h
      obtain ⟨pieces, hpieces, h⟩ := bind_ok h
      refine .inr fun t ht hparam => hits_eq_zero_iff.mp ?_
      have hvalues : pieces.flatMap Prod.snd = (names tokens).filterMap params.get := (Prod.mk.inj (Except.ok.inj h)).2
      have hcount := length_values hpieces
      rw [hvalues, length_filterMap_get hdefined, hits_text hformed, Nat.left_eq_add, List.sum_eq_zero_iff_forall_eq_nat] at hcount
      exact hcount _ (List.mem_map_of_mem (List.mem_filter.mpr ⟨ht, by rw [hparam]; rfl⟩))
    · rintro (h | h)
      · exact absurd h hempty
      · obtain ⟨pieces, hpieces, hfst, hsnd⟩ := convert_tokens db hformed hdefined fun t ht hparam =>
          hits_eq_zero_iff.mpr (h t ht hparam)
        rw [hpieces, ← hfst, ← hsnd]
        rfl

theorem formed_ordinary {text : List Char} (hne : text ≠ []) (h : ∀ c ∈ ['\'', '"', ':'], c ∉ text) : (Token.ordinary text).Formed := by
  refine ⟨hne, h _ (by decide), h _ (by decide), fun front rest htext => absurd ?_ (h ':' (by decide))⟩
  rw [htext]
  exact List.mem_append_right front List.mem_cons_self

/-- `d = :day` with a last token behind it. -/
def dayBefore (t : Token) : List Token := [.ordinary ['d', ' ', '=', ' '], .param ['d', 'a', 'y'], t]

def seven : Dict String Nat := Dict.empty.set "day" 7

theorem dayBefore_wellFormed {t : Token} (h : t.Formed) {c : Char} {s : List Char} (ht : t.text = c :: s)
    (hc : isNameChar c = false) : WellFormed (dayBefore t) := by
  refine ⟨formed_ordinary (by decide) (by decide), trivial, ⟨'d', ['a', 'y'], rfl, rfl, rfl⟩, ?_, h, ?_, trivial⟩
  · rw [text_cons, ht]
    exact hc
  · cases t <;> trivial

theorem dayBefore_defined {t : Token} (h : t.isParam = false) : ∀ name ∈ names (dayBefore t), seven.get name ≠ none := by
  intro name hname
  rw [dayBefore, names_cons_of_not rfl, names_cons_param, names_cons_of_not h] at hname
  rw [List.mem_singleton.mp hname]
  decide

/-- The colon of a time of day is left alone. -/
theorem converts_exactly_time :
    convertNamedParams .postgresql (String.ofList (text (dayBefore (.literal ['9', ':', '5'])))) seven =
      .ok (String.ofList ((dayBefore (.literal ['9', ':', '5'])).flatMap (Token.converted .postgresql)),
        (names (dayBefore (.literal ['9', ':', '5']))).filterMap seven.get) := by
  refine (converts_exactly_iff _ _ _ (dayBefore_wellFormed (t := .literal ['9', ':', '5']) trivial rfl (by decide))
    (dayBefore_defined rfl)).mpr (.inr ?_)
  intro t ht hparam
  refine hits_eq_zero_iff.mp ?_
  revert t
  decide

/-- The type of a cast is taken for a parameter, which is then missing. -/
theorem cast_not_converted :
    ¬ ∀ (db : DbType) (params : Dict String Nat) (tokens : List Token), WellFormed tokens →
      (∀ name ∈ names tokens, params.get name ≠ none) →
      convertNamedParams db (String.ofList (text tokens)) params =
        .ok (String.ofList (tokens.flatMap (Token.converted db)), (names tokens).filterMap params.get) := by
  intro h
  have hok := h .postgresql seven (dayBefore (.cast ['d', 'a', 't', 'e']))
    (dayBefore_wellFormed ⟨by decide, by decide⟩ rfl (by decide)) (dayBefore_defined rfl)
  have herror : convertNamedParams .postgresql (String.ofList (text (dayBefore (.cast ['d', 'a', 't', 'e'])))) seven =
      .error (missing "date") := by
    rw [convertNamedParams, if_neg (by decide), String.toList_ofList]
    rfl
  rw [herror] at hok
  cases hok

end XgenSdk.NamedParams
