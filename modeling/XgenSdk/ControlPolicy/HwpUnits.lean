import XgenSdk.Py.Utf16
import XgenSdk.Lib.Splice

/-! The text of a paragraph, as units: control characters of one or eight
words among ordinary characters. -/
namespace XgenSdk.Hwp
open XgenSdk.Py.Utf16 XgenSdk.Splice

inductive HwpError where
  | unsupported (reason : String)
  | structError
  deriving DecidableEq, Repr

/-- Control characters of eight words; the others below 32 have one. -/
def wideControls : List Nat := [1, 2, 3, 4, 5, 6, 7, 8, 9, 11, 12, 14, 15, 16, 17, 18, 19, 20, 21, 22, 23]

/-- What the search sees in place of a control character. -/
def visibleControl (code : Nat) : Str :=
  if code = 9 then [9] else if code = 10 || code = 13 then [10] else if code = 24 then [45]
  else if code = 30 || code = 31 then [32] else []

structure TextUnit where
  control : Bool
  raw : Bytes
  text : Str
  deriving DecidableEq, Repr

/-- Bytes of a control character. -/
def controlWidth (code : Nat) : Nat := if wideControls.contains code then 16 else 2

/-- The next two bytes are a low surrogate. -/
def nextLow : Bytes → Bool
  | lo :: hi :: _ => isLow (word lo hi)
  | _ => false

/-- The unit that starts with a word. -/
def firstUnit (lo hi : UInt8) (rest : Bytes) : Except HwpError TextUnit :=
  let code := word lo hi
  if code.val < 32 then
    if rest.length + 2 < controlWidth code.val then .error (.unsupported "문단 글의 제어 문자가 잘림")
    else .ok ⟨true, (lo :: hi :: rest).take (controlWidth code.val), visibleControl code.val⟩
  else
    let width := if isHigh code && nextLow rest then 4 else 2
    .ok ⟨false, (lo :: hi :: rest).take width, decode (wordsOf ((lo :: hi :: rest).take width))⟩

/-- The loop over an even number of bytes. -/
def unitsFrom : Bytes → Except HwpError (List TextUnit)
  | lo :: hi :: rest =>
    match firstUnit lo hi rest with
    | .error e => .error e
    | .ok u => (unitsFrom (rest.drop (u.raw.length - 2))).map fun units => u :: units
  | _ => .ok []
termination_by bytes => bytes.length
decreasing_by simp only [List.length_cons, List.length_drop]; omega

/-- `_units`. -/
def parseUnits (payload : Bytes) : Except HwpError (List TextUnit) :=
  if payload.length % 2 ≠ 0 then .error (.unsupported "문단 글 길이가 홀수(깨진 문서)") else unitsFrom payload

/-- The unit each character comes from. -/
def ownersFrom (index : Nat) : List TextUnit → List Nat
  | [] => []
  | u :: units => u.text.map (fun _ => index) ++ ownersFrom (index + 1) units

def joinedText (units : List TextUnit) : Str := units.flatMap TextUnit.text

/-- `_paragraph_text`. -/
def paragraphText (units : List TextUnit) : Str × List Nat := (joinedText units, ownersFrom 0 units)

/-! What bytes hold: control characters, and words of ordinary ones. -/

def controls (units : List TextUnit) : List Bytes := (units.filter TextUnit.control).map TextUnit.raw

/-- The ordinary 16-bit words of units. -/
def ordinary (units : List TextUnit) : List Word :=
  (units.filter fun u => !u.control).flatMap fun u => wordsOf u.raw

/-- A control character in full. -/
def IsControl (raw : Bytes) : Prop :=
  ∃ lo hi rest, raw = lo :: hi :: rest ∧ (word lo hi).val < 32 ∧ raw.length = controlWidth (word lo hi).val

inductive Holds : Bytes → List Bytes → List Word → Prop
  | nil : Holds [] [] []
  | control {raw bytes cs ws} : IsControl raw → Holds bytes cs ws → Holds (raw ++ bytes) (raw :: cs) ws
  | ordinary {lo hi bytes cs ws} : 32 ≤ (word lo hi).val → Holds bytes cs ws →
      Holds (lo :: hi :: bytes) cs (word lo hi :: ws)

theorem Holds.append {a b : Bytes} {cs ds : List Bytes} {ws vs : List Word} (ha : Holds a cs ws) (hb : Holds b ds vs) :
    Holds (a ++ b) (cs ++ ds) (ws ++ vs) := by
  induction ha with
  | nil => exact hb
  | control hraw _ ih =>
    rw [List.append_assoc]
    exact .control hraw ih
  | ordinary hw _ ih => exact .ordinary hw ih

theorem controlWidth_even (code : Nat) : controlWidth code % 2 = 0 := by
  unfold controlWidth
  split <;> rfl

theorem controlWidth_ge (code : Nat) : 2 ≤ controlWidth code := by
  unfold controlWidth
  split <;> omega

theorem IsControl.even {raw : Bytes} (h : IsControl raw) : raw.length % 2 = 0 := by
  obtain ⟨lo, hi, rest, -, -, hlen⟩ := h
  rw [hlen]
  exact controlWidth_even _

theorem IsControl.pos {raw : Bytes} (h : IsControl raw) : 2 ≤ raw.length := by
  obtain ⟨lo, hi, rest, -, -, hlen⟩ := h
  rw [hlen]
  exact controlWidth_ge _

theorem Holds.even {bytes : Bytes} {cs : List Bytes} {ws : List Word} (h : Holds bytes cs ws) :
    bytes.length % 2 = 0 := by
  induction h with
  | nil => rfl
  | control hraw _ ih =>
    have heven := hraw.even
    rw [List.length_append]
    omega
  | ordinary _ _ ih =>
    simp only [List.length_cons]
    omega

/-- Words of ordinary characters only. -/
theorem Holds.words {ws : List Word} (h : ∀ w ∈ ws, 32 ≤ w.val) : Holds (bytesOf ws) [] ws := by
  induction ws with
  | nil => exact .nil
  | cons w ws ih =>
    have hw : 32 ≤ w.val := h w List.mem_cons_self
    have hrest := ih fun v hv => h v (List.mem_cons_of_mem _ hv)
    rw [bytesOf_cons, wordBytes]
    have hcons : Holds (UInt8.ofNat (w.val % 256) :: UInt8.ofNat (w.val / 256) :: bytesOf ws) []
        (word (UInt8.ofNat (w.val % 256)) (UInt8.ofNat (w.val / 256)) :: ws) :=
      .ordinary (by rw [word_wordBytes]; exact hw) hrest
    rw [word_wordBytes] at hcons
    exact hcons

/-! Reading the units of bytes. -/

/-- A unit the parser makes. -/
structure TextUnit.Ok (u : TextUnit) : Prop where
  holds : Holds u.raw (if u.control then [u.raw] else []) (if u.control then [] else wordsOf u.raw)
  pos : 2 ≤ u.raw.length
  visible : u.text.length ≤ 1
  ordinary : u.control = false → u.text.length = 1

theorem TextUnit.Ok.even {u : TextUnit} (h : u.Ok) : u.raw.length % 2 = 0 := h.holds.even

theorem visibleControl_length (code : Nat) : (visibleControl code).length ≤ 1 := by
  unfold visibleControl
  repeat' split
  all_goals simp

/-- The bytes of the first unit are the first bytes. -/
theorem firstUnit_ok {lo hi : UInt8} {rest : Bytes} {u : TextUnit} (h : firstUnit lo hi rest = .ok u) :
    u.Ok ∧ u.raw ++ rest.drop (u.raw.length - 2) = lo :: hi :: rest := by
  unfold firstUnit at h
  dsimp only at h
  by_cases hcode : (word lo hi).val < 32
  · rw [if_pos hcode] at h
    by_cases hshort : rest.length + 2 < controlWidth (word lo hi).val
    · rw [if_pos hshort] at h
      cases h
    · rw [if_neg hshort] at h
      obtain ⟨more, hmore⟩ : ∃ more, controlWidth (word lo hi).val = more + 2 :=
        ⟨_, (Nat.sub_add_cancel (controlWidth_ge _)).symm⟩
      have hlength : (lo :: hi :: rest.take more).length = controlWidth (word lo hi).val := by
        simp only [List.length_cons, List.length_take]
        omega
      rw [hmore, List.take_succ_cons, List.take_succ_cons] at h
      rw [← Except.ok.inj h]
      refine ⟨⟨?_, ?_, visibleControl_length _, fun hfalse => by cases hfalse⟩, ?_⟩
      · have hholds := Holds.control ⟨lo, hi, rest.take more, rfl, hcode, hlength⟩ .nil
        simpa using hholds
      · change 2 ≤ (lo :: hi :: rest.take more).length
        simp only [List.length_cons]
        omega
      · change lo :: hi :: rest.take more ++ rest.drop ((lo :: hi :: rest.take more).length - 2) = _
        rw [hlength, hmore, Nat.add_sub_cancel, List.cons_append, List.cons_append, List.take_append_drop]
  · rw [if_neg hcode] at h
    have hsingle : (TextUnit.mk false [lo, hi] (decode [word lo hi])).Ok :=
      ⟨.ordinary (by omega) .nil, Nat.le_refl 2, Nat.le_refl 1, fun _ => rfl⟩
    cases rest with
    | nil =>
      rw [← Except.ok.inj h]
      simp only [nextLow, Bool.and_false]
      exact ⟨hsingle, rfl⟩
    | cons lo' rest =>
      cases rest with
      | nil =>
        rw [← Except.ok.inj h]
        simp only [nextLow, Bool.and_false]
        exact ⟨hsingle, rfl⟩
      | cons hi' rest =>
        by_cases hpair : (isHigh (word lo hi) && isLow (word lo' hi')) = true
        · rw [nextLow, if_pos hpair] at h
          have htext : decode [word lo hi, word lo' hi'] = [paired (word lo hi) (word lo' hi')] := by
            rw [decode, if_pos hpair]
            rfl
          simp only [isHigh, isLow, Bool.and_eq_true, decide_eq_true_eq] at hpair
          rw [← Except.ok.inj h]
          refine ⟨⟨?_, ?_, ?_, fun _ => ?_⟩, rfl⟩
          · exact .ordinary (by omega) (.ordinary (by omega) .nil)
          · change 2 ≤ 4
            omega
          · change (decode [word lo hi, word lo' hi']).length ≤ 1
            rw [htext]
            exact Nat.le_refl 1
          · change (decode [word lo hi, word lo' hi']).length = 1
            rw [htext]
            rfl
        · rw [nextLow, if_neg hpair] at h
          rw [← Except.ok.inj h]
          exact ⟨hsingle, rfl⟩

theorem map_ok {α β : Type} {f : α → β} {x : Except HwpError α} {b : β} (h : x.map f = .ok b) :
    ∃ a, x = .ok a ∧ b = f a := by
  cases x with
  | error e => cases h
  | ok a => exact ⟨a, rfl, (Except.ok.inj h).symm⟩

/-- Units that are bytes, cut up. -/
structure Cut (bytes : Bytes) (units : List TextUnit) : Prop where
  joined : bytes = units.flatMap TextUnit.raw
  ok : ∀ u ∈ units, u.Ok

theorem unitsFrom_ok {bytes : Bytes} {units : List TextUnit} (h : unitsFrom bytes = .ok units)
    (heven : bytes.length % 2 = 0) : Cut bytes units := by
  induction bytes using unitsFrom.induct generalizing units with
  | case1 lo hi rest e hfirst =>
    rw [unitsFrom, hfirst] at h
    cases h
  | case2 lo hi rest u hfirst ih =>
    rw [unitsFrom, hfirst] at h
    obtain ⟨after, hafter, rfl⟩ := map_ok h
    obtain ⟨hu, hsplit⟩ := firstUnit_ok hfirst
    have hu2 := hu.pos
    have hueven := hu.even
    have hcut := ih hafter (by
      simp only [List.length_cons, List.length_drop] at heven ⊢
      omega)
    refine ⟨by rw [List.flatMap_cons, ← hcut.joined, hsplit], fun v hv => ?_⟩
    obtain rfl | hv := List.mem_cons.mp hv
    · exact hu
    · exact hcut.ok v hv
  | case3 bytes hne =>
    have hnil : bytes = [] := by
      cases bytes with
      | nil => rfl
      | cons lo rest =>
        cases rest with
        | nil => simp at heven
        | cons hi rest => exact absurd rfl (hne lo hi rest)
    rw [hnil, unitsFrom] at h
    · rw [← Except.ok.inj h, hnil]
      exact ⟨rfl, fun u hu => by cases hu⟩
    · intro lo hi rest hcons
      cases hcons

theorem parseUnits_ok {payload : Bytes} {units : List TextUnit} (h : parseUnits payload = .ok units) :
    Cut payload units := by
  unfold parseUnits at h
  split at h
  · cases h
  · exact unitsFrom_ok h (by omega)

/-! What bytes hold is what is read from them. -/

theorem IsControl.first {raw : Bytes} (h : IsControl raw) (bytes : Bytes) :
    ∃ lo hi rest text, raw ++ bytes = lo :: hi :: rest ∧ firstUnit lo hi rest = .ok ⟨true, raw, text⟩ ∧
      rest.drop (raw.length - 2) = bytes := by
  obtain ⟨lo, hi, rest, rfl, hcode, hlen⟩ := h
  have hrest : rest.length + 2 = controlWidth (word lo hi).val := by
    simp only [List.length_cons] at hlen
    omega
  have hlong : ¬ (rest ++ bytes).length + 2 < controlWidth (word lo hi).val := by
    rw [List.length_append]
    omega
  refine ⟨lo, hi, rest ++ bytes, visibleControl (word lo hi).val, rfl, ?_, ?_⟩
  · unfold firstUnit
    dsimp only
    rw [if_pos hcode, if_neg hlong, ← hrest, List.take_succ_cons, List.take_succ_cons, List.take_left]
  · change (rest ++ bytes).drop rest.length = bytes
    exact List.drop_left

theorem Holds.second {lo hi : UInt8} {rest : Bytes} {cs : List Bytes} {ws : List Word} (h : Holds (lo :: hi :: rest) cs ws)
    (hw : 32 ≤ (word lo hi).val) : ∃ vs, ws = word lo hi :: vs ∧ Holds rest cs vs := by
  generalize hbytes : lo :: hi :: rest = bytes at h
  cases h with
  | nil => cases hbytes
  | control hraw _ =>
    obtain ⟨lo', hi', more, rfl, hcode, -⟩ := hraw
    rw [List.cons_append, List.cons_append] at hbytes
    injection hbytes with hlo hbytes
    injection hbytes with hhi _
    rw [← hlo, ← hhi] at hcode
    omega
  | ordinary _ hrest =>
    injection hbytes with hlo hbytes
    injection hbytes with hhi hbytes
    rw [hlo, hhi, hbytes]
    exact ⟨_, rfl, hrest⟩

theorem firstUnit_pair {lo hi lo' hi' : UInt8} {rest : Bytes} (hw : 32 ≤ (word lo hi).val)
    (hpair : (isHigh (word lo hi) && isLow (word lo' hi')) = true) :
    ∃ text, firstUnit lo hi (lo' :: hi' :: rest) = .ok ⟨false, [lo, hi, lo', hi'], text⟩ := by
  unfold firstUnit
  dsimp only
  rw [if_neg (by omega), nextLow, if_pos hpair]
  exact ⟨_, rfl⟩

theorem firstUnit_single {lo hi : UInt8} {rest : Bytes} (hw : 32 ≤ (word lo hi).val)
    (halone : ¬ (isHigh (word lo hi) && nextLow rest) = true) :
    ∃ text, firstUnit lo hi rest = .ok ⟨false, [lo, hi], text⟩ := by
  unfold firstUnit
  dsimp only
  rw [if_neg (by omega), if_neg halone]
  exact ⟨_, rfl⟩

theorem Holds.parse {bytes : Bytes} {cs : List Bytes} {ws : List Word} (h : Holds bytes cs ws) :
    ∃ units, unitsFrom bytes = .ok units ∧ controls units = cs ∧ Hwp.ordinary units = ws := by
  induction hlen : bytes.length using Nat.strongRecOn generalizing bytes cs ws with
  | _ n ih =>
    cases h with
    | nil => exact ⟨[], by rw [unitsFrom]; simp, rfl, rfl⟩
    | @control raw bytes cs ws hraw hrest =>
      obtain ⟨lo, hi, rest, text, hsplit, hfirst, hdrop⟩ := hraw.first bytes
      have hpos := hraw.pos
      obtain ⟨units, hunits, hcs, hws⟩ := ih bytes.length (by rw [← hlen, List.length_append]; omega) hrest rfl
      refine ⟨⟨true, raw, text⟩ :: units, ?_, ?_, ?_⟩
      · rw [hsplit, unitsFrom, hfirst]
        dsimp only
        rw [hdrop, hunits]
        rfl
      · rw [← hcs]
        rfl
      · rw [← hws]
        rfl
    | @ordinary lo hi bytes cs ws hw hrest =>
      by_cases hpair : (isHigh (word lo hi) && nextLow bytes) = true
      · -- the unit takes the next word with it
        obtain ⟨lo', hi', more, rfl⟩ : ∃ lo' hi' more, bytes = lo' :: hi' :: more := by
          rw [Bool.and_eq_true] at hpair
          cases bytes with
          | nil => simp [nextLow] at hpair
          | cons lo' rest =>
            cases rest with
            | nil => simp [nextLow] at hpair
            | cons hi' more => exact ⟨lo', hi', more, rfl⟩
        rw [nextLow] at hpair
        have hlow : 32 ≤ (word lo' hi').val := by
          simp only [isHigh, isLow, Bool.and_eq_true, decide_eq_true_eq] at hpair
          omega
        obtain ⟨vs, rfl, hmore⟩ := hrest.second hlow
        obtain ⟨text, hfirst⟩ := @firstUnit_pair lo hi lo' hi' more hw hpair
        obtain ⟨units, hunits, hcs, hws⟩ := ih more.length (by rw [← hlen]; simp only [List.length_cons]; omega) hmore rfl
        refine ⟨⟨false, [lo, hi, lo', hi'], text⟩ :: units, ?_, ?_, ?_⟩
        · rw [unitsFrom, hfirst]
          change (unitsFrom more).map _ = _
          rw [hunits]
          rfl
        · rw [← hcs]
          rfl
        · rw [← hws]
          rfl
      · obtain ⟨text, hfirst⟩ := firstUnit_single hw hpair
        obtain ⟨units, hunits, hcs, hws⟩ := ih bytes.length (by rw [← hlen]; simp only [List.length_cons]; omega) hrest rfl
        refine ⟨⟨false, [lo, hi], text⟩ :: units, ?_, ?_, ?_⟩
        · rw [unitsFrom, hfirst]
          change (unitsFrom bytes).map _ = _
          rw [hunits]
          rfl
        · rw [← hcs]
          rfl
        · rw [← hws]
          rfl

/-! Writing masks into a paragraph. Control characters inside a masked span
stay, spread over its mask, and every old position gets a new one. -/

/-- `round(a / b)`. The quotient is a float, so only what rounding always keeps is fixed. -/
structure Rounding where
  ratio : Nat → Nat → Nat
  zero : ∀ b, ratio 0 b = 0
  mono : ∀ {a c : Nat} (b : Nat), a ≤ c → ratio a b ≤ ratio c b

/-- The nearest whole number, the even one of two. -/
def halfEven (a b : Nat) : Nat :=
  if 2 * (a % b) < b then a / b
  else if b < 2 * (a % b) then a / b + 1
  else a / b + (a / b) % 2

theorem halfEven_mono {a c : Nat} (b : Nat) (h : a ≤ c) : halfEven a b ≤ halfEven c b := by
  have hdiv : a / b ≤ c / b := Nat.div_le_div_right h
  have ha := Nat.div_add_mod a b
  have hc := Nat.div_add_mod c b
  unfold halfEven
  by_cases hsame : a / b = c / b
  · rw [hsame] at ha ⊢
    have hmod : a % b ≤ c % b := by omega
    split <;> split <;> (try split) <;> (try split) <;> omega
  · split <;> split <;> (try split) <;> (try split) <;> omega

/-- Rounding of exact quotients. -/
def Rounding.exact : Rounding where
  ratio := halfEven
  zero b := by simp [halfEven]
  mono b h := halfEven_mono b h

/-- `_safe_mask`: no control character comes from a mask. -/
def safeMask (text : Str) : Str := text.map fun c => if c.val < 32 then 32 else c

/-- What each unit starts at, where sizes add up. -/
def startsFrom (size : TextUnit → Nat) (total : Nat) : List TextUnit → List Nat
  | [] => []
  | u :: units => total :: startsFrom size (total + size u) units

def wordCount (u : TextUnit) : Nat := u.raw.length / 2

def unitAt (units : List TextUnit) (k : Nat) : TextUnit := units.getD k ⟨true, [], []⟩

/-- The payload as far as it is written; `removedAt` has the latest entry first. -/
structure Draft where
  out : Bytes
  written : Nat
  newStart : List (Option Nat)
  removedAt : List (Nat × Nat)

/-- `emit`. -/
def Draft.emit (d : Draft) (index : Option Nat) (raw : Bytes) : Draft :=
  { d with
    out := d.out ++ raw
    written := d.written + raw.length / 2
    newStart := match index with
      | some k => d.newStart.set k (some d.written)
      | none => d.newStart }

/-- Where in a mask of `size` characters a control character stands that comes `offset` characters into
a span of `length`. -/
def controlPlace (R : Rounding) (visible : Bool) (offset length size : Nat) : Nat :=
  if visible then
    if length - 1 ≤ offset then size else if offset = 0 then 0 else R.ratio (offset * size) length
  else
    if offset = 0 then 0 else if length ≤ offset then size else R.ratio (offset * size) length

/-- One unit of a masked span, with the number of mask characters taken so far. -/
def stepUnit (R : Rounding) (units : List TextUnit) (charsBefore : List Nat) (span : Span CodePoint)
    (replacement : Str) (state : Draft × Nat) (k : Nat) : Draft × Nat :=
  let length := span.hi - span.lo
  let size := replacement.length
  let offset := charsBefore.getD k 0 - span.lo
  let u := unitAt units k
  if u.control then
    let place := max (controlPlace R (!u.text.isEmpty) offset length size) state.2
    let filled := if state.2 < place then state.1.emit none (encoded (slice replacement state.2 place)) else state.1
    (filled.emit (some k) u.raw, place)
  else
    let place := max state.2 (min size (R.ratio (offset * size) length))
    ({ state.1 with
      removedAt := (k, state.1.written + (encoded (slice replacement state.2 place)).length / 2) :: state.1.removedAt },
      state.2)

/-- `for k in range(a, b): emit(k, units[k].raw)`. -/
def keepUnits (units : List TextUnit) (a b : Nat) (d : Draft) : Draft :=
  (List.range' a (b - a)).foldl (fun d k => d.emit (some k) (unitAt units k).raw) d

/-- One masked span, from the unit the spans before it end at. -/
def rewriteSpan (R : Rounding) (units : List TextUnit) (owner charsBefore : List Nat) (state : Draft × Nat)
    (span : Span CodePoint) : Draft × Nat :=
  let first := owner.getD span.lo 0
  let last := owner.getD (span.hi - 1) 0
  let replacement := safeMask span.body
  let masked := (List.range' first (last + 1 - first)).foldl (stepUnit R units charsBefore span replacement)
    (keepUnits units state.2 first state.1, 0)
  let filled := if masked.2 < replacement.length then masked.1.emit none (encoded (replacement.drop masked.2))
    else masked.1
  (filled, last + 1)

/-- A `_Rewrite`. -/
structure Rewrite where
  payload : Bytes
  newTotal : Nat
  oldTotal : Nat
  oldStarts : List Nat
  newStart : List (Option Nat)
  removedAt : List (Nat × Nat)

/-- `_Rewrite(units, owner, spans)`. -/
def rewrite (R : Rounding) (units : List TextUnit) (owner : List Nat) (spans : List (Span CodePoint)) : Rewrite :=
  let charsBefore := startsFrom (fun u => u.text.length) 0 units
  let state := spans.foldl (rewriteSpan R units owner charsBefore)
    (⟨[], 0, List.replicate units.length none, []⟩, 0)
  let d := keepUnits units state.2 units.length state.1
  { payload := d.out
    newTotal := d.written
    oldTotal := (units.map wordCount).sum
    oldStarts := startsFrom wordCount 0 units
    newStart := d.newStart
    removedAt := d.removedAt }

/-- `bisect.bisect_right` on an ascending list. -/
def bisectRight (starts : List Nat) (old : Nat) : Nat := (starts.takeWhile fun s => s ≤ old).length

/-- `position`. -/
def Rewrite.position (r : Rewrite) (old : Nat) : Nat :=
  if r.oldTotal ≤ old then r.newTotal + (old - r.oldTotal)
  else
    let k := bisectRight r.oldStarts old - 1
    match r.newStart.getD k none with
    | none => (r.removedAt.lookup k).getD 0
    | some start => start + (old - r.oldStarts.getD k 0)

end XgenSdk.Hwp
