import XgenSdk.AgentShare.Grants
import XgenSdk.Py.Numbers
import XgenSdk.Lib.Levels

/-! The columns that are written, read back. -/
namespace XgenSdk.AgentShare
open XgenSdk.Py XgenSdk.Checks
variable {py : Interpreter} {shares : Shares}

/-- The role that a key of `share_permissions` names. -/
def roleKey (key : String) : Option String := if isRole (strip key) then some (strip key) else none

/-- The user that a key of `share_users` names; `int()` takes it or the key is left out. -/
def userKey (key : String) : Option String :=
  if isDigits (strip key) then (intOfString key).map toString else none

theorem normalize_text (p : Permission) : normalizePermission py (.str p.text) = .ok (some p) := by
  cases p <;> rfl

/-! Roles. -/

theorem addRole_stored (out : Shares) (e : String × Permission) :
    addRole py out (e.1, .str e.2.text) = .ok ((roleKey e.1).elim out fun k => out.set k e.2) := by
  rw [addRole, normalize_text, ok_bind, roleKey]
  cases isRole (strip e.1) <;> rfl

theorem foldlM_addRole (entries : List (String × Permission)) (out : Shares) :
    (stored entries).foldlM (addRole py) out = .ok (Dict.collect roleKey entries out) := by
  induction entries generalizing out with
  | nil => rfl
  | cons e entries ih =>
    change (addRole py out (e.1, .str e.2.text) >>= fun out => (stored entries).foldlM (addRole py) out) = _
    rw [addRole_stored, ok_bind, ih]
    rfl

theorem parseRoleGrants_stored (entries : List (String × Permission)) :
    parseRoleGrants py (.obj (stored entries)) (.arr (entries.map fun e => .str e.1)) =
      .ok (Dict.collect roleKey entries Dict.empty) := by
  cases entries with
  | nil => rfl
  | cons e entries =>
    rw [parseRoleGrants, asMapping, ok_bind]
    exact foldlM_addRole (e :: entries) Dict.empty

/-! Users. -/

theorem intOfString_strip (s : String) : intOfString (strip s) = intOfString s := by
  rw [intOfString, intOfString, strip, String.toList_ofList, stripChars_stripChars]

theorem digitCount_strip_le (s : String) : digitCount (strip s) ≤ digitCount s := by
  have hsub : (strip s).toList.Sublist s.toList := by
    rw [strip, String.toList_ofList, stripChars]
    have hback := List.dropWhile_sublist (l := (s.toList.dropWhile isSpace).reverse) isSpace
    have hback := List.reverse_sublist.mpr hback
    rw [List.reverse_reverse] at hback
    exact hback.trans (List.dropWhile_sublist _)
  exact (hsub.filter _).length_le

theorem intOfText_ok {s : String} {n : Int} (h : intOfText s = .ok n) : digitCount s ≤ maxStrDigits ∧ intOfString s = some n := by
  unfold intOfText at h
  split at h
  · cases h
  · rename_i hcount
    split at h
    · rename_i m hm
      rw [hm, ← Except.ok.inj h]
      exact ⟨not_lt.mp hcount, rfl⟩
    · cases h

theorem intOfText_of {s : String} {n : Int} (hcount : digitCount s ≤ maxStrDigits) (h : intOfString s = some n) :
    intOfText s = .ok n := by
  rw [intOfText, if_neg (not_lt.mpr hcount), h]

theorem intOfText_strip {s : String} {n : Int} (h : intOfText s = .ok n) : intOfText (strip s) = .ok n := by
  obtain ⟨hcount, hint⟩ := intOfText_ok h
  exact intOfText_of ((digitCount_strip_le s).trans hcount) ((intOfString_strip s).trans hint)

theorem addUser_stored (out : Shares) {e : String × Permission} {n : Int} (h : intOfText e.1 = .ok n) :
    addUser py out (e.1, .str e.2.text) = .ok ((userKey e.1).elim out fun k => out.set k e.2) := by
  unfold addUser userKey
  dsimp only
  rw [(intOfText_ok h).2]
  cases hdigits : isDigits (strip e.1) with
  | false => rfl
  | true =>
    simp only [Bool.not_true, Bool.false_eq_true, if_false, if_true, normalize_text, ok_bind, intOfText_strip h]
    rfl

/-- Every key is an integer that `int()` takes. -/
def Readable (shares : Shares) : Prop := ∀ e ∈ shares.entries, ∃ n, intOfText e.1 = .ok n

theorem foldlM_addUser {entries : List (String × Permission)} (h : ∀ e ∈ entries, ∃ n, intOfText e.1 = .ok n) (out : Shares) :
    (stored entries).foldlM (addUser py) out = .ok (Dict.collect userKey entries out) := by
  induction entries generalizing out with
  | nil => rfl
  | cons e entries ih =>
    obtain ⟨n, hn⟩ := h e List.mem_cons_self
    change (addUser py out (e.1, .str e.2.text) >>= fun out => (stored entries).foldlM (addUser py) out) = _
    rw [addUser_stored out hn, ok_bind, ih fun e' he' => h e' (List.mem_cons_of_mem e he')]
    rfl

theorem byId_ok {sorted : List (String × Permission)} (h : byId shares = .ok sorted) :
    sorted.Perm shares.entries ∧ Readable shares := by
  obtain ⟨keyed, hkeyed, h⟩ := bind_ok h
  rw [← Except.ok.inj h]
  have hpairs := mapM_eq_ok hkeyed
  have hentries : List.Forall₂ (fun e k => (∃ n, intOfText e.1 = .ok n) ∧ k.2 = e) shares.entries keyed := by
    refine hpairs.imp fun e k hk => ?_
    obtain ⟨n, hn, rfl⟩ := map_ok hk
    exact ⟨⟨n, hn⟩, rfl⟩
  constructor
  · have hsnd : keyed.map Prod.snd = shares.entries :=
      List.forall₂_eq_eq_eq ▸ List.forall₂_map_left_iff.mpr (hentries.flip.imp fun _ _ hk => hk.2)
    rw [← hsnd]
    exact (List.perm_insertionSort _ keyed).map Prod.snd
  · intro e he
    obtain ⟨k, -, hk⟩ := forall₂_right hentries.flip e he
    exact hk.1

theorem byId_exists (h : Readable shares) : ∃ sorted, byId shares = .ok sorted := by
  have hall : ∀ e ∈ shares.entries, ∃ k, (intOfText e.1).map (fun id => (id, e)) = .ok k := by
    intro e he
    obtain ⟨n, hn⟩ := h e he
    exact ⟨(n, e), by rw [hn]; rfl⟩
  obtain ⟨keyed, hkeyed⟩ := mapM_ok_iff.mpr hall
  exact ⟨_, by rw [byId, hkeyed]; rfl⟩

/-! A row of columns. -/

/-- What the columns of some grants are read back as, in whatever order they are stored. -/
structure ReadAs (grants read : Grants) : Prop where
  roles : ∃ entries, entries.Perm grants.roles.entries ∧ read.roles = Dict.collect roleKey entries Dict.empty
  users : ∃ entries, entries.Perm grants.users.entries ∧ read.users = Dict.collect userKey entries Dict.empty

theorem columns_shared {grants : Grants} {row : Fields} (h : columns grants = .ok row) :
    column row "is_shared" = .bool (hasTargets grants) := by
  obtain ⟨users, -, h⟩ := bind_ok h
  rw [← Except.ok.inj h]
  rfl

theorem grantsOf_columns {grants : Grants} {row : Fields} (h : columns grants = .ok row) :
    ∃ read, grantsOf py row = .ok read ∧ ReadAs grants read := by
  obtain ⟨users, husers, h⟩ := bind_ok h
  obtain ⟨hperm, hreadable⟩ := byId_ok husers
  have hroles : (byName grants.roles).Perm grants.roles.entries := List.perm_insertionSort _ _
  have hread : ReadAs grants
      ⟨Dict.collect roleKey (byName grants.roles) Dict.empty, Dict.collect userKey users Dict.empty⟩ :=
    ⟨⟨_, hroles, rfl⟩, ⟨_, hperm, rfl⟩⟩
  rw [← Except.ok.inj h, grantsOf]
  cases htargets : hasTargets grants with
  | false =>
    rw [hasTargets, Bool.or_eq_false_iff, Bool.not_eq_false', Bool.not_eq_false', List.isEmpty_iff, List.isEmpty_iff] at htargets
    rw [htargets.1] at hroles
    rw [htargets.2] at hperm
    rw [List.perm_nil.mp hroles, List.perm_nil.mp hperm] at hread
    exact ⟨noGrants, rfl, hread⟩
  | true =>
    refine ⟨_, ?_, hread⟩
    have husersOk : ∀ e ∈ users, ∃ n, intOfText e.1 = .ok n := fun e he => hreadable e (hperm.subset he)
    change (do
      let roles ← parseRoleGrants py (.obj (stored (byName grants.roles))) (.arr ((byName grants.roles).map fun e => .str e.1))
      let users ← (stored users).foldlM (addUser py) Dict.empty
      return ⟨roles, users⟩ : Result Grants) = _
    rw [parseRoleGrants_stored, ok_bind, foldlM_addUser husersOk, ok_bind]
    rfl

theorem columns_exists {grants : Grants} (h : Readable grants.users) : ∃ row, columns grants = .ok row := by
  obtain ⟨users, husers⟩ := byId_exists h
  exact ⟨_, by rw [columns, husers]; rfl⟩

end XgenSdk.AgentShare

/-! A change of the grants, split into what is done now and what waits for approval. -/
namespace XgenSdk.AgentShare
open XgenSdk.Py XgenSdk.Checks XgenSdk.Levels
variable {py : Interpreter}

inductive Target where
  | role (name : String)
  | user (id : String)

def held (grants : Grants) : Target → Option Permission
  | .role name => grants.roles.get name
  | .user id => grants.users.get id

/-- How much each target has: nothing, `read` or `read_write`. -/
def levels (grants : Grants) (target : Target) : Nat := rankOf (held grants target)

theorem rankOf_injective : Function.Injective rankOf := by
  intro p q h
  rcases p with _ | _ | _ <;> rcases q with _ | _ | _ <;> first | rfl | cases h

theorem rankOf_eq_zero {p : Option Permission} (h : rankOf p = 0) : p = none := rankOf_injective h

/-! Changes of permissions, key by key. -/

theorem rankOf_widenedShares (old new : Shares) (k : String) :
    rankOf ((widenedShares old new).get k) =
      if rankOf (old.get k) < rankOf (new.get k) then rankOf (new.get k) else 0 := by
  rw [widenedShares, Dict.get_filterMap]
  cases new.get k with
  | none => rfl
  | some p =>
    rw [Option.bind_some]
    split <;> rfl

theorem rankOf_narrowedShares (old new : Shares) (k : String) :
    rankOf ((narrowedShares old new).get k) = min (rankOf (old.get k)) (rankOf (new.get k)) := by
  rw [narrowedShares, Dict.get_filterMap]
  generalize old.get k = p
  generalize new.get k = q
  rcases p with _ | _ | _ <;> rcases q with _ | _ | _ <;> rfl

theorem levels_widened (before after : Grants) : levels (widened before after) = rise (levels before) (levels after) := by
  funext target
  cases target with
  | role name => exact rankOf_widenedShares _ _ name
  | user id => exact rankOf_widenedShares _ _ id

theorem levels_narrowed (before after : Grants) : levels (narrowed before after) = levels before ⊓ levels after := by
  funext target
  cases target with
  | role name => exact rankOf_narrowedShares _ _ name
  | user id => exact rankOf_narrowedShares _ _ id

theorem isEmpty_iff_get {shares : Shares} : shares.entries.isEmpty = true ↔ ∀ k, shares.get k = none := by
  rw [List.isEmpty_iff, List.eq_nil_iff_forall_not_mem]
  constructor
  · intro h k
    exact shares.get_eq_none_iff.mpr fun e he => absurd he (h e)
  · intro h e he
    exact shares.get_eq_none_iff.mp (h e.1) e he rfl

/-- Without targets nobody has anything. -/
theorem hasTargets_eq_false_iff {grants : Grants} : hasTargets grants = false ↔ levels grants = ⊥ := by
  rw [hasTargets, Bool.or_eq_false_iff, Bool.not_eq_false', Bool.not_eq_false', isEmpty_iff_get, isEmpty_iff_get]
  constructor
  · rintro ⟨hroles, husers⟩
    funext target
    cases target with
    | role name => exact congrArg rankOf (hroles name)
    | user id => exact congrArg rankOf (husers id)
  · intro h
    exact ⟨fun name => rankOf_eq_zero (congrFun h (.role name)), fun id => rankOf_eq_zero (congrFun h (.user id))⟩

theorem isWidening_eq_false_iff {before after : Grants} : isWidening before after = false ↔ levels after ≤ levels before := by
  rw [isWidening, hasTargets_eq_false_iff, levels_widened, rise_eq_bot_iff]

/-- `{**base, **top}`, for roles and for users. -/
def overlay (base top : Grants) : Grants := ⟨base.roles.union top.roles, base.users.union top.users⟩

theorem rankOf_or (p q : Option Permission) : rankOf (p.or q) = if rankOf p = 0 then rankOf q else rankOf p := by
  rcases p with _ | _ | _ <;> rfl

theorem levels_overlay (base top : Grants) : levels (overlay base top) = layered (levels base) (levels top) := by
  funext target
  cases target with
  | role name => exact (congrArg rankOf (Dict.get_union _ _ name)).trans (rankOf_or _ _)
  | user id => exact (congrArg rankOf (Dict.get_union _ _ id)).trans (rankOf_or _ _)

theorem held_eq_of_levels {grants grants' : Grants} (h : levels grants = levels grants') : held grants = held grants' := by
  funext target
  exact rankOf_injective (congrFun h target)

/-- What waits for approval, laid over what is done now, is the whole change. -/
theorem held_overlay (before after : Grants) : held (overlay (narrowed before after) (widened before after)) = held after := by
  refine held_eq_of_levels ?_
  rw [levels_overlay, levels_narrowed, levels_widened, layered_rise]

theorem isWidening_narrowed (before after : Grants) : isWidening before (narrowed before after) = false := by
  rw [isWidening_eq_false_iff, levels_narrowed]
  exact inf_le_left

/-! What one who looks at an agent gets from the columns that are written. -/

open XgenSdk.Py XgenSdk.Checks XgenSdk.Levels

variable {py : Interpreter} {before after : Grants}

/-! Grants that are read back. -/

/-- No two keys come to one name. -/
def Apart (key : String → Option String) (shares : Shares) : Prop :=
  ∀ e ∈ shares.entries, ∀ e' ∈ shares.entries, ∀ k, key e.1 = some k → key e'.1 = some k → e = e'

/-- No two roles have one name, no two users one id, once they are read back. -/
structure Distinct (grants : Grants) : Prop where
  roles : Apart roleKey grants.roles
  users : Apart userKey grants.users

theorem exists_of_rankOf_le {p : Permission} {q : Option Permission} (h : rankOf (some p) ≤ rankOf q) :
    ∃ held, q = some held ∧ p.rank ≤ held.rank := by
  cases q with
  | none => cases p <;> cases h
  | some held => exact ⟨held, rfl, h⟩

theorem collect_le {key : String → Option String} {old new : Shares} (hle : ∀ k, rankOf (new.get k) ≤ rankOf (old.get k))
    (hapart : Apart key old) {xs ys : List (String × Permission)} (hxs : xs.Perm old.entries) (hys : ys.Perm new.entries)
    (k : String) : rankOf ((Dict.collect key ys Dict.empty).get k) ≤ rankOf ((Dict.collect key xs Dict.empty).get k) := by
  cases hnew : (Dict.collect key ys Dict.empty).get k with
  | none => exact Nat.zero_le _
  | some p =>
    obtain ⟨e, he, hkey, rfl⟩ | hempty := Dict.get_collect hnew
    · have hheld : new.get e.1 = some e.2 := new.mem_entries_iff.mp (hys.subset he)
      obtain ⟨p, hold, hrank⟩ := exists_of_rankOf_le (hheld ▸ hle e.1)
      have hmem : (e.1, p) ∈ xs := hxs.symm.subset (old.mem_entries_iff.mpr hold)
      have hsame : ∀ f ∈ xs, ∀ f' ∈ xs, key f.1 = some k → key f'.1 = some k → f.2 = f'.2 := by
        intro f hf f' hf' hk hk'
        rw [hapart f (hxs.subset hf) f' (hxs.subset hf') k hk hk']
      rw [(Dict.get_collect_iff hsame).mpr ⟨(e.1, p), hmem, hkey, rfl⟩]
      exact hrank
    · cases hempty

theorem ReadAs.levels_le {b a : Grants} (hb : ReadAs before b) (ha : ReadAs after a) (hdistinct : Distinct before)
    (hle : levels after ≤ levels before) : levels a ≤ levels b := by
  intro target
  cases target with
  | role name =>
    obtain ⟨xs, hxs, hb⟩ := hb.roles
    obtain ⟨ys, hys, ha⟩ := ha.roles
    change rankOf (a.roles.get name) ≤ rankOf (b.roles.get name)
    rw [hb, ha]
    exact collect_le (fun k => hle (.role k)) hdistinct.roles hxs hys name
  | user id =>
    obtain ⟨xs, hxs, hb⟩ := hb.users
    obtain ⟨ys, hys, ha⟩ := ha.users
    change rankOf (a.users.get id) ≤ rankOf (b.users.get id)
    rw [hb, ha]
    exact collect_le (fun k => hle (.user k)) hdistinct.users hxs hys id

theorem readable_of_le (hle : levels after ≤ levels before) (h : Readable before.users) : Readable after.users := by
  intro e he
  have hheld : after.users.get e.1 = some e.2 := after.users.mem_entries_iff.mp he
  have hrank : rankOf (after.users.get e.1) ≤ rankOf (before.users.get e.1) := hle (.user e.1)
  obtain ⟨p, hold, -⟩ := exists_of_rankOf_le (hheld ▸ hrank)
  exact h (e.1, p) (before.users.mem_entries_iff.mpr hold)

/-! What is seen. -/

/-- The user that `user_id` names. -/
def userTarget (py : Interpreter) (userId : Json) : Result (Option String) :=
  match userId with
  | .null => .ok none
  | .str s => .ok (if s = "" then none else some (strip s))
  | v => (toText py v).map fun text => some (strip text)

theorem userPermission_eq (users : Shares) (userId : Json) :
    userPermission py users userId = (userTarget py userId).map fun id => id.bind users.get := by
  cases userId with
  | null => rfl
  | str s =>
    rw [userPermission, userTarget]
    split <;> rfl
  | _ =>
    unfold userPermission userTarget
    dsimp only
    cases toText py _ <;> rfl

theorem toText_of_userTarget {userId : Json} {e : Raised} (h : userTarget py userId = .error e) : toText py userId = .error e := by
  cases userId with
  | null => cases h
  | str s => cases h
  | _ =>
    unfold userTarget at h
    dsimp only at h
    cases htext : toText py _ with
    | ok text =>
      rw [htext] at h
      cases h
    | error e' =>
      rw [htext] at h
      exact congrArg Except.error (Except.error.inj h)

/-- What is left of a permission where only reading may be shared. -/
def lowered (writes : Bool) (best : Option Permission) : Option Permission :=
  if best = some .readWrite && !writes then some .read else best

theorem lowered_mono (writes : Bool) {p q : Option Permission} (h : rankOf p ≤ rankOf q) :
    rankOf (lowered writes p) ≤ rankOf (lowered writes q) := by
  revert h
  rcases p with _ | _ | _ <;> rcases q with _ | _ | _ <;> cases writes <;> decide

/-- The best that the roles give beside the user's own permission. -/
def best (roles : Shares) (names : List String) (own : Option Permission) : Option Permission :=
  names.foldl (fun best role => higher [best, roles.get role]) own

theorem rankOf_higher (p q : Option Permission) : rankOf (higher [p, q]) = max (rankOf p) (rankOf q) := by
  rcases p with _ | _ | _ <;> rcases q with _ | _ | _ <;> rfl

theorem rankOf_best (roles : Shares) (names : List String) (own : Option Permission) :
    rankOf (best roles names own) = reach (fun role => rankOf (roles.get role)) (rankOf own) names := by
  induction names generalizing own with
  | nil => rfl
  | cons name names ih =>
    rw [best, List.foldl_cons]
    exact (ih _).trans (congrArg (fun r => reach _ r names) (rankOf_higher own (roles.get name)))

/-- What a viewer gets from grants, the user named. -/
def seen (grants : Grants) (v : Viewer) (id : Option String) : Option Permission :=
  lowered (writeAllowed v.settings) (best grants.roles v.userRoles.dedup (id.bind grants.users.get))

theorem seen_mono {a b : Grants} (hle : levels a ≤ levels b) (v : Viewer) (id : Option String) :
    rankOf (seen a v id) ≤ rankOf (seen b v id) := by
  refine lowered_mono _ ?_
  rw [rankOf_best, rankOf_best]
  refine reach_mono (fun name => hle (.role name)) ?_ _
  cases id with
  | none => exact le_rfl
  | some id => exact hle (.user id)

/-- The gate of the deployment is open. -/
def inForce (v : Viewer) : Bool := !shareEffectGated v.settings || strip (v.deploymentStage.getD "") = "deployed"

theorem effectivePermission_columns {grants read : Grants} {row : Fields} (hrow : columns grants = .ok row)
    (hread : grantsOf py row = .ok read) (v : Viewer) :
    effectivePermission py row v =
      if hasTargets grants && inForce v then (userTarget py v.userId).map (seen read v) else .ok none := by
  rw [effectivePermission, columns_shared hrow, hread, ok_bind, userPermission_eq]
  change (if !(hasTargets grants && inForce v) then _ else _) = _
  cases hasTargets grants && inForce v with
  | false => rfl
  | true => cases userTarget py v.userId <;> rfl

/-- A row that is not widened shows no more, to whoever looks; a look fails only for a user id without a text. -/
theorem effective_le {row row' : Fields} (hrow : columns before = .ok row) (hrow' : columns after = .ok row')
    (hdistinct : Distinct before) (hle : levels after ≤ levels before) (v : Viewer) :
    (∀ p, effectivePermission py row v = .ok p → ∃ p', effectivePermission py row' v = .ok p' ∧ rankOf p' ≤ rankOf p) ∧
      ∀ e, effectivePermission py row v = .error e → toText py v.userId = .error e := by
  obtain ⟨b, hb, hreadb⟩ : ∃ read, grantsOf py row = .ok read ∧ ReadAs before read := grantsOf_columns hrow
  obtain ⟨a, ha, hreada⟩ : ∃ read, grantsOf py row' = .ok read ∧ ReadAs after read := grantsOf_columns hrow'
  have hread : levels a ≤ levels b := hreadb.levels_le hreada hdistinct hle
  rw [effectivePermission_columns hrow hb, effectivePermission_columns hrow' ha]
  cases hold : hasTargets before && inForce v with
  | false =>
    have hnew : (hasTargets after && inForce v) = false := by
      rw [Bool.and_eq_false_iff] at hold ⊢
      refine hold.imp_left fun hnone => ?_
      rw [hasTargets_eq_false_iff] at hnone ⊢
      exact le_bot_iff.mp (hnone ▸ hle)
    rw [hnew]
    refine ⟨fun p hp => ⟨none, rfl, Nat.zero_le _⟩, fun e he => ?_⟩
    cases he
  | true =>
    rw [if_pos rfl]
    cases htarget : userTarget py v.userId with
    | error e =>
      refine ⟨fun p hp => ?_, fun e' he' => ?_⟩
      · cases hp
      · rw [toText_of_userTarget htarget]
        exact congrArg Except.error (Except.error.inj he')
    | ok id =>
      refine ⟨fun p hp => ?_, fun e he => ?_⟩
      · rw [← Except.ok.inj hp]
        split
        · exact ⟨seen a v id, rfl, seen_mono hread v id⟩
        · exact ⟨none, rfl, Nat.zero_le _⟩
      · cases he

/-- What is done now is what both grants have, the rest waits; and a change that is not widening shows nobody
more, where the keys of the grants before are still apart when they are read back. -/
theorem narrowing_splits (py : Interpreter) (before after : Grants) :
    levels (narrowed before after) = levels before ⊓ levels after ∧
    isWidening before (narrowed before after) = false ∧
    held (overlay (narrowed before after) (widened before after)) = held after ∧
    ∀ row, columns before = .ok row → Distinct before → isWidening before after = false →
      ∃ row', columns after = .ok row' ∧ ∀ v,
        (∀ p, effectivePermission py row v = .ok p → ∃ p', effectivePermission py row' v = .ok p' ∧ rankOf p' ≤ rankOf p) ∧
          ∀ e, effectivePermission py row v = .error e → toText py v.userId = .error e := by
  refine ⟨levels_narrowed before after, isWidening_narrowed before after, held_overlay before after, ?_⟩
  intro row hrow hdistinct hnarrow
  have hle : levels after ≤ levels before := isWidening_eq_false_iff.mp hnarrow
  obtain ⟨users, husers, -⟩ := bind_ok hrow
  obtain ⟨row', hrow'⟩ := columns_exists (readable_of_le hle (byId_ok husers).2)
  exact ⟨row', hrow', effective_le hrow hrow' hdistinct hle⟩

/-- An interpreter whose `json.loads` reads nothing. -/
def bare : Interpreter := ⟨fun _ => .error .valueError, fun _ => false⟩

def someRoles (entries : List (String × Permission)) (h : (entries.map Prod.fst).Nodup) : Grants := ⟨⟨entries, h⟩, Dict.empty⟩

theorem distinct_one (name : String) (p : Permission) (h : (([(name, p)] : List (String × Permission)).map Prod.fst).Nodup) :
    Distinct (someRoles [(name, p)] h) := by
  constructor
  · intro e he e' he' k hk hk'
    rw [List.mem_singleton.mp he, List.mem_singleton.mp he']
  · intro e he
    cases he

theorem narrowing_splits_one : ∃ row', columns (someRoles [("a", .read)] (by decide)) = .ok row' ∧ ∀ v p,
    effectivePermission bare [("is_shared", .bool true), ("share_roles", .arr [.str "a"]),
      ("share_permissions", .obj [("a", .str "read_write")]), ("share_users", .obj [])] v = .ok p →
    ∃ p', effectivePermission bare row' v = .ok p' ∧ rankOf p' ≤ rankOf p := by
  obtain ⟨row', hrow', hless⟩ := (narrowing_splits bare (someRoles [("a", .readWrite)] (by decide))
    (someRoles [("a", .read)] (by decide))).2.2.2 _ rfl (distinct_one "a" .readWrite (by decide)) (by decide)
  exact ⟨row', hrow', fun v => (hless v).1⟩

/-- A role `a` that may write where writing is shared. -/
def viewerOfA : Viewer := ⟨.int 7, ["a"], none, some ⟨[("permission_mode", "READ_WRITE_ALLOWED")], by decide⟩⟩

/-- Two names of one role: the one that is stored last counts, and it is the one taken away. -/
theorem narrowing_shows_more : ∃ before after row row',
    isWidening before after = false ∧ columns before = .ok row ∧ columns after = .ok row' ∧
      effectivePermission bare row viewerOfA = .ok (some .read) ∧ effectivePermission bare row' viewerOfA = .ok (some .readWrite) :=
  ⟨someRoles [("a", .read), (" a", .readWrite)] (by decide), someRoles [(" a", .readWrite)] (by decide), _, _,
    by decide, rfl, rfl, by decide, by decide⟩

end XgenSdk.AgentShare
