import XgenSdk.AgentShare.ReadBack

/-! Which rows are read, and that what is read is written and read back as it is. -/
namespace XgenSdk.AgentShare
open XgenSdk.Py XgenSdk.Checks
variable {py : Interpreter}

/-! Grants as they are read. -/

def IsRoleName (name : String) : Prop := strip name = name ∧ name ≠ "" ∧ name ∉ legacyKeys

/-- A canonical decimal id that `int()` and `str()` take. -/
def IsUserId (id : String) : Prop := ∃ n : Nat, id = toString n ∧ (Nat.toDigits 10 n).length ≤ maxStrDigits

/-- All keys have a property. -/
def Keys (P : String → Prop) (shares : Shares) : Prop := ∀ e ∈ shares.entries, P e.1

structure Canonical (grants : Grants) : Prop where
  roles : Keys IsRoleName grants.roles
  users : Keys IsUserId grants.users

theorem keys_empty (P : String → Prop) : Keys P Dict.empty := fun _ he => absurd he List.not_mem_nil

theorem keys_set {P : String → Prop} {shares : Shares} (h : Keys P shares) {k : String} (hk : P k) (p : Permission) :
    Keys P (shares.set k p) := by
  intro e he
  have hget : (shares.set k p).get e.1 = some e.2 := Dict.mem_entries_iff _ |>.mp he
  rw [Dict.get_set] at hget
  split at hget
  · rename_i heq
    exact heq ▸ hk
  · exact h e ((Dict.mem_entries_iff _).mpr hget)

theorem isRoleName_strip {key : String} (h : isRole (strip key) = true) : IsRoleName (strip key) := by
  rw [isRole, Bool.and_eq_true, decide_eq_true_eq, Bool.not_eq_true', List.contains_eq_mem, decide_eq_false_iff_not] at h
  exact ⟨strip_strip key, h⟩

theorem roleKey_self {name : String} (h : IsRoleName name) : roleKey name = some name := by
  obtain ⟨hstrip, hne, hlegacy⟩ := h
  have hrole : isRole name = true := by
    rw [isRole, Bool.and_eq_true, decide_eq_true_eq, Bool.not_eq_true', List.contains_eq_mem, decide_eq_false_iff_not]
    exact ⟨hne, hlegacy⟩
  rw [roleKey, hstrip, if_pos hrole]

/-! Decimal ids. -/

theorem toList_toString_nat (n : Nat) : (toString n).toList = Nat.toDigits 10 n := Nat.toList_repr

theorem isDigit_toString {n : Nat} {c : Char} (h : c ∈ (toString n).toList) : c.isDigit = true :=
  Nat.isDigit_of_mem_toDigits (by decide) (by decide) (toList_toString_nat n ▸ h)

theorem digitValue_of_isDigit {c : Char} (h : c.isDigit = true) : (digitValue c).isSome := by
  have hc := toNat_of_isDigit h
  rw [digitValue, Option.isSome_map, List.find?_isSome]
  refine ⟨0x30, by decide, ?_⟩
  rw [Bool.and_eq_true, decide_eq_true_eq, decide_eq_true_eq]
  omega

theorem strip_toString_nat (n : Nat) : strip (toString n) = toString n := by
  rw [strip, stripChars_of_not fun c hc => isSpace_of_isDigit (.inr (isDigit_toString hc)), String.ofList_toList]

theorem isDigits_toString (n : Nat) : isDigits (toString n) = true := by
  rw [isDigits, Bool.and_eq_true, decide_eq_true_eq, List.all_eq_true]
  constructor
  · intro h
    have hnil : Nat.toDigits 10 n = [] := by rw [← toList_toString_nat, h, String.toList_empty]
    exact Nat.toDigits_ne_nil hnil
  · intro c hc
    rw [digitValue_of_isDigit (isDigit_toString hc), Bool.true_or]

theorem userKey_self {id : String} (h : IsUserId id) : userKey id = some id := by
  obtain ⟨n, rfl, -⟩ := h
  rw [userKey, strip_toString_nat, if_pos (isDigits_toString n)]
  exact congrArg (Option.map toString) (intOfString_toString (n : Int))

theorem intOfText_userId {n : Nat} (h : (Nat.toDigits 10 n).length ≤ maxStrDigits) : intOfText (toString n) = .ok (n : Int) := by
  refine intOfText_of ?_ (intOfString_toString (n : Int))
  exact (List.length_filter_le _ _).trans ((toList_toString_nat n).symm ▸ h)

theorem readable_userIds {users : Shares} (h : Keys IsUserId users) : Readable users := by
  intro e he
  obtain ⟨n, hn, hdigits⟩ := h e he
  exact ⟨n, hn ▸ intOfText_userId hdigits⟩

/-! Texts of digits. -/

theorem not_mem_of_isDigits {s : String} {c : Char} (h : isDigits s = true) (hvalue : digitValue c = none)
    (hother : (otherDigits.any fun r => r.1 ≤ c.toNat && c.toNat ≤ r.2) = false) : c ∉ s.toList := by
  intro hc
  rw [isDigits, Bool.and_eq_true, List.all_eq_true] at h
  have hdigit := h.2 c hc
  rw [hvalue, hother] at hdigit
  cases hdigit

theorem intOfString_digits {s : String} (h : isDigits s = true) (hstrip : strip s = s) :
    intOfString s = (natOfChars s.toList).map Int.ofNat := by
  have hminus : '-' ∉ s.toList := not_mem_of_isDigits h (by decide) (by decide)
  have hplus : '+' ∉ s.toList := not_mem_of_isDigits h (by decide) (by decide)
  have hchars : stripChars s.toList = s.toList := by
    have htext := congrArg String.toList hstrip
    rwa [strip, String.toList_ofList] at htext
  rw [intOfString, hchars]
  split
  · rename_i cs heq
    exact absurd (heq ▸ List.mem_cons_self) hminus
  · rename_i cs heq
    exact absurd (heq ▸ List.mem_cons_self) hplus
  · rfl

/-- All digits are decimal, and there are no more than `int()` takes. -/
def IsDecimal (s : String) : Prop := (∀ c ∈ s.toList, (digitValue c).isSome) ∧ s.length ≤ maxStrDigits

theorem digitCount_eq {s : String} (h : ∀ c ∈ s.toList, (digitValue c).isSome) : digitCount s = s.length := by
  rw [digitCount, List.filter_eq_self.mpr h, String.length_toList]

theorem intOfText_digits_iff {s : String} (h : isDigits s = true) (hstrip : strip s = s) : (∃ n, intOfText s = .ok n) ↔ IsDecimal s := by
  have hunderscore : '_' ∉ s.toList := not_mem_of_isDigits h (by decide) (by decide)
  have hne : s.toList ≠ [] := by
    rw [isDigits, Bool.and_eq_true, decide_eq_true_eq] at h
    exact fun hnil => h.1 (String.toList_eq_nil_iff.mp hnil)
  have hread := intOfString_digits h hstrip
  constructor
  · rintro ⟨n, hn⟩
    obtain ⟨hcount, hint⟩ := intOfText_ok hn
    obtain ⟨m, hm, -⟩ := Option.map_eq_some_iff.mp (hread ▸ hint)
    have hall := (natOfChars_isSome_iff hunderscore hne).mp (by rw [hm]; rfl)
    exact ⟨hall, digitCount_eq hall ▸ hcount⟩
  · rintro ⟨hall, hlength⟩
    obtain ⟨m, hm⟩ := Option.isSome_iff_exists.mp ((natOfChars_isSome_iff hunderscore hne).mpr hall)
    exact ⟨Int.ofNat m, intOfText_of ((digitCount_eq hall).symm ▸ hlength) (by rw [hread, hm]; rfl)⟩

theorem isUserId_of_digits {s : String} {n : Int} (h : isDigits s = true) (hstrip : strip s = s) (hn : intOfText s = .ok n) :
    IsUserId (toString n) := by
  obtain ⟨-, hlength⟩ := (intOfText_digits_iff h hstrip).mp ⟨n, hn⟩
  obtain ⟨m, hm, rfl⟩ := Option.map_eq_some_iff.mp (intOfString_digits h hstrip ▸ (intOfText_ok hn).2)
  refine ⟨m, rfl, (Nat.length_toDigits_le_iff (by decide) (by decide)).mpr ?_⟩
  calc m < 10 ^ s.toList.length := natOfChars_lt hm
    _ ≤ 10 ^ maxStrDigits := Nat.pow_le_pow_right (by decide) (String.length_toList ▸ hlength)

/-! What the parsers take. -/

/-- `str()` of the value does not raise, where it is asked for. -/
def HasText (py : Interpreter) (v : Json) : Prop := ∃ text, textOr py v = .ok text

/-- The value is `read`, `read_only` or `read_write`. -/
def IsPermission (py : Interpreter) (v : Json) : Prop := ∃ p, normalizePermission py v = .ok (some p)

theorem normalizePermission_ok_iff {v : Json} : (∃ p, normalizePermission py v = .ok p) ↔ HasText py v := by
  constructor
  · rintro ⟨p, hp⟩
    obtain ⟨text, htext, -⟩ := bind_ok hp
    exact ⟨text, htext⟩
  · rintro ⟨text, htext⟩
    exact ⟨_, by rw [normalizePermission, htext]; rfl⟩

theorem addRole_ok_iff (out : Shares) (e : String × Json) : (∃ out', addRole py out e = .ok out') ↔ HasText py e.2 := by
  rw [← normalizePermission_ok_iff]
  constructor
  · rintro ⟨out', hout⟩
    obtain ⟨p, hp, -⟩ := bind_ok hout
    exact ⟨p, hp⟩
  · rintro ⟨p, hp⟩
    rw [addRole, hp]
    cases p with
    | none => exact ⟨_, rfl⟩
    | some p => exact ⟨_, rfl⟩

theorem addOldRole_ok_iff (out : Shares) (role : Json) : (∃ out', addOldRole py out role = .ok out') ↔ HasText py role := by
  constructor
  · rintro ⟨out', hout⟩
    obtain ⟨text, htext, -⟩ := bind_ok hout
    exact ⟨text, htext⟩
  · rintro ⟨text, htext⟩
    exact ⟨_, by rw [addOldRole, htext]; rfl⟩

/-- An entry of `share_users` that is left out, or read. -/
def UserReads (py : Interpreter) (e : String × Json) : Prop :=
  isDigits (strip e.1) = true → HasText py e.2 ∧ (IsPermission py e.2 → IsDecimal (strip e.1))

theorem addUser_ok_iff (out : Shares) (e : String × Json) : (∃ out', addUser py out e = .ok out') ↔ UserReads py e := by
  unfold addUser UserReads
  dsimp only
  cases hdigits : isDigits (strip e.1) with
  | false => exact ⟨fun _ hcontra => absurd hcontra (by decide), fun _ => ⟨out, rfl⟩⟩
  | true =>
    rw [← intOfText_digits_iff hdigits (strip_strip e.1), ← normalizePermission_ok_iff, IsPermission]
    simp only [Bool.not_true, Bool.false_eq_true, if_false, forall_const]
    cases normalizePermission py e.2 with
    | error err => simp [bind, Except.bind]
    | ok p =>
      cases p with
      | none => simp [bind, Except.bind, pure, Except.pure]
      | some p =>
        cases intOfText (strip e.1) <;> simp [bind, Except.bind, pure, Except.pure]

/-- `share_permissions`, or for an old row `share_roles`, can be read. -/
def RolesRead (py : Interpreter) (sharePermissions shareRoles : Json) : Prop :=
  ∃ perms, asMapping py sharePermissions = .ok perms ∧
    (perms = [] → ∃ roles, rolesIn shareRoles = .ok roles ∧ ∀ role ∈ roles, HasText py role) ∧ ∀ e ∈ perms, HasText py e.2

def UsersRead (py : Interpreter) (shareUsers : Json) : Prop :=
  ∃ users, asMapping py shareUsers = .ok users ∧ ∀ e ∈ users, UserReads py e

theorem parseRoleGrants_ok_iff {sharePermissions shareRoles : Json} :
    (∃ roles, parseRoleGrants py sharePermissions shareRoles = .ok roles) ↔ RolesRead py sharePermissions shareRoles := by
  unfold parseRoleGrants RolesRead
  rw [bind_ok_iff]
  refine exists_congr fun perms => and_congr_right fun _ => ?_
  cases perms with
  | nil =>
    change (∃ roles, (rolesIn shareRoles >>= fun roles => roles.foldlM (addOldRole py) Dict.empty) = .ok roles) ↔ _
    rw [bind_ok_iff]
    simp only [foldlM_ok_iff addOldRole_ok_iff, forall_const, List.not_mem_nil, false_implies, implies_true, and_true]
  | cons e perms => simpa using foldlM_ok_iff addRole_ok_iff (e :: perms) Dict.empty

theorem parseUserGrants_ok_iff {shareUsers : Json} :
    (∃ users, parseUserGrants py shareUsers = .ok users) ↔ UsersRead py shareUsers := by
  unfold parseUserGrants UsersRead
  rw [bind_ok_iff]
  exact exists_congr fun users => and_congr_right fun _ => foldlM_ok_iff addUser_ok_iff users Dict.empty

theorem keys_parseRoleGrants {sharePermissions shareRoles : Json} {roles : Shares}
    (h : parseRoleGrants py sharePermissions shareRoles = .ok roles) : Keys IsRoleName roles := by
  obtain ⟨perms, -, h⟩ := bind_ok h
  split at h
  · obtain ⟨old, -, h⟩ := bind_ok h
    refine foldlM_keeps (fun out role out' hout hstep => ?_) (keys_empty _) h
    obtain ⟨text, -, hstep⟩ := bind_ok hstep
    rw [← Except.ok.inj hstep]
    split
    · exact keys_set hout (isRoleName_strip ‹_›) .read
    · exact hout
  · refine foldlM_keeps (fun out e out' hout hstep => ?_) (keys_empty _) h
    obtain ⟨p, -, hstep⟩ := bind_ok hstep
    cases p with
    | none => exact Except.ok.inj hstep ▸ hout
    | some p =>
      rw [← Except.ok.inj hstep]
      split
      · exact keys_set hout (isRoleName_strip ‹_›) p
      · exact hout

theorem keys_parseUserGrants {shareUsers : Json} {users : Shares} (h : parseUserGrants py shareUsers = .ok users) :
    Keys IsUserId users := by
  obtain ⟨entries, -, h⟩ := bind_ok h
  refine foldlM_keeps (fun out e out' hout hstep => ?_) (keys_empty _) h
  unfold addUser at hstep
  dsimp only at hstep
  cases hdigits : isDigits (strip e.1) with
  | false =>
    rw [hdigits] at hstep
    exact Except.ok.inj hstep ▸ hout
  | true =>
    rw [hdigits] at hstep
    obtain ⟨p, -, hstep⟩ := bind_ok hstep
    cases p with
    | none => exact Except.ok.inj hstep ▸ hout
    | some p =>
      obtain ⟨id, hid, hstep⟩ := bind_ok hstep
      rw [← Except.ok.inj hstep]
      exact keys_set hout (isUserId_of_digits hdigits (strip_strip e.1) hid) p

/-! Rows. -/

theorem grantsOf_ok_iff {row : Fields} : (∃ grants, grantsOf py row = .ok grants) ↔
    isTurnedOff row = true ∨
      RolesRead py (column row "share_permissions") (column row "share_roles") ∧ UsersRead py (column row "share_users") := by
  unfold grantsOf
  cases isTurnedOff row with
  | true => exact ⟨fun _ => .inl rfl, fun _ => ⟨noGrants, rfl⟩⟩
  | false =>
    rw [← parseRoleGrants_ok_iff, ← parseUserGrants_ok_iff]
    simp only [Bool.false_eq_true, if_false, false_or, bind_ok_iff]
    constructor
    · rintro ⟨roles, hroles, users, husers, -⟩
      exact ⟨⟨roles, hroles⟩, ⟨users, husers⟩⟩
    · rintro ⟨⟨roles, hroles⟩, ⟨users, husers⟩⟩
      exact ⟨roles, hroles, users, husers, _, rfl⟩

theorem canonical_grantsOf {row : Fields} {grants : Grants} (h : grantsOf py row = .ok grants) : Canonical grants := by
  unfold grantsOf at h
  split at h
  · rw [← Except.ok.inj h]
    exact ⟨keys_empty _, keys_empty _⟩
  · obtain ⟨roles, hroles, h⟩ := bind_ok h
    obtain ⟨users, husers, h⟩ := bind_ok h
    rw [← Except.ok.inj h]
    exact ⟨keys_parseRoleGrants hroles, keys_parseUserGrants husers⟩

/-- Keys that are already what they are read as. -/
theorem get_collect_self {key : String → Option String} {shares : Shares} (h : ∀ e ∈ shares.entries, key e.1 = some e.1)
    {xs : List (String × Permission)} (hxs : xs.Perm shares.entries) : (Dict.collect key xs Dict.empty).get = shares.get := by
  have hkey : ∀ e ∈ xs, ∀ k, key e.1 = some k → e.1 = k := fun e he k hk => Option.some.inj ((h e (hxs.subset he)).symm.trans hk)
  have hsame : ∀ k, ∀ e ∈ xs, ∀ e' ∈ xs, key e.1 = some k → key e'.1 = some k → e.2 = e'.2 := by
    intro k e he e' he' hk hk'
    have hget := shares.mem_entries_iff.mp (hxs.subset he)
    have hget' := shares.mem_entries_iff.mp (hxs.subset he')
    rw [hkey e he k hk] at hget
    rw [hkey e' he' k hk'] at hget'
    exact Option.some.inj (hget.symm.trans hget')
  funext k
  refine Option.ext fun p => ?_
  rw [Dict.get_collect_iff (hsame k), ← Dict.mem_entries_iff, ← hxs.mem_iff]
  constructor
  · rintro ⟨e, he, hk, rfl⟩
    exact hkey e he k hk ▸ he
  · intro hmem
    exact ⟨(k, p), hmem, h _ (hxs.subset hmem), rfl⟩

theorem held_readAs {grants read : Grants} (h : Canonical grants) (hread : ReadAs grants read) : held read = held grants := by
  obtain ⟨xs, hxs, hroles⟩ := hread.roles
  obtain ⟨ys, hys, husers⟩ := hread.users
  funext target
  cases target with
  | role name =>
    change read.roles.get name = grants.roles.get name
    rw [hroles, get_collect_self (fun e he => roleKey_self (h.roles e he)) hxs]
  | user id =>
    change read.users.get id = grants.users.get id
    rw [husers, get_collect_self (fun e he => userKey_self (h.users e he)) hys]

/-- What is read from a row, and then from the columns it is written as. -/
def Normalises (py : Interpreter) (row : Fields) : Prop :=
  ∃ grants, grantsOf py row = .ok grants ∧ Canonical grants ∧ ∃ cols, columns grants = .ok cols ∧
    ∃ again, grantsOf py cols = .ok again ∧ held again = held grants

theorem normalises_iff (py : Interpreter) (row : Fields) : Normalises py row ↔
    isTurnedOff row = true ∨
      RolesRead py (column row "share_permissions") (column row "share_roles") ∧ UsersRead py (column row "share_users") := by
  rw [← grantsOf_ok_iff]
  constructor
  · rintro ⟨grants, hgrants, -⟩
    exact ⟨grants, hgrants⟩
  · rintro ⟨grants, hgrants⟩
    have hcanonical : Canonical grants := canonical_grantsOf hgrants
    obtain ⟨cols, hcols⟩ := columns_exists (readable_userIds hcanonical.users)
    obtain ⟨again, hagain, hread⟩ : ∃ again, grantsOf py cols = .ok again ∧ ReadAs grants again := grantsOf_columns hcols
    exact ⟨grants, hgrants, hcanonical, cols, hcols, again, hagain, held_readAs hcanonical hread⟩

/-- A superscript two is a digit, but no number. -/
theorem superscript_not_normalised :
    ¬ Normalises bare [("is_shared", .bool true), ("share_users", .obj [("²", .str "read")])] := by
  rintro ⟨grants, hgrants, -⟩
  have hraises : grantsOf bare [("is_shared", .bool true), ("share_users", .obj [("²", .str "read")])] = .error .valueError := rfl
  cases hraises.symm.trans hgrants

end XgenSdk.AgentShare
