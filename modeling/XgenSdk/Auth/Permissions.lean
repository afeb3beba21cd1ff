import XgenSdk.Py.Json

/-! The permissions of a user: what roles and direct grants give, less what is
denied, and what a permission with a wildcard covers. -/
namespace XgenSdk.Permissions
open XgenSdk.Py

/-- `PermissionResolutionError`, and the `TypeError` of a source that cannot be hashed. -/
inductive ResolutionError where
  | resolution (code requestId : String) (retryable : Bool)
  | typeError
  deriving DecidableEq, Repr

abbrev Resolved := Except ResolutionError

def isRequestIdChar (c : Char) : Bool := c.isAlphanum || c = '_' || c = '.' || c = ':' || c = '-'

/-- The id of a failure: the caller's where it is safe, else a fresh one. -/
def errorRequestId (fresh : String) (requestId : Option String) : String :=
  match requestId with
  | some id => if 1 ≤ id.toList.length && id.toList.length ≤ 128 && id.toList.all isRequestIdChar then id else fresh
  | none => fresh

/-- Who asks, for the text of a failure. -/
structure Caller where
  requestId : Option String
  fresh : String

def unavailable (caller : Caller) : ResolutionError :=
  .resolution "permission_store_unavailable" (errorRequestId caller.fresh caller.requestId) true

def invalidStore (caller : Caller) : ResolutionError :=
  .resolution "permission_store_invalid" (errorRequestId caller.fresh caller.requestId) false

/-- Three sets of permissions. -/
structure Authority where
  role : List String
  granted : List String
  denied : List String
  deriving DecidableEq, Repr

def Authority.add (s : Authority) (source permission : String) : Option Authority :=
  if source = "role" then some { s with role := s.role ++ [permission] }
  else if source = "grant" then some { s with granted := s.granted ++ [permission] }
  else if source = "deny" then some { s with denied := s.denied ++ [permission] }
  else none

/-- One row; a source that is a list or a dict is refused by the lookup itself. -/
def addRow (caller : Caller) (s : Authority) (row : Json) : Resolved Authority :=
  if !row.isObj then .error (invalidStore caller)
  else
    match row.get "perm" with
    | .str permission =>
      if permission = "" || !permission.toList.contains ':' then .error (invalidStore caller)
      else
        match row.get "source" with
        | .str source =>
          match s.add source permission with
          | some s => .ok s
          | none => .error (invalidStore caller)
        | .arr _ => .error .typeError
        | .obj _ => .error .typeError
        | _ => .error (invalidStore caller)
    | _ => .error (invalidStore caller)

/-- `_get_permission_authority_snapshot` on what `execute_raw_query` returns; `none` where it raises or is missing. -/
def permissionAuthoritySnapshot (caller : Caller) (answer : Option Json) : Resolved Authority :=
  match answer with
  | none => .error (unavailable caller)
  | some result =>
    match result.get "success" with
    | .bool true =>
      match result.get "data" with
      | .arr rows => rows.foldlM (addRow caller) ⟨[], [], []⟩
      | _ => .error (invalidStore caller)
    | _ => .error (unavailable caller)

/-- `(role | granted) - denied`. -/
def Authority.final (s : Authority) : List String := (s.role ++ s.granted).filter fun p => !s.denied.contains p

/-- `resolve_user_permissions`. -/
def resolveUserPermissions (caller : Caller) (answer : Option Json) (isSuperuser : Bool) : Resolved (List String) :=
  if isSuperuser then .ok ["*:*"] else (permissionAuthoritySnapshot caller answer).map Authority.final

/-- `"admin.*:*"` for each parent of `admin.user.group`. -/
def parentWildcards (resource : List Char) : List String :=
  let parts := resource.splitOn '.'
  (List.range' 1 (parts.length - 1)).map fun i => String.ofList (['.'].intercalate (parts.take i) ++ ".*:*".toList)

/-- The permissions with a wildcard that cover a resource. -/
def wildcards (required : String) : List String :=
  match required.toList.splitOn ':' with
  | [resource, _] => String.ofList (resource ++ ":*".toList) :: parentWildcards resource
  | _ => []

/-- `has_permission`. -/
def hasPermission (userPermissions : List String) (required : String) : Bool :=
  if userPermissions.contains "*:*" then true
  else if userPermissions.contains required then true
  else (wildcards required).any fun wildcard => userPermissions.contains wildcard

/-- The permissions that cover a required one. -/
def covering (required : String) : List String := "*:*" :: required :: wildcards required

theorem hasPermission_iff {userPermissions : List String} {required : String} :
    hasPermission userPermissions required = true ↔ ∃ p ∈ userPermissions, p ∈ covering required := by
  have hor : hasPermission userPermissions required =
      (userPermissions.contains "*:*" || (userPermissions.contains required ||
        (wildcards required).any fun wildcard => userPermissions.contains wildcard)) := by
    unfold hasPermission
    cases userPermissions.contains "*:*" <;> cases userPermissions.contains required <;> rfl
  rw [hor, Bool.or_eq_true, Bool.or_eq_true, List.any_eq_true]
  simp only [List.contains_iff_mem, covering, List.mem_cons]
  constructor
  · rintro (hall | hexact | ⟨wildcard, hwildcard, hmem⟩)
    · exact ⟨_, hall, .inl rfl⟩
    · exact ⟨_, hexact, .inr (.inl rfl)⟩
    · exact ⟨_, hmem, .inr (.inr hwildcard)⟩
  · rintro ⟨p, hp, rfl | rfl | hwildcard⟩
    · exact .inl hp
    · exact .inr (.inl hp)
    · exact .inr (.inr ⟨p, hwildcard, hp⟩)

/-- One permission covers another. -/
theorem covers_iff {p required : String} : hasPermission [p] required = true ↔ p ∈ covering required := by
  rw [hasPermission_iff]
  simp

theorem covers_self (p : String) : hasPermission [p] p = true := covers_iff.mpr (by simp [covering])

theorem mem_final {s : Authority} {p : String} : p ∈ s.final ↔ p ∈ s.role ++ s.granted ∧ p ∉ s.denied := by
  rw [Authority.final, List.mem_filter]
  simp

/-- A required permission is granted just where something that is given and not denied covers it. -/
theorem final_grants_iff {s : Authority} {required : String} : hasPermission s.final required = true ↔
    ∃ p ∈ s.role ++ s.granted, p ∉ s.denied ∧ hasPermission [p] required = true := by
  rw [hasPermission_iff]
  constructor
  · rintro ⟨p, hp, hcovers⟩
    exact ⟨p, (mem_final.mp hp).1, (mem_final.mp hp).2, covers_iff.mpr hcovers⟩
  · rintro ⟨p, hp, hdenied, hcovers⟩
    exact ⟨p, mem_final.mpr ⟨hp, hdenied⟩, covers_iff.mp hcovers⟩

/-- What is denied is refused. -/
def DenialEffective (s : Authority) (final : List String) : Prop :=
  ∀ required ∈ s.denied, hasPermission final required = false

/-- What no denial covers is granted just where something given covers it. -/
def GrantsElsewhere (s : Authority) (final : List String) : Prop :=
  ∀ required, (∀ d ∈ s.denied, hasPermission [d] required = false) →
    (hasPermission final required = true ↔ ∃ p ∈ s.role ++ s.granted, hasPermission [p] required = true)

theorem grants_elsewhere (s : Authority) : GrantsElsewhere s s.final := by
  intro required hfree
  rw [final_grants_iff]
  constructor
  · rintro ⟨p, hp, -, hcovers⟩
    exact ⟨p, hp, hcovers⟩
  · rintro ⟨p, hp, hcovers⟩
    refine ⟨p, hp, fun hdenied => ?_, hcovers⟩
    rw [hfree p hdenied] at hcovers
    cases hcovers

theorem denial_effective {s : Authority} : DenialEffective s s.final ↔
    ∀ d ∈ s.denied, ∀ p ∈ s.role ++ s.granted, hasPermission [p] d = true → p ∈ s.denied := by
  constructor
  · intro heffective d hd p hp hcovers
    by_contra hdenied
    have hgranted := final_grants_iff.mpr ⟨p, hp, hdenied, hcovers⟩
    rw [heffective d hd] at hgranted
    cases hgranted
  · intro hcovered d hd
    rw [← Bool.not_eq_true]
    intro hgranted
    obtain ⟨p, hp, hdenied, hcovers⟩ := final_grants_iff.mp hgranted
    exact hdenied (hcovered d hd p hp hcovers)

/-- Denials take effect just where whatever given permission covers a denied one is denied itself. -/
theorem resolve_denies_iff (caller : Caller) (answer : Option Json) (s : Authority)
    (h : permissionAuthoritySnapshot caller answer = .ok s) :
    ∃ final, resolveUserPermissions caller answer false = .ok final ∧
      (DenialEffective s final ∧ GrantsElsewhere s final ↔
        ∀ d ∈ s.denied, ∀ p ∈ s.role ++ s.granted, hasPermission [p] d = true → p ∈ s.denied) := by
  refine ⟨s.final, ?_, ?_⟩
  · rw [resolveUserPermissions, h]
    rfl
  · rw [denial_effective]
    exact ⟨fun hboth => hboth.1, fun hcovered => ⟨hcovered, grants_elsewhere s⟩⟩

/-! A role with a wildcard, and a denial of one of the permissions it covers. -/

def row (perm source : String) : Json := .obj [("perm", .str perm), ("source", .str source)]

def deniedDelete : Option Json :=
  some (.obj [("success", .bool true), ("data", .arr [row "workflow:*" "role", row "workflow:delete" "deny"])])

def caller : Caller := ⟨none, "7f9c2ba4e88f827d616045507605853e"⟩

theorem snapshot_deniedDelete :
    permissionAuthoritySnapshot caller deniedDelete = .ok ⟨["workflow:*"], [], ["workflow:delete"]⟩ := by
  decide

theorem denied_delete_granted :
    ¬ ∀ (caller : Caller) (answer : Option Json) (s : Authority), permissionAuthoritySnapshot caller answer = .ok s →
      ∃ final, resolveUserPermissions caller answer false = .ok final ∧ DenialEffective s final ∧
        GrantsElsewhere s final := by
  intro h
  obtain ⟨final, hfinal, heffective, -⟩ := h _ _ _ snapshot_deniedDelete
  have hresolved : resolveUserPermissions caller deniedDelete false = .ok ["workflow:*"] := by decide
  obtain rfl := Except.ok.inj (hresolved.symm.trans hfinal)
  have hdelete := heffective "workflow:delete" List.mem_cons_self
  exact absurd hdelete (by decide)

theorem resolve_denies_iff_delete :
    ∃ final, resolveUserPermissions caller deniedDelete false = .ok final ∧
      (DenialEffective ⟨["workflow:*"], [], ["workflow:delete"]⟩ final ∧
          GrantsElsewhere ⟨["workflow:*"], [], ["workflow:delete"]⟩ final ↔
        ∀ d ∈ ["workflow:delete"], ∀ p ∈ ["workflow:*"] ++ [], hasPermission [p] d = true → p ∈ ["workflow:delete"]) :=
  resolve_denies_iff caller deniedDelete ⟨["workflow:*"], [], ["workflow:delete"]⟩ snapshot_deniedDelete

end XgenSdk.Permissions
