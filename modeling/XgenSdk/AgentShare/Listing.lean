import XgenSdk.AgentShare.Normalised

/-! The list of agents that are shared with somebody, asked of the database, and the agents that open. -/
namespace XgenSdk.AgentShare
open XgenSdk.Py XgenSdk.Checks
variable {py : Interpreter}

/-- A condition over one row, each with the parameter it takes. -/
inductive Clause where
  | isTrue (column : String)
  | overlaps (column : String) (names : List String)
  | hasKey (column : String) (key : String)
  | hasDeployment (stage : String)
  | conj (p q : Clause)
  | disj (p q : Clause)

/-- The text for the alias of a row. -/
def Clause.text (a : String) : Clause → String
  | .isTrue column => a ++ "." ++ column ++ " = TRUE"
  | .overlaps column _ => a ++ "." ++ column ++ " && %s::TEXT[]"
  | .hasKey column _ => "COALESCE(" ++ a ++ "." ++ column ++ ", '\x7b\x7d'::jsonb) ? %s"
  | .hasDeployment stage => "EXISTS (SELECT 1 FROM deploy_meta share_dm WHERE share_dm.workflow_id = " ++ a ++
      ".workflow_id AND share_dm.user_id = " ++ a ++ ".user_id AND share_dm.deployment_stage = '" ++ stage ++ "')"
  | .conj p q => "(" ++ p.text a ++ " AND " ++ q.text a ++ ")"
  | .disj p q => "(" ++ p.text a ++ " OR " ++ q.text a ++ ")"

inductive Param where
  | texts (names : List String)
  | text (s : String)

def Clause.params : Clause → List Param
  | .overlaps _ names => [.texts names]
  | .hasKey _ key => [.text key]
  | .conj p q => p.params ++ q.params
  | .disj p q => p.params ++ q.params
  | _ => []

def sharedWith (userRoles : List String) (id : String) (gated : Bool) : Clause :=
  let clause := .conj (.isTrue "is_shared") (.disj (.overlaps "share_roles" userRoles) (.hasKey "share_users" id))
  if gated then .conj clause (.hasDeployment "deployed") else clause

/-- `sql_shared_with`. -/
def sqlSharedWith (py : Interpreter) (userId : Json) (userRoles : List String) (gated : Bool) : Result Clause :=
  (toText py userId).map fun id => sharedWith userRoles id gated

example (names : List String) (id : String) : (sharedWith names id false).text "wm" =
    "(wm.is_shared = TRUE AND (wm.share_roles && %s::TEXT[] OR COALESCE(wm.share_users, '\x7b\x7d'::jsonb) ? %s))" := rfl

/-- The stages of the deployments, by workflow and owner; a stage can be NULL. -/
abbrev Deployments := Dict (String × Int) (Option String)

structure Agent where
  workflowId : String
  owner : Int
  columns : Fields

/-- The stage of the owner's deployment. -/
def stageOf (deployments : Deployments) (agent : Agent) : Option String := (deployments.get (agent.workflowId, agent.owner)).join

def isOneOf (names : List String) : Json → Bool
  | .str s => names.contains s
  | _ => false

/-- `column && names` on an array of texts. -/
def overlapsWith (names : List String) : Json → Bool
  | .arr xs => xs.any (isOneOf names)
  | _ => false

/-- `column ? key`. -/
def hasTopLevelKey (key : String) : Json → Bool
  | .obj fields => fields.any fun f => f.1 = key
  | _ => false

def isTrueValue : Json → Bool
  | .bool b => b
  | _ => false

/-- What PostgreSQL makes of a clause for one row. -/
def Clause.holds (deployments : Deployments) (agent : Agent) : Clause → Bool
  | .isTrue name => isTrueValue (column agent.columns name)
  | .overlaps name names => overlapsWith names (column agent.columns name)
  | .hasKey name key => hasTopLevelKey key (column agent.columns name)
  | .hasDeployment stage => stageOf deployments agent = some stage
  | .conj p q => p.holds deployments agent && q.holds deployments agent
  | .disj p q => p.holds deployments agent || q.holds deployments agent

/-! Who is in the list, who opens. -/

/-- Some of the roles, or the user, has a permission. -/
def Reached (py : Interpreter) (grants : Grants) (userId : Int) (userRoles : List String) : Prop :=
  ∃ id, toText py (.int userId) = .ok id ∧
    ((grants.users.get id).isSome ∨ ∃ role ∈ userRoles, (grants.roles.get role).isSome)

def Listed (py : Interpreter) (deployments : Deployments) (agent : Agent) (userId : Int) (userRoles : List String)
    (settings : Option Settings) : Prop :=
  ∃ clause, sqlSharedWith py (.int userId) userRoles (shareEffectGated settings) = .ok clause ∧
    clause.holds deployments agent = true

def Opens (py : Interpreter) (deployments : Deployments) (agent : Agent) (userId : Int) (userRoles : List String)
    (settings : Option Settings) : Prop :=
  ∃ p, effectivePermission py agent.columns ⟨.int userId, userRoles, stageOf deployments agent, settings⟩ = .ok (some p)

theorem isSome_get_iff {shares : Shares} {k : String} : (shares.get k).isSome ↔ k ∈ shares.entries.map Prod.fst := by
  rw [Option.isSome_iff_exists, List.mem_map]
  constructor
  · rintro ⟨p, hp⟩
    exact ⟨(k, p), shares.mem_entries_iff.mpr hp, rfl⟩
  · rintro ⟨e, he, rfl⟩
    exact ⟨e.2, shares.mem_entries_iff.mp he⟩

theorem toText_int {userId : Int} {id : String} (h : toText py (.int userId) = .ok id) : id = toString userId := by
  unfold toText at h
  dsimp only at h
  split at h
  · cases h
  · split at h
    · cases h
    · exact (Except.ok.inj h).symm

theorem strip_toString_int (n : Int) : strip (toString n) = toString n := by
  rw [strip, stripChars_int, String.ofList_toList]

theorem columns_roles {grants : Grants} {row : Fields} (h : columns grants = .ok row) (names : List String) :
    overlapsWith names (column row "share_roles") = true ↔ ∃ role ∈ names, (grants.roles.get role).isSome := by
  obtain ⟨users, -, h⟩ := bind_ok h
  have hcolumn : column row "share_roles" = .arr ((byName grants.roles).map fun e => .str e.1) := by
    rw [← Except.ok.inj h]
    rfl
  have hperm : (byName grants.roles).Perm grants.roles.entries := List.perm_insertionSort _ _
  rw [hcolumn, overlapsWith, List.any_map, List.any_eq_true]
  simp only [Function.comp_apply, isOneOf, List.contains_eq_mem, decide_eq_true_eq]
  constructor
  · rintro ⟨e, he, hname⟩
    exact ⟨e.1, hname, isSome_get_iff.mpr (List.mem_map_of_mem (hperm.subset he))⟩
  · rintro ⟨role, hrole, hsome⟩
    obtain ⟨e, he, rfl⟩ := List.mem_map.mp (isSome_get_iff.mp hsome)
    exact ⟨e, hperm.symm.subset he, hrole⟩

theorem columns_users {grants : Grants} {row : Fields} (h : columns grants = .ok row) (id : String) :
    hasTopLevelKey id (column row "share_users") = true ↔ (grants.users.get id).isSome := by
  obtain ⟨users, husers, h⟩ := bind_ok h
  obtain ⟨hperm, -⟩ := byId_ok husers
  have hcolumn : column row "share_users" = .obj (stored users) := by
    rw [← Except.ok.inj h]
    rfl
  rw [hcolumn, hasTopLevelKey, stored, List.any_map, List.any_eq_true, isSome_get_iff, List.mem_map]
  simp only [Function.comp_apply, decide_eq_true_eq]
  exact exists_congr fun e => and_congr_left fun _ => hperm.mem_iff

theorem hasTargets_of_isSome {grants : Grants} (target : Target) (h : (held grants target).isSome) : hasTargets grants = true := by
  rw [← Bool.not_eq_false, hasTargets_eq_false_iff]
  intro hnone
  rw [rankOf_eq_zero (congrFun hnone target)] at h
  cases h

theorem hasTargets_of_reached {grants : Grants} {userId : Int} {userRoles : List String} (h : Reached py grants userId userRoles) :
    hasTargets grants = true := by
  obtain ⟨id, -, huser | ⟨role, -, hrole⟩⟩ := h
  · exact hasTargets_of_isSome (.user id) huser
  · exact hasTargets_of_isSome (.role role) hrole

theorem listed_iff {grants : Grants} {agent : Agent} (hrow : columns grants = .ok agent.columns) (deployments : Deployments)
    (userId : Int) (userRoles : List String) (settings : Option Settings) :
    Listed py deployments agent userId userRoles settings ↔
      Reached py grants userId userRoles ∧ (shareEffectGated settings = true → stageOf deployments agent = some "deployed") := by
  have hclause : ∀ id, (sharedWith userRoles id false).holds deployments agent = true ↔
      hasTargets grants = true ∧ ((∃ role ∈ userRoles, (grants.roles.get role).isSome) ∨ (grants.users.get id).isSome) := by
    intro id
    rw [← columns_roles hrow, ← columns_users hrow]
    change (isTrueValue (column agent.columns "is_shared") && (_ || _)) = true ↔ _
    rw [columns_shared hrow, Bool.and_eq_true, Bool.or_eq_true]
    rfl
  have hgate : ∀ id, (sharedWith userRoles id (shareEffectGated settings)).holds deployments agent = true ↔
      (sharedWith userRoles id false).holds deployments agent = true ∧
        (shareEffectGated settings = true → stageOf deployments agent = some "deployed") := by
    intro id
    cases shareEffectGated settings with
    | false => simp
    | true =>
      change (_ && decide _) = true ↔ _
      rw [Bool.and_eq_true, decide_eq_true_eq]
      exact and_congr Iff.rfl (true_imp_iff.symm.trans (by rw [eq_self]))
  unfold Listed sqlSharedWith
  constructor
  · rintro ⟨clause, hclause', hholds⟩
    obtain ⟨id, hid, rfl⟩ := map_ok hclause'
    obtain ⟨hheld, hstage⟩ := (hgate id).mp hholds
    exact ⟨⟨id, hid, ((hclause id).mp hheld).2.symm⟩, hstage⟩
  · rintro ⟨hreached, hstage⟩
    obtain ⟨id, hid, htarget⟩ := id hreached
    refine ⟨_, by rw [hid]; rfl, (hgate id).mpr ⟨(hclause id).mpr ⟨hasTargets_of_reached hreached, htarget.symm⟩, hstage⟩⟩

theorem isSome_higher (p q : Option Permission) : (higher [p, q]).isSome = (p.isSome || q.isSome) := by
  rcases p with _ | _ | _ <;> rcases q with _ | _ | _ <;> rfl

theorem isSome_best_iff (roles : Shares) (names : List String) (own : Option Permission) :
    (best roles names own).isSome ↔ own.isSome ∨ ∃ role ∈ names, (roles.get role).isSome := by
  induction names generalizing own with
  | nil => simp [best]
  | cons name names ih =>
    have hstep : best roles (name :: names) own = best roles names (higher [own, roles.get name]) := rfl
    rw [hstep, ih, isSome_higher, Bool.or_eq_true, List.exists_mem_cons_iff, or_assoc]

theorem isSome_lowered (writes : Bool) (p : Option Permission) : (lowered writes p).isSome = p.isSome := by
  rcases p with _ | _ | _ <;> cases writes <;> rfl

theorem isSome_seen_iff (grants : Grants) (v : Viewer) (id : Option String) :
    (seen grants v id).isSome ↔ (id.bind grants.users.get).isSome ∨ ∃ role ∈ v.userRoles, (grants.roles.get role).isSome := by
  rw [seen, isSome_lowered, isSome_best_iff]
  simp only [List.mem_dedup]

theorem opens_iff {grants : Grants} {agent : Agent} (hcanonical : Canonical grants) (hrow : columns grants = .ok agent.columns)
    (deployments : Deployments) (userId : Int) (userRoles : List String) (settings : Option Settings) :
    Opens py deployments agent userId userRoles settings ↔
      Reached py grants userId userRoles ∧
        (shareEffectGated settings = true → strip ((stageOf deployments agent).getD "") = "deployed") := by
  obtain ⟨read, hread, hreadAs⟩ : ∃ read, grantsOf py agent.columns = .ok read ∧ ReadAs grants read := grantsOf_columns hrow
  have hheld : held read = held grants := held_readAs hcanonical hreadAs
  have huser : ∀ id, read.users.get id = grants.users.get id := fun id => congrFun hheld (.user id)
  have hrole : ∀ role, read.roles.get role = grants.roles.get role := fun role => congrFun hheld (.role role)
  have hforce : inForce ⟨.int userId, userRoles, stageOf deployments agent, settings⟩ = true ↔
      (shareEffectGated settings = true → strip ((stageOf deployments agent).getD "") = "deployed") := by
    rw [inForce, Bool.or_eq_true, decide_eq_true_eq, Bool.not_eq_true', ← Bool.not_eq_true, imp_iff_not_or]
  have hseen : (seen read ⟨.int userId, userRoles, stageOf deployments agent, settings⟩ (some (strip (toString userId)))).isSome ↔
      (grants.users.get (toString userId)).isSome ∨ ∃ role ∈ userRoles, (grants.roles.get role).isSome := by
    rw [isSome_seen_iff, Option.bind_some, strip_toString_int, huser]
    simp only [hrole]
  unfold Opens
  rw [effectivePermission_columns hrow hread, ← hforce]
  constructor
  · rintro ⟨p, hp⟩
    split at hp
    · rename_i hon
      obtain ⟨target, htarget, hp⟩ := map_ok hp
      obtain ⟨id, hid, rfl⟩ := map_ok htarget
      obtain rfl := toText_int hid
      have hsome := hseen.mp (by rw [hp]; rfl)
      exact ⟨⟨_, hid, hsome⟩, (Bool.and_eq_true _ _ ▸ hon).2⟩
    · cases hp
  · rintro ⟨hreached, hforce⟩
    rw [hasTargets_of_reached hreached, hforce]
    obtain ⟨id, hid, hsome⟩ := hreached
    obtain rfl := toText_int hid
    obtain ⟨p, hp⟩ := Option.isSome_iff_exists.mp (hseen.mpr hsome)
    refine ⟨p, ?_⟩
    change ((toText py (.int userId)).map fun text => some (strip text)).map _ = _
    rw [hid]
    exact congrArg Except.ok hp

/-- Two gates, one of them stricter. -/
theorem gates_agree_iff {reached gated strict wide : Prop} (h : strict → wide) :
    ((reached ∧ (gated → strict)) ↔ (reached ∧ (gated → wide))) ↔ ¬ (reached ∧ gated ∧ wide ∧ ¬ strict) := by
  tauto

/-- List and open agree, but where the gate is on and the stage is `deployed` between spaces. -/
theorem listed_iff_opens_iff (py : Interpreter) {grants : Grants} {agent : Agent} (hcanonical : Canonical grants)
    (hrow : columns grants = .ok agent.columns) (deployments : Deployments) (userId : Int) (userRoles : List String)
    (settings : Option Settings) :
    (Listed py deployments agent userId userRoles settings ↔ Opens py deployments agent userId userRoles settings) ↔
      ¬ (Reached py grants userId userRoles ∧ shareEffectGated settings = true ∧
        strip ((stageOf deployments agent).getD "") = "deployed" ∧ stageOf deployments agent ≠ some "deployed") := by
  rw [listed_iff hrow, opens_iff hcanonical hrow]
  have hexact : stageOf deployments agent = some "deployed" → strip ((stageOf deployments agent).getD "") = "deployed" := by
    intro h
    rw [h]
    rfl
  exact gates_agree_iff hexact

/-- An agent that role `a` may read. -/
def sharedAgent : Agent := ⟨"w", 1, [("is_shared", .bool true), ("share_roles", .arr [.str "a"]),
  ("share_permissions", .obj [("a", .str "read")]), ("share_users", .obj [])]⟩

theorem canonical_a : Canonical (someRoles [("a", .read)] (by decide)) := by
  constructor
  · intro e he
    rw [List.mem_singleton.mp he]
    exact ⟨by decide, by decide, by decide⟩
  · intro e he
    cases he

theorem listed_iff_opens_ungated :
    Listed bare Dict.empty sharedAgent 7 ["a"] none ↔ Opens bare Dict.empty sharedAgent 7 ["a"] none :=
  (listed_iff_opens_iff bare canonical_a rfl Dict.empty 7 ["a"] none).mpr fun h => absurd h.2.1 (by decide)

def gatedSettings : Option Settings := some ⟨[("policy", "DEPLOY_GATED")], by decide⟩

/-- An agent that opens and is not in the list. -/
theorem opens_not_listed : ∃ deployments,
    ¬ (Listed bare deployments sharedAgent 7 ["a"] gatedSettings ↔ Opens bare deployments sharedAgent 7 ["a"] gatedSettings) := by
  refine ⟨⟨[(("w", 1), some "deployed ")], by decide⟩, fun hagree => ?_⟩
  obtain ⟨clause, hclause, hholds⟩ := hagree.mpr ⟨.read, rfl⟩
  obtain ⟨id, -, rfl⟩ := map_ok hclause
  revert hholds
  change ¬ (_ && decide (some "deployed " = some "deployed")) = true
  simp

end XgenSdk.AgentShare
