import XgenSdk.Lib.Dict
import Mathlib.Data.List.Induction
import Mathlib.Data.List.TakeWhile
import Mathlib.Order.Bounds.Defs

/-! Token quotas: which policies hold for a user, and what they say of a usage. -/
namespace XgenSdk.Quota

inductive QuotaPeriod where
  | daily
  | weekly
  | monthly
  deriving DecidableEq, Repr

def QuotaPeriod.value : QuotaPeriod → String
  | .daily => "daily"
  | .weekly => "weekly"
  | .monthly => "monthly"

inductive QuotaScope where
  | total
  | input
  | output
  | tool
  deriving DecidableEq, Repr

def QuotaScope.value : QuotaScope → String
  | .total => "total"
  | .input => "input"
  | .output => "output"
  | .tool => "tool"

inductive QuotaAction where
  | block
  | warn
  deriving DecidableEq, Repr

/-- A value beside the two of the enumeration is passed over. -/
inductive QuotaTargetType where
  | user
  | role
  | other (value : String)
  deriving DecidableEq, Repr

structure QuotaPolicySpec where
  id : Int
  targetType : QuotaTargetType
  targetId : Int
  periodType : QuotaPeriod
  scope : QuotaScope
  tokenLimit : Int
  actionOnExceed : QuotaAction
  priority : Int
  isActive : Bool
  deriving DecidableEq, Repr

abbrev QuotaKey := QuotaPeriod × QuotaScope

def QuotaPolicySpec.key (p : QuotaPolicySpec) : QuotaKey := (p.periodType, p.scope)

structure QuotaUsage where
  periodType : QuotaPeriod
  periodStartKst : String
  periodEndKst : String
  inputTokens : Int
  outputTokens : Int
  toolTokens : Int
  totalTokens : Int
  deriving DecidableEq, Repr

def QuotaUsage.valueFor (usage : QuotaUsage) : QuotaScope → Int
  | .input => usage.inputTokens
  | .output => usage.outputTokens
  | .tool => usage.toolTokens
  | .total => usage.totalTokens

structure QuotaDecision where
  allowed : Bool
  action : Option QuotaAction
  triggeredPolicyId : Option Int
  periodType : Option QuotaPeriod
  scope : Option QuotaScope
  usedTokens : Option Int
  limitTokens : Option Int
  reasonKey : Option String
  deriving DecidableEq, Repr

def QuotaDecision.allow : QuotaDecision := ⟨true, none, none, none, none, none, none, none⟩

/-! Which policies hold. -/

def appliesByRole (roles : List Int) (p : QuotaPolicySpec) : Bool :=
  p.isActive && p.targetType = .role && roles.contains p.targetId

def appliesToUser (user : Int) (p : QuotaPolicySpec) : Bool := p.isActive && p.targetType = .user && p.targetId = user

/-- A role policy more: the lower limit is taken, and `block` before `warn`. -/
def mergeRole (roleEff : Dict QuotaKey QuotaPolicySpec) (p : QuotaPolicySpec) : Dict QuotaKey QuotaPolicySpec :=
  match roleEff.get p.key with
  | none => roleEff.set p.key p
  | some cur =>
    let stricter := p.tokenLimit < cur.tokenLimit
    let roleEff := if stricter then roleEff.set p.key p else roleEff
    let cur := if stricter then p else cur
    if cur.actionOnExceed ≠ .block ∧ p.actionOnExceed = .block then
      roleEff.set p.key { cur with actionOnExceed := .block }
    else roleEff

/-- `resolve_effective_policies`. -/
def resolveEffectivePolicies (user : Int) (roles : List Int) (policies : List QuotaPolicySpec) : List QuotaPolicySpec :=
  let roleEff := (policies.filter (appliesByRole roles)).foldl mergeRole Dict.empty
  let userEff := (policies.filter (appliesToUser user)).foldl (fun eff p => eff.set p.key p) Dict.empty
  (roleEff.union userEff).values

/-! What they say. -/

/-- The tokens used, where they reach the limit of a policy; a limit that is not positive is passed over. -/
def exceeded (usage : QuotaPeriod → Option QuotaUsage) (p : QuotaPolicySpec) : Option Int :=
  match usage p.periodType with
  | none => none
  | some u =>
    if p.tokenLimit ≤ 0 then none
    else if u.valueFor p.scope < p.tokenLimit then none
    else some (u.valueFor p.scope)

/-- The first policies that are exceeded. -/
structure Hits where
  block : Option (QuotaPolicySpec × Int)
  warn : Option (QuotaPolicySpec × Int)

def hit (usage : QuotaPeriod → Option QuotaUsage) (hits : Hits) (p : QuotaPolicySpec) : Hits :=
  match exceeded usage p with
  | none => hits
  | some used =>
    if p.actionOnExceed = .block ∧ hits.block = none then { hits with block := some (p, used) }
    else if p.actionOnExceed = .warn ∧ hits.warn = none then { hits with warn := some (p, used) }
    else hits

def decision (allowed : Bool) (action : QuotaAction) (reason : String) (p : QuotaPolicySpec) (used : Int) : QuotaDecision :=
  ⟨allowed, some action, some p.id, some p.periodType, some p.scope, some used, some p.tokenLimit,
    some (reason ++ p.periodType.value ++ "." ++ p.scope.value)⟩

/-- `evaluate_quota`. -/
def evaluateQuota (policies : List QuotaPolicySpec) (usage : QuotaPeriod → Option QuotaUsage) : QuotaDecision :=
  let hits := policies.foldl (hit usage) ⟨none, none⟩
  match hits.block, hits.warn with
  | some (p, used), _ => decision false .block "quota.exceeded." p used
  | none, some (p, used) => decision true .warn "quota.warning." p used
  | none, none => QuotaDecision.allow

/-! A decision denies just where one policy does. -/

variable {usage : QuotaPeriod → Option QuotaUsage}

/-- A policy that denies this usage by itself. -/
def denies (usage : QuotaPeriod → Option QuotaUsage) (p : QuotaPolicySpec) : Bool :=
  p.actionOnExceed = .block && (exceeded usage p).isSome

theorem hit_block (hits : Hits) (p : QuotaPolicySpec) :
    (hit usage hits p).block.isSome = (hits.block.isSome || denies usage p) := by
  unfold hit denies
  cases exceeded usage p with
  | none => simp
  | some used =>
    cases p.actionOnExceed with
    | block => cases hblock : hits.block <;> simp [hblock]
    | warn => cases hwarn : hits.warn <;> simp

theorem hits_block (policies : List QuotaPolicySpec) (hits : Hits) :
    (policies.foldl (hit usage) hits).block.isSome = (hits.block.isSome || policies.any (denies usage)) := by
  induction policies generalizing hits with
  | nil => simp
  | cons p policies ih => rw [List.foldl_cons, ih, hit_block, List.any_cons, Bool.or_assoc]

theorem evaluateQuota_allowed (policies : List QuotaPolicySpec) :
    (evaluateQuota policies usage).allowed = !policies.any (denies usage) := by
  have hblock : (policies.foldl (hit usage) ⟨none, none⟩).block.isSome = _ := hits_block policies ⟨none, none⟩
  unfold evaluateQuota
  dsimp only
  cases hhits : policies.foldl (hit usage) ⟨none, none⟩ with
  | mk block warn =>
    rw [hhits] at hblock
    rw [Option.isSome_none, Bool.false_or] at hblock
    rw [← hblock]
    cases block with
    | some p => rfl
    | none =>
      cases warn with
      | some p => rfl
      | none => rfl

/-! What becomes of the role policies of one period and scope. -/

/-- What a key holds after one role policy more. -/
def combine (cur : Option QuotaPolicySpec) (p : QuotaPolicySpec) : Option QuotaPolicySpec :=
  match cur with
  | none => some p
  | some cur =>
    let cur := if p.tokenLimit < cur.tokenLimit then p else cur
    some (if cur.actionOnExceed ≠ .block ∧ p.actionOnExceed = .block then { cur with actionOnExceed := .block } else cur)

theorem get_mergeRole (roleEff : Dict QuotaKey QuotaPolicySpec) (p : QuotaPolicySpec) (k : QuotaKey) :
    (mergeRole roleEff p).get k = if p.key = k then combine (roleEff.get k) p else roleEff.get k := by
  unfold mergeRole combine
  by_cases hk : p.key = k
  · subst hk
    rw [if_pos rfl]
    cases hcur : roleEff.get p.key with
    | none => simp [Dict.get_set]
    | some cur =>
      dsimp only
      split_ifs <;> simp [Dict.get_set, hcur]
  · rw [if_neg hk]
    cases hcur : roleEff.get p.key with
    | none => simp [Dict.get_set, hk]
    | some cur =>
      dsimp only
      split_ifs <;> simp [Dict.get_set, hk]

/-- The policies from the first one on whose limit is the lowest. -/
def fromLowest (policies : List QuotaPolicySpec) : List QuotaPolicySpec :=
  policies.dropWhile fun p => policies.any fun q => q.tokenLimit < p.tokenLimit

/-- What the policies of a key are combined to. -/
structure Combined (policies : List QuotaPolicySpec) (r : QuotaPolicySpec) : Prop where
  key : ∀ k, (∀ p ∈ policies, p.key = k) → r.key = k
  least : ∀ p ∈ policies, r.tokenLimit ≤ p.tokenLimit
  attained : ∃ p ∈ policies, p.tokenLimit = r.tokenLimit
  action : r.actionOnExceed = .block ↔ ∃ p ∈ fromLowest policies, p.actionOnExceed = .block

theorem fromLowest_eq {policies : List QuotaPolicySpec} {limit : Int} (least : ∀ p ∈ policies, limit ≤ p.tokenLimit)
    (attained : ∃ p ∈ policies, p.tokenLimit = limit) :
    fromLowest policies = policies.dropWhile fun p => limit < p.tokenLimit := by
  have hsame : (fun p : QuotaPolicySpec => policies.any fun q => q.tokenLimit < p.tokenLimit) =
      fun p => decide (limit < p.tokenLimit) := by
    funext p
    rw [Bool.eq_iff_iff, List.any_eq_true, decide_eq_true_eq]
    constructor
    · rintro ⟨q, hq, hlt⟩
      have hle := least q hq
      have hlt := of_decide_eq_true hlt
      omega
    · intro hlt
      obtain ⟨q, hq, rfl⟩ := attained
      exact ⟨q, hq, decide_eq_true hlt⟩
  rw [fromLowest, hsame]

theorem fromLowest_ne_nil {policies : List QuotaPolicySpec} {limit : Int} (attained : ∃ p ∈ policies, p.tokenLimit = limit) :
    (policies.dropWhile fun p => limit < p.tokenLimit) ≠ [] := by
  obtain ⟨p, hp, rfl⟩ := attained
  intro hnil
  have hdropped := List.dropWhile_eq_nil_iff.mp hnil p hp
  exact absurd (of_decide_eq_true hdropped) (Int.lt_irrefl _)

/-- A policy that is stricter than all before it starts anew. -/
theorem fromLowest_stricter {policies : List QuotaPolicySpec} {p : QuotaPolicySpec}
    (h : ∀ q ∈ policies, p.tokenLimit < q.tokenLimit) : fromLowest (policies ++ [p]) = [p] := by
  have hleast : ∀ q ∈ policies ++ [p], p.tokenLimit ≤ q.tokenLimit := by
    intro q hq
    obtain hq | hq := List.mem_append.mp hq
    · exact Int.le_of_lt (h q hq)
    · obtain rfl := List.mem_singleton.mp hq
      exact Int.le_refl _
  have hnil : (policies.dropWhile fun q => decide (p.tokenLimit < q.tokenLimit)) = [] :=
    List.dropWhile_eq_nil_iff.mpr fun q hq => decide_eq_true (h q hq)
  rw [fromLowest_eq hleast ⟨p, by simp, rfl⟩, List.dropWhile_append, hnil]
  simp

theorem fromLowest_append {policies : List QuotaPolicySpec} {limit : Int} (least : ∀ q ∈ policies, limit ≤ q.tokenLimit)
    (attained : ∃ q ∈ policies, q.tokenLimit = limit) {p : QuotaPolicySpec} (h : limit ≤ p.tokenLimit) :
    fromLowest (policies ++ [p]) = fromLowest policies ++ [p] := by
  have hleast : ∀ q ∈ policies ++ [p], limit ≤ q.tokenLimit := by
    intro q hq
    obtain hq | hq := List.mem_append.mp hq
    · exact least q hq
    · rw [List.mem_singleton.mp hq]
      exact h
  obtain ⟨q, hq, hlimit⟩ := attained
  have hne : (policies.dropWhile fun p => decide (limit < p.tokenLimit)) ≠ [] := fromLowest_ne_nil ⟨q, hq, hlimit⟩
  rw [fromLowest_eq hleast ⟨q, List.mem_append_left _ hq, hlimit⟩, fromLowest_eq least ⟨q, hq, hlimit⟩,
    List.dropWhile_append, if_neg (by simpa using hne)]

theorem blocked_key (r : QuotaPolicySpec) : ({ r with actionOnExceed := .block } : QuotaPolicySpec).key = r.key := rfl

/-- One policy more; either it is the strictest of all, or the limit stays. -/
theorem combine_combined {policies : List QuotaPolicySpec} {r : QuotaPolicySpec} (h : Combined policies r)
    (p : QuotaPolicySpec) : ∃ r', combine (some r) p = some r' ∧ Combined (policies ++ [p]) r' := by
  obtain ⟨q, hq, hlimit⟩ := h.attained
  by_cases hstricter : p.tokenLimit < r.tokenLimit
  · have hall : ∀ q ∈ policies, p.tokenLimit < q.tokenLimit := fun q hq => Int.lt_of_lt_of_le hstricter (h.least q hq)
    refine ⟨p, ?_, fun k hk => hk p (by simp), fun q hq => ?_, ⟨p, by simp, rfl⟩, ?_⟩
    · simp [combine, hstricter]
    · obtain hq | hq := List.mem_append.mp hq
      · exact Int.le_of_lt (hall q hq)
      · obtain rfl := List.mem_singleton.mp hq
        exact Int.le_refl _
    · rw [fromLowest_stricter hall]
      simp
  · have hle : r.tokenLimit ≤ p.tokenLimit := Int.not_lt.mp hstricter
    have hfrom := fromLowest_append h.least h.attained hle
    refine ⟨if r.actionOnExceed ≠ .block ∧ p.actionOnExceed = .block then { r with actionOnExceed := .block } else r,
      ?_, fun k hk => ?_, fun q hq => ?_, ⟨q, List.mem_append_left _ hq, ?_⟩, ?_⟩
    · simp [combine, hstricter]
    · have hr := h.key k fun q hq => hk q (List.mem_append_left _ hq)
      split
      · rw [blocked_key, hr]
      · exact hr
    · have hrq : r.tokenLimit ≤ q.tokenLimit := by
        obtain hq | hq := List.mem_append.mp hq
        · exact h.least q hq
        · rw [List.mem_singleton.mp hq]
          exact hle
      split <;> exact hrq
    · split <;> exact hlimit
    · rw [hfrom]
      have hsplit : (∃ q ∈ fromLowest policies ++ [p], q.actionOnExceed = .block) ↔
          r.actionOnExceed = .block ∨ p.actionOnExceed = .block := by
        rw [h.action]
        simp only [List.mem_append, List.mem_singleton, or_and_right, exists_or, exists_eq_left]
      rw [hsplit]
      split
      · rename_i hraise
        simp [hraise.2]
      · rename_i hkeep
        constructor
        · exact Or.inl
        · rintro (hr | hp)
          · exact hr
          · exact not_not.mp fun hne => hkeep ⟨hne, hp⟩

theorem combine_all {policies : List QuotaPolicySpec} (hne : policies ≠ []) :
    ∃ r, policies.foldl combine none = some r ∧ Combined policies r := by
  induction policies using List.reverseRecOn with
  | nil => exact absurd rfl hne
  | append_singleton policies p ih =>
    rw [List.foldl_append]
    by_cases hnil : policies = []
    · subst hnil
      refine ⟨p, rfl, fun k hk => hk p (by simp), fun q hq => ?_, ⟨p, by simp, rfl⟩, ?_⟩
      · obtain rfl := List.mem_singleton.mp hq
        exact Int.le_refl _
      · rw [fromLowest_stricter fun q hq => by cases hq]
        simp
    · obtain ⟨r, hr, hcombined⟩ := ih hnil
      rw [hr]
      exact combine_combined hcombined p

end XgenSdk.Quota

/-! When the policies that hold for a user are as strict as the role policies
they are made of. -/
namespace XgenSdk.Quota
variable {user : Int} {roles : List Int} {policies : List QuotaPolicySpec} {usage : QuotaPeriod → Option QuotaUsage}

/-- The active role policies of a period and scope, in their order. -/
def roleFor (roles : List Int) (policies : List QuotaPolicySpec) (k : QuotaKey) : List QuotaPolicySpec :=
  (policies.filter (appliesByRole roles)).filter fun p => p.key = k

/-- The active policies for the user alone. -/
def userFor (user : Int) (policies : List QuotaPolicySpec) (k : QuotaKey) : List QuotaPolicySpec :=
  (policies.filter (appliesToUser user)).filter fun p => p.key = k

def effective (user : Int) (roles : List Int) (policies : List QuotaPolicySpec) : Dict QuotaKey QuotaPolicySpec :=
  ((policies.filter (appliesByRole roles)).foldl mergeRole Dict.empty).union
    ((policies.filter (appliesToUser user)).foldl (fun eff p => eff.set p.key p) Dict.empty)

theorem resolve_eq (user : Int) (roles : List Int) (policies : List QuotaPolicySpec) :
    resolveEffectivePolicies user roles policies = (effective user roles policies).values := rfl

theorem foldl_last {α : Type} (xs : List α) (last : Option α) :
    xs.foldl (fun _ x => some x) last = xs.getLast?.or last := by
  induction xs generalizing last with
  | nil => rfl
  | cons x xs ih =>
    rw [List.foldl_cons, ih]
    cases xs with
    | nil => rfl
    | cons y ys => simp [List.getLast?_eq_some_getLast]

theorem get_effective (user : Int) (roles : List Int) (policies : List QuotaPolicySpec) (k : QuotaKey) :
    (effective user roles policies).get k =
      (userFor user policies k).getLast?.or ((roleFor roles policies k).foldl combine none) := by
  have hrole := Dict.get_foldl get_mergeRole (policies.filter (appliesByRole roles)) Dict.empty k
  have huser := Dict.get_foldl (f := fun (_ : Option QuotaPolicySpec) (p : QuotaPolicySpec) => some p)
    (fun (eff : Dict QuotaKey QuotaPolicySpec) (p : QuotaPolicySpec) k => Dict.get_set eff p.key k p)
    (policies.filter (appliesToUser user)) Dict.empty k
  rw [effective, Dict.get_union, hrole, huser, foldl_last, Dict.get_empty, Option.or_none]
  rfl

theorem roleFor_key {k : QuotaKey} : ∀ p ∈ roleFor roles policies k, p.key = k := fun _ hp =>
  of_decide_eq_true (List.mem_filter.mp hp).2

theorem effective_key {k : QuotaKey} {p : QuotaPolicySpec} (h : (effective user roles policies).get k = some p) : p.key = k := by
  rw [get_effective] at h
  cases hlast : (userFor user policies k).getLast? with
  | some q =>
    rw [hlast, Option.some_or] at h
    rw [← Option.some.inj h]
    exact of_decide_eq_true (List.mem_filter.mp (List.mem_of_getLast? hlast)).2
  | none =>
    rw [hlast, Option.none_or] at h
    by_cases hnil : roleFor roles policies k = []
    · rw [hnil] at h
      cases h
    · obtain ⟨r, hr, hcombined⟩ := combine_all hnil
      rw [hr] at h
      rw [← Option.some.inj h]
      exact hcombined.key k roleFor_key

/-- Without a policy for the user, a key has one policy, combined from the role policies. -/
theorem free_key {k : QuotaKey} (hfree : userFor user policies k = []) (hrole : roleFor roles policies k ≠ []) :
    ∃ r, (effective user roles policies).get k = some r ∧
      (resolveEffectivePolicies user roles policies).filter (fun p => p.key = k) = [r] ∧
      Combined (roleFor roles policies k) r := by
  obtain ⟨r, hr, hcombined⟩ := combine_all hrole
  have hget : (effective user roles policies).get k = some r := by rw [get_effective, hfree, hr]; rfl
  refine ⟨r, hget, ?_, hcombined⟩
  rw [resolve_eq, Dict.filter_values _ QuotaPolicySpec.key (fun _ _ => effective_key), hget]
  rfl

/-- The combination is as strict as its parts. -/
structure Sound (user : Int) (roles : List Int) (policies : List QuotaPolicySpec) (usage : QuotaPeriod → Option QuotaUsage) :
    Prop where
  combined : ∀ k, userFor user policies k = [] → roleFor roles policies k ≠ [] →
    ∃ r, (resolveEffectivePolicies user roles policies).filter (fun p => p.key = k) = [r] ∧
      IsLeast {limit | ∃ p ∈ roleFor roles policies k, p.tokenLimit = limit} r.tokenLimit ∧
      (r.actionOnExceed = .block ↔ ∃ p ∈ roleFor roles policies k, p.actionOnExceed = .block)
  denied : ∀ k, userFor user policies k = [] → ∀ p ∈ roleFor roles policies k, (evaluateQuota [p] usage).allowed = false →
    (evaluateQuota (resolveEffectivePolicies user roles policies) usage).allowed = false

/-- Where a role policy blocks, one at or behind the first of the lowest limit does. -/
def BlocksFromLowest (user : Int) (roles : List Int) (policies : List QuotaPolicySpec) : Prop :=
  ∀ k, userFor user policies k = [] → (∃ p ∈ roleFor roles policies k, p.actionOnExceed = .block) →
    ∃ p ∈ fromLowest (roleFor roles policies k), p.actionOnExceed = .block

/-- The usage exceeds the lowest limit of a key with a policy that blocks, or the last policy for the user of some key
denies it. -/
def DeniedByLowest (user : Int) (roles : List Int) (policies : List QuotaPolicySpec)
    (usage : QuotaPeriod → Option QuotaUsage) : Prop :=
  (∃ k, userFor user policies k = [] ∧ (∃ p ∈ roleFor roles policies k, p.actionOnExceed = .block) ∧
    ∃ p ∈ roleFor roles policies k, (∀ q ∈ roleFor roles policies k, p.tokenLimit ≤ q.tokenLimit) ∧
      (exceeded usage p).isSome) ∨
  ∃ k p, (userFor user policies k).getLast? = some p ∧ denies usage p = true

theorem exceeded_congr {p q : QuotaPolicySpec} (hkey : p.key = q.key) (hlimit : p.tokenLimit = q.tokenLimit) :
    exceeded usage p = exceeded usage q := by
  have hperiod : p.periodType = q.periodType := congrArg Prod.fst hkey
  have hscope : p.scope = q.scope := congrArg Prod.snd hkey
  rw [exceeded, exceeded, hperiod, hscope, hlimit]

theorem denied_iff : (evaluateQuota policies usage).allowed = false ↔ ∃ p ∈ policies, denies usage p = true := by
  rw [evaluateQuota_allowed, Bool.not_eq_false', List.any_eq_true]

theorem denied_one {p : QuotaPolicySpec} : (evaluateQuota [p] usage).allowed = false ↔ denies usage p = true := by
  rw [denied_iff]
  simp

/-- Where blocking is not lost, what is resolved denies a usage just where the lowest limits do. -/
theorem resolved_denied_iff (hblocks : BlocksFromLowest user roles policies) :
    (evaluateQuota (resolveEffectivePolicies user roles policies) usage).allowed = false ↔
      DeniedByLowest user roles policies usage := by
  have haction : ∀ {k r}, userFor user policies k = [] → Combined (roleFor roles policies k) r →
      (r.actionOnExceed = .block ↔ ∃ p ∈ roleFor roles policies k, p.actionOnExceed = .block) := by
    intro k r hfree hcombined
    rw [hcombined.action]
    refine ⟨fun ⟨p, hp, hblock⟩ => ⟨p, List.dropWhile_sublist _ |>.mem hp, hblock⟩, hblocks k hfree⟩
  rw [denied_iff, resolve_eq]
  constructor
  · rintro ⟨v, hv, hdenies⟩
    obtain ⟨k, hget⟩ := (Dict.mem_values_iff _).mp hv
    cases hlast : (userFor user policies k).getLast? with
    | some q =>
      rw [get_effective, hlast, Option.some_or] at hget
      obtain rfl := Option.some.inj hget
      exact .inr ⟨k, q, hlast, hdenies⟩
    | none =>
      have hfree : userFor user policies k = [] := List.getLast?_eq_none_iff.mp hlast
      have hrole : roleFor roles policies k ≠ [] := by
        intro hnil
        rw [get_effective, hfree, hnil] at hget
        cases hget
      obtain ⟨r, hr, -, hcombined⟩ := free_key hfree hrole
      obtain rfl : v = r := Option.some.inj (hget.symm.trans hr)
      obtain ⟨q, hq, hlimit⟩ := hcombined.attained
      rw [denies, Bool.and_eq_true, decide_eq_true_eq] at hdenies
      have hkey : q.key = v.key := by rw [roleFor_key q hq, hcombined.key k roleFor_key]
      refine .inl ⟨k, hfree, (haction hfree hcombined).mp hdenies.1, q, hq, fun p hp => ?_, ?_⟩
      · rw [hlimit]
        exact hcombined.least p hp
      · rw [exceeded_congr hkey hlimit]
        exact hdenies.2
  · rintro (⟨k, hfree, hblock, q, hq, hleast, hexceeded⟩ | ⟨k, q, hlast, hdenies⟩)
    · obtain ⟨r, hr, -, hcombined⟩ := free_key hfree (List.ne_nil_of_mem hq)
      refine ⟨r, (Dict.mem_values_iff _).mpr ⟨k, hr⟩, ?_⟩
      obtain ⟨p, hp, hlimit⟩ := hcombined.attained
      have hsame : q.tokenLimit = r.tokenLimit := by
        have hle := hcombined.least q hq
        have hge := hleast p hp
        omega
      have hkey : q.key = r.key := by rw [roleFor_key q hq, hcombined.key k roleFor_key]
      rw [denies, Bool.and_eq_true, decide_eq_true_eq, ← exceeded_congr hkey hsame]
      exact ⟨(haction hfree hcombined).mpr hblock, hexceeded⟩
    · refine ⟨q, (Dict.mem_values_iff _).mpr ⟨k, ?_⟩, hdenies⟩
      rw [get_effective, hlast, Option.some_or]

/-- The combination is as strict as its parts just where no block is lost to a stricter warning, and where a usage that
one of the parts denies exceeds a lowest limit that counts. -/
theorem combination_sound_iff (user : Int) (roles : List Int) (policies : List QuotaPolicySpec)
    (usage : QuotaPeriod → Option QuotaUsage) :
    Sound user roles policies usage ↔ BlocksFromLowest user roles policies ∧
      ((∃ k, userFor user policies k = [] ∧ ∃ p ∈ roleFor roles policies k, denies usage p = true) →
        DeniedByLowest user roles policies usage) := by
  constructor
  · intro h
    have hblocks : BlocksFromLowest user roles policies := by
      intro k hfree hblock
      obtain ⟨p, hp, -⟩ := id hblock
      obtain ⟨r, -, hone, hcombined⟩ := free_key hfree (List.ne_nil_of_mem hp)
      obtain ⟨r', hone', -, haction⟩ := h.combined k hfree (List.ne_nil_of_mem hp)
      obtain rfl : r = r' := by simpa using hone.symm.trans hone'
      exact hcombined.action.mp (haction.mpr hblock)
    refine ⟨hblocks, fun ⟨k, hfree, p, hp, hdenies⟩ => ?_⟩
    exact (resolved_denied_iff hblocks).mp (h.denied k hfree p hp (denied_one.mpr hdenies))
  · rintro ⟨hblocks, hlowest⟩
    refine ⟨fun k hfree hrole => ?_, fun k hfree p hp hdenied => ?_⟩
    · obtain ⟨r, -, hone, hcombined⟩ := free_key hfree hrole
      refine ⟨r, hone, ⟨hcombined.attained, ?_⟩, ?_⟩
      · rintro limit ⟨p, hp, rfl⟩
        exact hcombined.least p hp
      · rw [hcombined.action]
        exact ⟨fun ⟨p, hp, hblock⟩ => ⟨p, (List.dropWhile_sublist _).mem hp, hblock⟩, hblocks k hfree⟩
    · exact (resolved_denied_iff hblocks).mpr (hlowest ⟨k, hfree, p, hp, denied_one.mp hdenied⟩)

/-! A limit that blocks, and a lower one that warns. -/

def monthlyTotal (id role limit : Int) (action : QuotaAction) : QuotaPolicySpec :=
  ⟨id, .role, role, .monthly, .total, limit, action, 0, true⟩

def monthlyUsage (tokens : Int) : QuotaPeriod → Option QuotaUsage
  | .monthly => some ⟨.monthly, "2026-09-01", "2026-09-30", 0, 0, 0, tokens⟩
  | _ => none

/-- The first policy denies 120 tokens by itself; with the second, which is stricter, they are allowed. -/
theorem stricter_warning_allows :
    ¬ Sound 7 [1, 2] [monthlyTotal 1 1 100 .block, monthlyTotal 2 2 50 .warn] (monthlyUsage 120) := by
  intro h
  have hallowed : (evaluateQuota (resolveEffectivePolicies 7 [1, 2]
      [monthlyTotal 1 1 100 .block, monthlyTotal 2 2 50 .warn]) (monthlyUsage 120)).allowed = true := by decide
  have hdenied := h.denied (.monthly, .total) rfl (monthlyTotal 1 1 100 .block) (by decide) (by decide)
  rw [hallowed] at hdenied
  cases hdenied

end XgenSdk.Quota
