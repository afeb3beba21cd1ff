import XgenSdk.Lib.Runs
import XgenSdk.Py.Codecs
import XgenSdk.Py.Json

/-! Which workflows are open to the outside, and what opened them. -/
namespace XgenSdk.Deploy
open XgenSdk.Py XgenSdk.Runs

inductive Stage where
  | idle
  | pendingApproval
  | deployed
  | rejected
  | revoked
  deriving DecidableEq, Repr

def Stage.name : Stage → String
  | .idle => "idle"
  | .pendingApproval => "pending_approval"
  | .deployed => "deployed"
  | .rejected => "rejected"
  | .revoked => "revoked"

def allStages : List Stage := [.idle, .pendingApproval, .deployed, .rejected, .revoked]

/-- Old names, which are read and never written. -/
def legacyStageAliases : List (String × Stage) :=
  [("pending_admin", .pendingApproval), ("pending_governance", .pendingApproval),
    ("rejected_admin", .rejected), ("rejected_governance", .rejected)]

/-- What cannot be read is closed. -/
def normalizeStage (stage : Json) : Stage :=
  let s := strip stage.textOr
  match allStages.find? fun t => t.name = s with
  | some t => t
  | none => ((legacyStageAliases.find? fun e => e.1 = s).map Prod.snd).getD .idle

/-! Transitions. -/

def nextStageOnUserDeploy (currentStage : Json) (approvalRequired : Bool) : Stage :=
  if normalizeStage currentStage = .deployed then .deployed
  else if approvalRequired then .pendingApproval else .deployed

def nextStageOnUserCancel (_currentStage : Json) : Stage := .idle

def nextStageOnApproval (currentStage decision : Json) : Except String Stage :=
  let current := normalizeStage currentStage
  let d := String.ofList (lower (strip decision.textOr).toList)
  if current ≠ .pendingApproval then
    .error ("결재 결과 반영은 stage=" ++ Json.reprString current.name ++ " 에서 불가능합니다 (요구: pending_approval)")
  else if d = "approved" then .ok .deployed
  else if d = "rejected" then .ok .rejected
  else if d = "canceled" then .ok .idle
  else .error ("알 수 없는 결재 결과: " ++ decision.repr)

def nextStageOnAdminRevoke (currentStage : Json) : Except String Stage :=
  let current := normalizeStage currentStage
  if current ≠ .deployed then
    .error ("배포 철회는 stage=" ++ Json.reprString current.name ++ " 에서 불가능합니다 (요구: deployed)")
  else .ok .revoked

structure LegacyFlags where
  isDeployed : Bool
  inquireDeploy : Bool
  isAdminAccepted : Bool
  isGovernanceAccepted : Bool
  deriving DecidableEq

def stageToLegacyFlags (stage : Json) : LegacyFlags :=
  match normalizeStage stage with
  | .pendingApproval => ⟨false, true, false, false⟩
  | .deployed => ⟨true, false, true, true⟩
  | _ => ⟨false, false, false, false⟩

def stageToSimpleGroup (stage : Json) : String :=
  match normalizeStage stage with
  | .deployed => "deployed"
  | .pendingApproval => "pending"
  | _ => "not_deployed"

/-- The stage of a row that has none, and whether it was accepted. -/
def inferStateFromLegacyFlags (row : LegacyFlags) : Stage × Bool :=
  if row.isDeployed then (.deployed, true)
  else if row.inquireDeploy then (.pendingApproval, false)
  else if row.isGovernanceAccepted || row.isAdminAccepted then (.revoked, true)
  else (.idle, false)

/-! A row of a workflow, call after call. -/

inductive Call where
  | deploy (approvalRequired : Bool)
  | cancel
  | approval (decision : Json)
  | revoke

def nextStage (currentStage : Json) : Call → Except String Stage
  | .deploy approvalRequired => .ok (nextStageOnUserDeploy currentStage approvalRequired)
  | .cancel => .ok (nextStageOnUserCancel currentStage)
  | .approval decision => nextStageOnApproval currentStage decision
  | .revoke => nextStageOnAdminRevoke currentStage

/-- A transition that raises leaves the row. -/
def stored (stage : Json) (c : Call) : Json :=
  match nextStage stage c with
  | .ok next => .str next.name
  | .error _ => stage

theorem normalizeStage_name (s : Stage) : normalizeStage (.str s.name) = s := by
  cases s <;> decide +kernel

/-- What an approver decided, as the words of the ledger. -/
def Decided (word : String) (c : Call) : Prop :=
  ∃ decision, c = .approval decision ∧ String.ofList (lower (strip decision.textOr).toList) = word

/-- The calls that close a workflow that is open. -/
def Closes (c : Call) : Prop := c = .cancel ∨ c = .revoke

/-- The calls that end a wait for approval. -/
def Settles (c : Call) : Prop :=
  c = .cancel ∨ c = .deploy false ∨ Decided "approved" c ∨ Decided "rejected" c ∨ Decided "canceled" c

def Opens (c : Call) (stage : Json) : Prop :=
  c = .deploy false ∨ (Decided "approved" c ∧ normalizeStage stage = .pendingApproval)

section Steps
variable (stage : Json)

theorem decided_approval {word : String} {decision : Json} :
    Decided word (.approval decision) ↔ String.ofList (lower (strip decision.textOr).toList) = word := by
  simp [Decided]

/-- The stage after a call, told from the stage before it. -/
theorem normalizeStage_stored (c : Call) : normalizeStage (stored stage c) =
    match nextStage stage c with
    | .ok next => next
    | .error _ => normalizeStage stage := by
  unfold stored
  cases nextStage stage c with
  | ok next => exact normalizeStage_name next
  | error _ => rfl

theorem deployed_stored_iff (c : Call) : normalizeStage (stored stage c) = .deployed ↔
    Opens c stage ∨ (normalizeStage stage = .deployed ∧ ¬Closes c) := by
  rw [normalizeStage_stored]
  cases c with
  | deploy approvalRequired =>
    simp only [nextStage, nextStageOnUserDeploy]
    cases approvalRequired <;> by_cases h : normalizeStage stage = .deployed <;> simp [h, Opens, Closes, Decided]
  | cancel => simp [nextStage, nextStageOnUserCancel, Opens, Closes, Decided]
  | revoke =>
    by_cases h : normalizeStage stage = .deployed <;> simp [nextStage, nextStageOnAdminRevoke, h, Opens, Closes, Decided]
  | approval decision =>
    simp only [nextStage, nextStageOnApproval, Opens, Closes, decided_approval]
    by_cases h : normalizeStage stage = .pendingApproval
    · split_ifs <;> simp_all
    · simp [h]

theorem pending_stored_iff (c : Call) : normalizeStage (stored stage c) = .pendingApproval ↔
    (c = .deploy true ∧ normalizeStage stage ≠ .deployed) ∨ (normalizeStage stage = .pendingApproval ∧ ¬Settles c) := by
  rw [normalizeStage_stored]
  cases c with
  | deploy approvalRequired =>
    simp only [nextStage, nextStageOnUserDeploy]
    cases approvalRequired <;> by_cases h : normalizeStage stage = .deployed <;> simp [h, Settles, Decided]
  | cancel => simp [nextStage, nextStageOnUserCancel, Settles]
  | revoke =>
    by_cases h : normalizeStage stage = .deployed <;> simp [nextStage, nextStageOnAdminRevoke, h, Settles, Decided]
  | approval decision =>
    simp only [nextStage, nextStageOnApproval, Settles, decided_approval]
    by_cases h : normalizeStage stage = .pendingApproval
    · split_ifs <;> simp_all
    · simp [h]

end Steps

theorem isDeployed_iff (stage : Json) : (stageToLegacyFlags stage).isDeployed = true ↔ normalizeStage stage = .deployed := by
  unfold stageToLegacyFlags
  cases normalizeStage stage <;> simp

/-- The badge and the access of a row survive the loss of its stage. -/
theorem inferState_stageToLegacyFlags (stage : Json) :
    stageToSimpleGroup (.str (inferStateFromLegacyFlags (stageToLegacyFlags stage)).1.name) = stageToSimpleGroup stage ∧
    stageToLegacyFlags (.str (inferStateFromLegacyFlags (stageToLegacyFlags stage)).1.name) = stageToLegacyFlags stage := by
  unfold stageToSimpleGroup stageToLegacyFlags
  cases normalizeStage stage <;> simp [inferStateFromLegacyFlags, normalizeStage_name]

section Histories
variable {calls : List Call} {stage : Json}

theorem deployed_after : normalizeStage (after stored calls stage) = .deployed ↔
    (normalizeStage stage = .deployed ∧ ∀ c ∈ calls, ¬Closes c) ∨
    ∃ front c rest, calls = front ++ c :: rest ∧ Opens c (after stored front stage) ∧ ∀ d ∈ rest, ¬Closes d :=
  after_latched (P := fun stage => normalizeStage stage = .deployed) (O := Opens) fun c s => deployed_stored_iff s c

theorem pending_after : normalizeStage (after stored calls stage) = .pendingApproval ↔
    (normalizeStage stage = .pendingApproval ∧ ∀ c ∈ calls, ¬Settles c) ∨
    ∃ front c rest, calls = front ++ c :: rest ∧
      (c = .deploy true ∧ normalizeStage (after stored front stage) ≠ .deployed) ∧ ∀ d ∈ rest, ¬Settles d :=
  after_latched (P := fun stage => normalizeStage stage = .pendingApproval)
    (O := fun c stage => c = .deploy true ∧ normalizeStage stage ≠ .deployed) fun c s => pending_stored_iff s c

/-- A workflow is open to the outside just where a deployment without approval or an approval
that was waited for opened it, or it was open, and nobody closed it since. -/
theorem isDeployed_after_iff : (stageToLegacyFlags (after stored calls stage)).isDeployed = true ↔
    ((stageToLegacyFlags stage).isDeployed = true ∧ ∀ c ∈ calls, ¬Closes c) ∨
    ∃ front c rest, calls = front ++ c :: rest ∧ Opens c (after stored front stage) ∧ ∀ d ∈ rest, ¬Closes d := by
  simp only [isDeployed_iff]
  exact deployed_after

/-- Where each deployment asks for approval, a closed workflow opens by a request and the
approval of it, with nothing between them that ends the wait, and stays open until somebody
closes it. -/
theorem approved_before_open (hclosed : stageToSimpleGroup stage = "not_deployed") (hasked : Call.deploy false ∉ calls) :
    (stageToLegacyFlags (after stored calls stage)).isDeployed = true ↔
    ∃ front waiting approved rest, calls = front ++ .deploy true :: waiting ++ approved :: rest ∧
      ¬(stageToLegacyFlags (after stored front stage)).isDeployed = true ∧ (∀ c ∈ waiting, ¬Settles c) ∧
      Decided "approved" approved ∧ ∀ c ∈ rest, ¬Closes c := by
  have hdeployed : normalizeStage stage ≠ .deployed := by
    intro h
    simp [stageToSimpleGroup, h] at hclosed
  have hpending : normalizeStage stage ≠ .pendingApproval := by
    intro h
    simp [stageToSimpleGroup, h] at hclosed
  simp only [isDeployed_iff]
  constructor
  · intro hopen
    obtain ⟨h, -⟩ | ⟨front, c, rest, rfl, rfl | ⟨hc, hwaited⟩, hrest⟩ := deployed_after.mp hopen
    · exact absurd h hdeployed
    · simp at hasked
    · obtain ⟨h, -⟩ | ⟨front, d, waiting, rfl, ⟨rfl, hfront⟩, hwaiting⟩ := pending_after.mp hwaited
      · exact absurd h hpending
      · exact ⟨front, waiting, c, rest, rfl, hfront, hwaiting, hc, hrest⟩
  · rintro ⟨front, waiting, c, rest, rfl, hfront, hwaiting, hc, hrest⟩
    apply deployed_after.mpr
    have hwaited := pending_after.mpr (.inr ⟨front, .deploy true, waiting, rfl, ⟨rfl, hfront⟩, hwaiting⟩)
    exact .inr ⟨_, c, rest, rfl, .inr ⟨hc, hwaited⟩, hrest⟩

theorem approved_before_open_once :
    stageToSimpleGroup .null = "not_deployed" ∧
    ((stageToLegacyFlags (after stored [.deploy true, .approval (.str " Approved ")] .null)).isDeployed = true ↔
    ∃ front waiting approved rest, [.deploy true, .approval (.str " Approved ")] = front ++ .deploy true :: waiting ++ approved :: rest ∧
      ¬(stageToLegacyFlags (after stored front .null)).isDeployed = true ∧ (∀ c ∈ waiting, ¬Settles c) ∧
      Decided "approved" approved ∧ ∀ c ∈ rest, ¬Closes c) :=
  have hclosed : stageToSimpleGroup .null = "not_deployed" := by decide +kernel
  ⟨hclosed, approved_before_open hclosed (by simp)⟩

end Histories
end XgenSdk.Deploy
