import Trellis.Shared.Auth
import Trellis.Shared.Events

/-!
# Governance contract

Model of contracts/governance-contract/src/lib.rs: a multi-sig over proposals, a catalog of bounded
parameters, and the role table. Holders of `Role.admin` propose, approve and execute; the admin
stored by `init` sets parameters directly.

An approval entry is only ever written with the value `true`; the model keeps the set of them.

Results:
* `executeAction_ok`: executing an action is possible exactly when it is valid, and applies its
  effect.
* `exec_cases`: a call leaves the state alone, or it succeeds; `Done` says what it has checked then
  and which state it leaves.
-/

namespace Trellis.Governance

open Exec

/-! ## Data -/

/-- `ParameterKey` (contracts/governance-contract/src/lib.rs:55–61). -/
inductive ParameterKey where
  | aidDefaultExpiry
  | treasuryWithdrawalLimit
  | referralTierBps (tier : ℕ)
  | referralMaxTiers
  | referralRewardCap
  deriving DecidableEq, Repr

/-- The key as an event carries it. -/
def ParameterKey.toVals : ParameterKey → List Val
  | aidDefaultExpiry => [.symbol "AidDefaultExpiry"]
  | treasuryWithdrawalLimit => [.symbol "TreasuryWithdrawalLimit"]
  | referralTierBps tier => [.symbol "ReferralTierBps", .u32 tier]
  | referralMaxTiers => [.symbol "ReferralMaxTiers"]
  | referralRewardCap => [.symbol "ReferralRewardCap"]

/-- `ParameterBounds` (contracts/governance-contract/src/lib.rs:71–74). -/
structure ParameterBounds where
  min : ℤ
  max : ℤ
  deriving DecidableEq, Repr

/-- `ProposalAction` (contracts/governance-contract/src/lib.rs:89–100). -/
inductive ProposalAction where
  | grantRole (user : Address) (role : Role)
  | revokeRole (user : Address) (role : Role)
  | setParameter (key : ParameterKey) (value : ℤ)
  | pause
  | unpause
  deriving DecidableEq, Repr

/-- `ProposalStatus` (contracts/governance-contract/src/lib.rs:105–108). -/
inductive ProposalStatus where
  | pending
  | executed
  deriving DecidableEq, Repr

/-- `Proposal` (contracts/governance-contract/src/lib.rs:113–120). -/
structure Proposal where
  id : ℕ
  proposer : Address
  action : ProposalAction
  approvalCount : ℕ
  status : ProposalStatus
  createdAt : ℕ
  deriving DecidableEq, Repr

/-- The storage keys of the contract: `KEY_THRESHOLD`, `KEY_ADMIN_SET`, `KEY_PROP_CNT`,
    `(KEY_PROPOSAL, id)`, `(KEY_APPROVAL, id, caller)` and `DataKey::Parameter(key)`. -/
structure Store where
  threshold : Option ℕ
  adminSet : Option (List Address)
  propCnt : Option ℕ
  proposals : Table ℕ Proposal
  approvals : Finset (ℕ × Address)
  params : Table ParameterKey ℤ

/-- The storage of a fresh contract. -/
def Store.empty : Store where
  threshold := none
  adminSet := none
  propCnt := none
  proposals := ∅
  approvals := ∅
  params := ∅

/-- Model of `get_threshold` (contracts/governance-contract/src/lib.rs:250–252). -/
def Store.getThreshold (s : Store) : ℕ := s.threshold.getD 0

/-- Model of `get_admin_set` (contracts/governance-contract/src/lib.rs:255–257). -/
def Store.getAdminSet (s : Store) : List Address := s.adminSet.getD []

/-! ## Parameters -/

/-- Model of `bounds_for` (contracts/governance-contract/src/lib.rs:509–538). -/
def boundsFor : ParameterKey → Option ParameterBounds
  | .aidDefaultExpiry => some ⟨60, 31536000⟩
  | .treasuryWithdrawalLimit => some ⟨0, 1000000000000000000⟩
  | .referralTierBps tier => if tier = 0 ∨ tier > 10 then none else some ⟨0, 10000⟩
  | .referralMaxTiers => some ⟨1, 10⟩
  | .referralRewardCap => some ⟨0, 1000000000000000000⟩

/-- Model of `validate_param` (contracts/governance-contract/src/lib.rs:501–507). -/
def validateParam (key : ParameterKey) (value : ℤ) : Invocation Store Error Unit := do
  let bounds ← okOr (boundsFor key) .invalidArgument
  failIf (value < bounds.min ∨ value > bounds.max) .invalidArgument

/-- The values that `validate_param` lets pass. -/
def ValidParam (key : ParameterKey) (value : ℤ) : Prop :=
  ∃ bounds, boundsFor key = some bounds ∧ bounds.min ≤ value ∧ value ≤ bounds.max

/-- Model of `write_param` (contracts/governance-contract/src/lib.rs:544–546). -/
def writeParam (key : ParameterKey) (value : ℤ) : Invocation Store Error Unit :=
  write fun s => { s with params := s.params.insert key value }

/-- Model of `get_param` (contracts/governance-contract/src/lib.rs:414–416). -/
def Store.getParam (s : Store) (key : ParameterKey) : Except Error ℤ :=
  match s.params.lookup key with
  | some value => .ok value
  | none => .error .notFound

/-- The parameters that `seed_defaults` writes. -/
def defaultParams : List (ParameterKey × ℤ) :=
  [(.aidDefaultExpiry, 604800), (.treasuryWithdrawalLimit, 100000000000),
    (.referralTierBps 1, 500), (.referralTierBps 2, 250), (.referralTierBps 3, 100),
    (.referralMaxTiers, 3), (.referralRewardCap, 10000000000)]

/-- The catalog with the defaults written over it. -/
def seededParams (params : Table ParameterKey ℤ) : Table ParameterKey ℤ :=
  defaultParams.foldl (fun m kv => m.insert kv.1 kv.2) params

/-- Model of `seed_defaults` (contracts/governance-contract/src/lib.rs:463–499). -/
def seedDefaults : Invocation Store Error Unit :=
  write fun s => { s with params := seededParams s.params }

/-! ## Names -/

/-- Model of `action_symbol` (contracts/governance-contract/src/lib.rs:555–563). -/
def actionSymbol : ProposalAction → Symbol
  | .grantRole _ _ => "grt_role"
  | .revokeRole _ _ => "rvk_role"
  | .setParameter _ _ => "set_param"
  | .pause => "pause"
  | .unpause => "unpause"

/-- Model of `role_name` (contracts/governance-contract/src/lib.rs:565–574). -/
def roleName : Role → Symbol
  | .admin => "admin"
  | .upgrader => "upgrader"
  | .treasuryManager => "treas_m"
  | .pauser => "pauser"
  | .referralManager => "refrl_m"
  | .oracleSigner => "oracle_s"

variable {me : Address}

/-! ## Entry points -/

/-- Model of `require_admin_role` (contracts/governance-contract/src/lib.rs:449–451). -/
def requireAdminRole (env : Env me) (caller : Address) : Invocation Store Error Unit :=
  requireRole env caller .admin

/-- The role table with `Role.admin` granted to every address of the list. -/
def grantAdmins (roles : Finset (Address × Role)) (addrs : List Address) :
    Finset (Address × Role) :=
  addrs.foldl (fun rs a => insert (a, Role.admin) rs) roles

/-- Model of `initialize` (contracts/governance-contract/src/lib.rs:142–180). It checks no caller
    and no earlier initialisation. -/
def init (env : Env me) (admin : Address) (threshold : ℕ) (adminSet : List Address) :
    Invocation Store Error Unit := do
  failIf (threshold < 1) .invalidArgument
  failIf (adminSet.length < threshold) .invalidArgument
  setAdmin admin
  writeShared fun s => { s with roles := grantAdmins s.roles adminSet }
  write fun s => { s with threshold := some threshold }
  write fun s => { s with adminSet := some adminSet }
  seedDefaults
  emitModuleInitialized "gov" 1 admin env.timestamp

/-- Model of `grant_role` (contracts/governance-contract/src/lib.rs:187–204). -/
def grantRole (env : Env me) (caller user : Address) (role : Role) :
    Invocation Store Error Unit := do
  requireAdminRole env caller
  writeShared fun s => { s with roles := insert (user, role) s.roles }
  emitRoleGranted caller user (roleName role) env.timestamp

/-- Model of `revoke_role` (contracts/governance-contract/src/lib.rs:207–221). -/
def revokeRole (env : Env me) (caller user : Address) (role : Role) :
    Invocation Store Error Unit := do
  requireAdminRole env caller
  writeShared fun s => { s with roles := s.roles.erase (user, role) }
  emitRoleRevoked caller user (roleName role) env.timestamp

/-- Model of `set_admin_set` (contracts/governance-contract/src/lib.rs:234–247). -/
def setAdminSet (env : Env me) (caller : Address) (newAdminSet : List Address)
    (newThreshold : ℕ) : Invocation Store Error Unit := do
  requireAdminRole env caller
  failIf (newThreshold < 1 ∨ newAdminSet.length < newThreshold) .invalidArgument
  write fun s => { s with threshold := some newThreshold }
  write fun s => { s with adminSet := some newAdminSet }

/-- Model of `propose` (contracts/governance-contract/src/lib.rs:271–299). -/
def propose (env : Env me) (caller : Address) (action : ProposalAction) :
    Invocation Store Error ℕ := do
  requireAdminRole env caller
  let proposalId ← read fun s => s.propCnt.getD 0
  let newId ← okOr (checkedAddU64 proposalId 1) .overflow
  write fun s => { s with propCnt := some newId }
  let proposal : Proposal := ⟨newId, caller, action, 0, .pending, env.timestamp⟩
  write fun s => { s with proposals := s.proposals.insert newId proposal }
  emitProposalCreated newId caller (actionSymbol action) env.timestamp
  pure newId

/-- Model of `approve` (contracts/governance-contract/src/lib.rs:304–337). -/
def approve (env : Env me) (caller : Address) (proposalId : ℕ) : Invocation Store Error Unit := do
  requireAdminRole env caller
  let stored ← read fun s => s.proposals.lookup proposalId
  let proposal ← okOr stored .proposalNotFound
  failIf (proposal.status ≠ .pending) .alreadyExecuted
  let approved ← read fun s => decide ((proposalId, caller) ∈ s.approvals)
  failIf (approved = true) .alreadyApproved
  write fun s => { s with approvals := insert (proposalId, caller) s.approvals }
  let count ← okOr (checkedAddU32 proposal.approvalCount 1) .overflow
  write fun s =>
    { s with proposals := s.proposals.insert proposalId { proposal with approvalCount := count } }
  emitProposalApproved proposalId caller count env.timestamp

/-- Model of `execute_action` (contracts/governance-contract/src/lib.rs:576–603). -/
def executeAction : ProposalAction → Invocation Store Error Unit
  | .grantRole user role => writeShared fun s => { s with roles := insert (user, role) s.roles }
  | .revokeRole user role => writeShared fun s => { s with roles := s.roles.erase (user, role) }
  | .setParameter key value => do
    validateParam key value
    writeParam key value
  | .pause => setPausedFlag true
  | .unpause => setPausedFlag false

/-- Model of `execute` (contracts/governance-contract/src/lib.rs:346–376). -/
def execute (env : Env me) (caller : Address) (proposalId : ℕ) : Invocation Store Error Unit := do
  requireAdminRole env caller
  let stored ← read fun s => s.proposals.lookup proposalId
  let proposal ← okOr stored .proposalNotFound
  failIf (proposal.status = .executed) .alreadyExecuted
  let threshold ← read Store.getThreshold
  failIf (proposal.approvalCount < threshold) .belowThreshold
  executeAction proposal.action
  write fun s =>
    { s with proposals := s.proposals.insert proposalId { proposal with status := .executed } }
  emitProposalExecuted proposalId caller proposal.approvalCount env.timestamp

/-- Model of `require_governance` (contracts/governance-contract/src/lib.rs:455–461). -/
def requireGovernance (env : Env me) (caller : Address) : Invocation Store Error Unit :=
  requireAdmin env caller

/-- Model of `set_param` (contracts/governance-contract/src/lib.rs:389–411). -/
def setParam (env : Env me) (caller : Address) (key : ParameterKey) (value : ℤ) :
    Invocation Store Error Unit := do
  requireGovernance env caller
  validateParam key value
  writeParam key value
  publish ["param_chg"] (key.toVals ++ [.i128 value])
  emitActionExecuted "gov" "set_param" caller true env.timestamp

/-- A call of an entry point that can write. -/
inductive Entry where
  | init (admin : Address) (threshold : ℕ) (adminSet : List Address)
  | grantRole (caller user : Address) (role : Role)
  | revokeRole (caller user : Address) (role : Role)
  | setAdminSet (caller : Address) (newAdminSet : List Address) (newThreshold : ℕ)
  | propose (caller : Address) (action : ProposalAction)
  | approve (caller : Address) (proposalId : ℕ)
  | execute (caller : Address) (proposalId : ℕ)
  | setParam (caller : Address) (key : ParameterKey) (value : ℤ)

/-- The state after a call: committed on `Ok`, rolled back otherwise. -/
def exec (env : Env me) : Entry → World Store → World Store
  | .init admin threshold adminSet => (init env admin threshold adminSet).commit
  | .grantRole caller user role => (grantRole env caller user role).commit
  | .revokeRole caller user role => (revokeRole env caller user role).commit
  | .setAdminSet caller newSet threshold => (setAdminSet env caller newSet threshold).commit
  | .propose caller action => (propose env caller action).commit
  | .approve caller id => (approve env caller id).commit
  | .execute caller id => (execute env caller id).commit
  | .setParam caller key value => (setParam env caller key value).commit

/-- The call returns `Ok`. -/
def Returns (env : Env me) (w : World Store) : Entry → Prop
  | .init admin threshold adminSet => (init env admin threshold adminSet).Succeeds w
  | .grantRole caller user role => (grantRole env caller user role).Succeeds w
  | .revokeRole caller user role => (revokeRole env caller user role).Succeeds w
  | .setAdminSet caller newSet threshold => (setAdminSet env caller newSet threshold).Succeeds w
  | .propose caller action => (propose env caller action).Succeeds w
  | .approve caller id => (approve env caller id).Succeeds w
  | .execute caller id => (execute env caller id).Succeeds w
  | .setParam caller key value => (setParam env caller key value).Succeeds w

/-- A step of the chain as the contract sees it. -/
def step : Step me Entry → World Store → World Store := Step.apply exec

/-! ## When the entry points succeed -/

@[simp] theorem validateParam_ok {key : ParameterKey} {value : ℤ} {w w' : World Store} {u : Unit} :
    validateParam key value w = .ok u w' ↔ ValidParam key value ∧ w' = w := by
  simp only [validateParam, ValidParam, bind_ok, okOr_ok, failIf_ok, not_or, not_lt]
  constructor
  · rintro ⟨bounds, _, ⟨hb, rfl⟩, ⟨hmin, hmax⟩, rfl⟩
    exact ⟨⟨bounds, hb, hmin, hmax⟩, rfl⟩
  · rintro ⟨⟨bounds, hb, hmin, hmax⟩, rfl⟩
    exact ⟨bounds, w', ⟨hb, rfl⟩, ⟨hmin, hmax⟩, rfl⟩

theorem validateParam_fail {key : ParameterKey} {value : ℤ} {w : World Store}
    (h : ¬ ValidParam key value) : validateParam key value w = .fail (.err .invalidArgument) w := by
  cases hend : validateParam key value w with
  | ok u w' => exact absurd (validateParam_ok.mp hend).1 h
  | fail e w' =>
    simp [validateParam] at hend
    rcases hend with ⟨-, rfl, rfl⟩ | ⟨bounds, -, -, rfl, rfl⟩
    · rfl
    · rfl

/-- The condition under which an action can be executed. -/
def ProposalAction.Valid : ProposalAction → Prop
  | .setParameter key value => ValidParam key value
  | _ => True

/-- What an action does to roles, parameters and the pause flag. -/
def ProposalAction.effect (w : World Store) : ProposalAction → World Store
  | .grantRole user role =>
    { w with shared := { w.shared with roles := insert (user, role) w.shared.roles } }
  | .revokeRole user role =>
    { w with shared := { w.shared with roles := w.shared.roles.erase (user, role) } }
  | .setParameter key value =>
    { w with store := { w.store with params := w.store.params.insert key value } }
  | .pause => { w with shared := { w.shared with paused := some true } }
  | .unpause => { w with shared := { w.shared with paused := some false } }

@[simp] theorem executeAction_ok {action : ProposalAction} {w w' : World Store} {u : Unit} :
    executeAction action w = .ok u w' ↔ action.Valid ∧ w' = action.effect w := by
  cases action <;> simp [executeAction, ProposalAction.Valid, ProposalAction.effect, writeParam]

/-- The conditions under which `approve` succeeds, for the proposal `p` stored under `id`. -/
structure CanApprove (w : World Store) (env : Env me) (caller : Address) (id : ℕ)
    (p : Proposal) : Prop where
  role : (caller, Role.admin) ∈ w.shared.roles
  signed : env.signed caller = true
  stored : w.store.proposals.lookup id = some p
  pending : p.status = .pending
  fresh : (id, caller) ∉ w.store.approvals
  room : p.approvalCount + 1 < 2 ^ 32

/-- What a successful call has checked, and the state it leaves. -/
inductive Done (env : Env me) (w : World Store) : Entry → World Store → Prop where
  | init {admin : Address} {threshold : ℕ} {adminSet : List Address} (events : List Event)
      (hpos : 1 ≤ threshold) (hlen : threshold ≤ adminSet.length) :
      Done env w (.init admin threshold adminSet) { w with
        shared := { w.shared with
          admin := some admin
          roles := grantAdmins w.shared.roles adminSet }
        store := { w.store with
          threshold := some threshold
          adminSet := some adminSet
          params := seededParams w.store.params }
        events := events }
  | grantRole {caller user : Address} {role : Role} (events : List Event)
      (hrole : (caller, Role.admin) ∈ w.shared.roles) (hsigned : env.signed caller = true) :
      Done env w (.grantRole caller user role) { w with
        shared := { w.shared with roles := insert (user, role) w.shared.roles }
        events := events }
  | revokeRole {caller user : Address} {role : Role} (events : List Event)
      (hrole : (caller, Role.admin) ∈ w.shared.roles) (hsigned : env.signed caller = true) :
      Done env w (.revokeRole caller user role) { w with
        shared := { w.shared with roles := w.shared.roles.erase (user, role) }
        events := events }
  | setAdminSet {caller : Address} {newSet : List Address} {threshold : ℕ}
      (hrole : (caller, Role.admin) ∈ w.shared.roles) (hsigned : env.signed caller = true)
      (hpos : 1 ≤ threshold) (hlen : threshold ≤ newSet.length) :
      Done env w (.setAdminSet caller newSet threshold) { w with
        store := { w.store with
          threshold := some threshold
          adminSet := some newSet } }
  | propose {caller : Address} {action : ProposalAction} (events : List Event)
      (hrole : (caller, Role.admin) ∈ w.shared.roles) (hsigned : env.signed caller = true) :
      Done env w (.propose caller action) { w with
        store := { w.store with
          propCnt := some (w.store.propCnt.getD 0 + 1)
          proposals := w.store.proposals.insert (w.store.propCnt.getD 0 + 1)
            ⟨w.store.propCnt.getD 0 + 1, caller, action, 0, .pending, env.timestamp⟩ }
        events := events }
  | approve {caller : Address} {id : ℕ} (events : List Event) (p : Proposal)
      (hcan : CanApprove w env caller id p) :
      Done env w (.approve caller id) { w with
        store := { w.store with
          approvals := insert (id, caller) w.store.approvals
          proposals := w.store.proposals.insert id
            { p with approvalCount := p.approvalCount + 1 } }
        events := events }
  | execute {caller : Address} {id : ℕ} (events : List Event) (p : Proposal)
      (hrole : (caller, Role.admin) ∈ w.shared.roles) (hsigned : env.signed caller = true)
      (hp : w.store.proposals.lookup id = some p) (hpending : p.status = .pending)
      (hthreshold : w.store.getThreshold ≤ p.approvalCount) (hvalid : p.action.Valid) :
      Done env w (.execute caller id) { p.action.effect w with
        store := { (p.action.effect w).store with
          proposals := (p.action.effect w).store.proposals.insert id
            { p with status := .executed } }
        events := events }
  | setParam {caller : Address} {key : ParameterKey} {value : ℤ} (events : List Event)
      (hadmin : w.shared.admin = some caller) (hsigned : env.signed caller = true)
      (hvalid : ValidParam key value) :
      Done env w (.setParam caller key value) { w with
        store := { w.store with params := w.store.params.insert key value }
        events := events }

theorem init_done {env : Env me} {admin : Address} {threshold : ℕ} {adminSet : List Address}
    {w w' : World Store} {u : Unit} (h : init env admin threshold adminSet w = .ok u w') :
    Done env w (.init admin threshold adminSet) w' := by
  simp [init, seedDefaults] at h
  obtain ⟨hpos, hlen, rfl⟩ := h
  exact .init _ (by omega) hlen

theorem grantRole_done {env : Env me} {caller user : Address} {role : Role} {w w' : World Store}
    {u : Unit} (h : grantRole env caller user role w = .ok u w') :
    Done env w (.grantRole caller user role) w' := by
  simp [grantRole, requireAdminRole] at h
  obtain ⟨⟨hrole, hsigned⟩, rfl⟩ := h
  exact .grantRole _ hrole hsigned

theorem revokeRole_done {env : Env me} {caller user : Address} {role : Role} {w w' : World Store}
    {u : Unit} (h : revokeRole env caller user role w = .ok u w') :
    Done env w (.revokeRole caller user role) w' := by
  simp [revokeRole, requireAdminRole] at h
  obtain ⟨⟨hrole, hsigned⟩, rfl⟩ := h
  exact .revokeRole _ hrole hsigned

theorem setAdminSet_done {env : Env me} {caller : Address} {newSet : List Address} {threshold : ℕ}
    {w w' : World Store} {u : Unit} (h : setAdminSet env caller newSet threshold w = .ok u w') :
    Done env w (.setAdminSet caller newSet threshold) w' := by
  simp [setAdminSet, requireAdminRole] at h
  obtain ⟨⟨hrole, hsigned⟩, ⟨hpos, hlen⟩, rfl⟩ := h
  exact .setAdminSet hrole hsigned (by omega) hlen

theorem propose_done {env : Env me} {caller : Address} {action : ProposalAction} {id : ℕ}
    {w w' : World Store} (h : propose env caller action w = .ok id w') :
    id = w.store.propCnt.getD 0 + 1 ∧ Done env w (.propose caller action) w' := by
  simp [propose, requireAdminRole] at h
  obtain ⟨⟨hrole, hsigned⟩, -, rfl, rfl⟩ := h
  exact ⟨rfl, .propose _ hrole hsigned⟩

theorem approve_done {env : Env me} {caller : Address} {id : ℕ} {w w' : World Store} {u : Unit}
    (h : approve env caller id w = .ok u w') : Done env w (.approve caller id) w' := by
  simp [approve, requireAdminRole] at h
  obtain ⟨⟨hrole, hsigned⟩, p, hp, hpending, hnew, hcount, rfl⟩ := h
  exact .approve _ p ⟨hrole, hsigned, hp, hpending, hnew, by omega⟩

theorem execute_done {env : Env me} {caller : Address} {id : ℕ} {w w' : World Store} {u : Unit}
    (h : execute env caller id w = .ok u w') : Done env w (.execute caller id) w' := by
  simp [execute, requireAdminRole] at h
  obtain ⟨⟨hrole, hsigned⟩, p, hp, hne, hthreshold, hvalid, rfl⟩ := h
  have hpending : p.status = .pending := by
    cases hs : p.status
    · rfl
    · exact absurd hs hne
  exact .execute _ p hrole hsigned hp hpending hthreshold hvalid

theorem setParam_done {env : Env me} {caller : Address} {key : ParameterKey} {value : ℤ}
    {w w' : World Store} {u : Unit} (h : setParam env caller key value w = .ok u w') :
    Done env w (.setParam caller key value) w' := by
  simp [setParam, requireGovernance, writeParam] at h
  obtain ⟨⟨hadmin, hsigned⟩, hvalid, rfl⟩ := h
  exact .setParam _ hadmin hsigned hvalid

theorem exec_returns (env : Env me) (c : Entry) (w : World Store) :
    (¬ Returns env w c ∧ exec env c w = w) ∨ (Returns env w c ∧ Done env w c (exec env c w)) := by
  cases c with
  | init => exact commit_returns fun _ _ => init_done
  | grantRole => exact commit_returns fun _ _ => grantRole_done
  | revokeRole => exact commit_returns fun _ _ => revokeRole_done
  | setAdminSet => exact commit_returns fun _ _ => setAdminSet_done
  | propose => exact commit_returns fun _ _ h => (propose_done h).2
  | approve => exact commit_returns fun _ _ => approve_done
  | execute => exact commit_returns fun _ _ => execute_done
  | setParam => exact commit_returns fun _ _ => setParam_done

/-- A call leaves the state alone, or it succeeds and does what `Done` says. -/
theorem exec_cases (env : Env me) (c : Entry) (w : World Store) :
    exec env c w = w ∨ Done env w c (exec env c w) :=
  (exec_returns env c w).imp And.right And.right

theorem step_of_returns {env : Env me} {c : Entry} {w : World Store} (h : Returns env w c) :
    Done env w c (step (.call env c) w) := by
  rcases exec_returns env c w with ⟨hfails, -⟩ | ⟨-, hdone⟩
  · exact absurd h hfails
  · exact hdone

/-- A step is a call that returns and does what `Done` says, or it is none and touches no
    storage. -/
theorem step_returns (s : Step me Entry) (w : World Store) :
    (∃ env c, s = .call env c ∧ Returns env w c ∧ Done env w c (step s w)) ∨
      ((∀ env c, s = .call env c → ¬ Returns env w c) ∧ (step s w).store = w.store ∧
        (step s w).shared = w.shared) :=
  Step.cases_returns exec_returns s w

theorem step_cases (s : Step me Entry) (w : World Store) :
    (∃ (env : Env me) (x : TokenTransfer), step s w = outsideTransfer env x w) ∨ step s w = w ∨
      ∃ env c w', s = .call env c ∧ step s w = w' ∧ Done env w c w' :=
  Step.cases exec_cases s w

/-- A property that the successful calls keep is kept by every step. -/
theorem step_induct {P : World Store → Prop} {w : World Store} (hw : P w)
    (hout : ∀ (env : Env me) x, P (outsideTransfer env x w))
    (hdone : ∀ (env : Env me) c w', Done env w c w' → P w') (s : Step me Entry) : P (step s w) := by
  rcases step_cases s w with ⟨env, x, hs⟩ | hs | ⟨env, c, w', -, hs, h⟩
  · rw [hs]
    exact hout env x
  · rwa [hs]
  · rw [hs]
    exact hdone env c w' h

/-- The caller holds `Role.admin` and signs the call. -/
def Acts (env : Env me) (w : World Store) (caller : Address) : Prop :=
  (caller, Role.admin) ∈ w.shared.roles ∧ env.signed caller = true

theorem init_succeeds {env : Env me} {admin : Address} {threshold : ℕ} {adminSet : List Address}
    {w : World Store} (hpos : 1 ≤ threshold) (hlen : threshold ≤ adminSet.length) :
    (init env admin threshold adminSet).Succeeds w := by
  simp [Exec.Succeeds, init, seedDefaults, hlen]
  omega

theorem revokeRole_succeeds {env : Env me} {caller user : Address} {role : Role} {w : World Store}
    (hacts : Acts env w caller) : (revokeRole env caller user role).Succeeds w := by
  simp [Exec.Succeeds, revokeRole, requireAdminRole, hacts.1, hacts.2]

theorem setAdminSet_succeeds {env : Env me} {caller : Address} {newSet : List Address}
    {threshold : ℕ} {w : World Store} (hacts : Acts env w caller) (hpos : 1 ≤ threshold)
    (hlen : threshold ≤ newSet.length) : (setAdminSet env caller newSet threshold).Succeeds w := by
  simp [Exec.Succeeds, setAdminSet, requireAdminRole, hacts.1, hacts.2, hlen]
  omega

theorem propose_succeeds {env : Env me} {caller : Address} {action : ProposalAction}
    {w : World Store} (hacts : Acts env w caller) (hroom : w.store.propCnt.getD 0 + 1 < 2 ^ 64) :
    (propose env caller action).Succeeds w := by
  simp [Exec.Succeeds, propose, requireAdminRole, hacts.1, hacts.2]
  omega

theorem execute_succeeds {env : Env me} {caller : Address} {id : ℕ} {w : World Store} {p : Proposal}
    (hacts : Acts env w caller) (hp : w.store.proposals.lookup id = some p)
    (hpending : p.status = .pending) (hthreshold : w.store.getThreshold ≤ p.approvalCount)
    (hvalid : p.action.Valid) : (execute env caller id).Succeeds w := by
  simp [Exec.Succeeds, execute, requireAdminRole, hacts.1, hacts.2, hp, hpending,
    hthreshold, hvalid]

theorem approve_succeeds {env : Env me} {caller : Address} {id : ℕ} {w : World Store} :
    (approve env caller id).Succeeds w ↔ ∃ p, CanApprove w env caller id p := by
  constructor
  · rintro ⟨u, w', h⟩
    cases approve_done h with
    | approve events p hcan => exact ⟨p, hcan⟩
  · rintro ⟨p, hrole, hsigned, hp, hpending, hnew, hcount⟩
    simp [Exec.Succeeds, approve, requireAdminRole, hrole, hsigned, hp, hpending, hnew]
    omega

/-! ## Frames of an action -/

@[simp] theorem effect_proposals (w : World Store) (a : ProposalAction) :
    (a.effect w).store.proposals = w.store.proposals := by
  cases a <;> rfl

@[simp] theorem effect_approvals (w : World Store) (a : ProposalAction) :
    (a.effect w).store.approvals = w.store.approvals := by
  cases a <;> rfl

@[simp] theorem effect_threshold (w : World Store) (a : ProposalAction) :
    (a.effect w).store.threshold = w.store.threshold := by
  cases a <;> rfl

@[simp] theorem effect_adminSet (w : World Store) (a : ProposalAction) :
    (a.effect w).store.adminSet = w.store.adminSet := by
  cases a <;> rfl

@[simp] theorem effect_propCnt (w : World Store) (a : ProposalAction) :
    (a.effect w).store.propCnt = w.store.propCnt := by
  cases a <;> rfl

@[simp] theorem effect_admin (w : World Store) (a : ProposalAction) :
    (a.effect w).shared.admin = w.shared.admin := by
  cases a <;> rfl

theorem mem_grantAdmins {roles : Finset (Address × Role)} {addrs : List Address}
    {x : Address × Role} :
    x ∈ grantAdmins roles addrs ↔ x ∈ roles ∨ ∃ a ∈ addrs, x = (a, Role.admin) := by
  induction addrs generalizing roles with
  | nil => simp [grantAdmins]
  | cons a addrs ih =>
    have hfold : grantAdmins roles (a :: addrs) =
        grantAdmins (insert (a, Role.admin) roles) addrs := rfl
    rw [hfold, ih]
    simp only [Finset.mem_insert, List.mem_cons]
    constructor
    · rintro ((rfl | h) | ⟨b, hb, rfl⟩)
      · exact .inr ⟨a, .inl rfl, rfl⟩
      · exact .inl h
      · exact .inr ⟨b, .inr hb, rfl⟩
    · rintro (h | ⟨b, rfl | hb, rfl⟩)
      · exact .inl (.inr h)
      · exact .inl (.inl rfl)
      · exact .inr ⟨b, hb, rfl⟩

end Trellis.Governance
