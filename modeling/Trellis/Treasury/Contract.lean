import Trellis.Lib.Table
import Trellis.Shared.Auth
import Trellis.Shared.Events

/-!
# Treasury contract

Model of contracts/treasury-contract/src/lib.rs: a book of balances by category. No token moves; a
deposit credits a category and a withdrawal debits one.

Results:
* `exec_cases`: a call leaves the state alone, or it succeeds; `Done` says what it has checked then
  and which state it leaves.
* `step_cases`: the same for a step of the chain.
-/

namespace Trellis.Treasury

open Exec

/-- `RESERVE_CATEGORY`. -/
def reserveCategory : Symbol := "reserve"

/-- `REWARDS_CATEGORY`. -/
def rewardsCategory : Symbol := "rewards"

/-- The storage keys of the contract: `(BALANCE, category)`, `MAX_WD` and `REFERRAL_CONTRACT`. -/
structure Store where
  balances : Table Symbol ℤ
  maxWd : Option ℤ
  referralContract : Option Address

/-- The storage of a fresh contract. -/
def Store.empty : Store where
  balances := ∅
  maxWd := none
  referralContract := none

/-- Model of `category_balance` (contracts/treasury-contract/src/lib.rs:126–128). -/
def Store.categoryBalance (s : Store) (category : Symbol) : ℤ := (s.balances.lookup category).getD 0

/-- Model of `withdrawal_limit` (contracts/treasury-contract/src/lib.rs:131–133). -/
def Store.withdrawalLimit (s : Store) : ℤ := s.maxWd.getD 0

/-- Writes the balance of a category. -/
def Store.setBalance (s : Store) (category : Symbol) (balance : ℤ) : Store :=
  { s with balances := s.balances.insert category balance }

theorem Store.categoryBalance_setBalance (s : Store) (category : Symbol) (balance : ℤ)
    (c : Symbol) :
    (s.setBalance category balance).categoryBalance c =
      if c = category then balance else s.categoryBalance c := by
  unfold Store.categoryBalance Store.setBalance
  rw [Table.lookup_set]
  split_ifs <;> rfl

variable {me : Address}

/-! ## Entry points -/

/-- Model of `initialize` (contracts/treasury-contract/src/lib.rs:35–54). It checks no caller and no
    earlier initialisation. -/
def init (env : Env me) (admin : Address) (maxWithdrawalLimit : ℤ) :
    Invocation Store Error Unit := do
  failIf (maxWithdrawalLimit ≤ 0) .invalidArgument
  setAdmin admin
  writeShared fun s => { s with roles := insert (admin, .treasuryManager) s.roles }
  write fun s => { s with maxWd := some maxWithdrawalLimit }
  emitModuleInitialized "treasury" 1 admin env.timestamp

/-- Model of `add_treasury_manager` (contracts/treasury-contract/src/lib.rs:57–68). -/
def addTreasuryManager (env : Env me) (caller who : Address) : Invocation Store Error Unit := do
  grantRole env caller who .treasuryManager
  emitPermissionChanged "treasury" "manager" who true env.timestamp

/-- Model of `remove_treasury_manager` (contracts/treasury-contract/src/lib.rs:71–82). -/
def removeTreasuryManager (env : Env me) (caller who : Address) : Invocation Store Error Unit := do
  revokeRole env caller who .treasuryManager
  emitPermissionChanged "treasury" "manager" who false env.timestamp

/-- Model of `set_withdrawal_limit` (contracts/treasury-contract/src/lib.rs:85–100). -/
def setWithdrawalLimit (env : Env me) (caller : Address) (newLimit : ℤ) :
    Invocation Store Error Unit := do
  requireAdmin env caller
  failIf (newLimit ≤ 0) .invalidArgument
  write fun s => { s with maxWd := some newLimit }
  emitActionExecuted "treasury" "wd_limit" caller true env.timestamp

/-- Model of `deposit` (contracts/treasury-contract/src/lib.rs:103–123). -/
def deposit (env : Env me) (caller : Address) (category : Symbol) (amount : ℤ) :
    Invocation Store Error Unit := do
  failIf (amount ≤ 0) .invalidArgument
  requireRole env caller .treasuryManager
  let balance ← read fun s => s.categoryBalance category
  let newBalance ← okOr (checkedAdd balance amount) .overflow
  write fun s => s.setBalance category newBalance
  emitTreasuryDeposit category caller amount newBalance
  emitActionExecuted "treasury" "deposit" caller true env.timestamp

/-- Model of `withdraw` (contracts/treasury-contract/src/lib.rs:145–187). The subtraction is guarded
    by the comparison with the balance and cannot overflow. -/
def withdraw (env : Env me) (caller dst : Address) (amount : ℤ) (category : Symbol) :
    Invocation Store Error Unit := do
  failIf (amount ≤ 0) .invalidArgument
  let limit ← read Store.withdrawalLimit
  failIf (amount > limit) .withdrawalLimitExceeded
  let balance ← read fun s => s.categoryBalance category
  failIf (amount > balance) .insufficientBalance
  requireRole env caller .treasuryManager
  write fun s => s.setBalance category (balance - amount)
  emitTreasuryWithdrawal category dst amount (balance - amount)
  emitActionExecuted "treasury" "withdraw" caller true env.timestamp

/-- Model of `emergency_withdraw` (contracts/treasury-contract/src/lib.rs:199–240). -/
def emergencyWithdraw (env : Env me) (caller dst : Address) (amount : ℤ) :
    Invocation Store Error Unit := do
  failIf (amount ≤ 0) .invalidArgument
  let paused ← isPaused
  failIf (paused = false) .notPaused
  let balance ← read fun s => s.categoryBalance reserveCategory
  let newBalance ← okOr (checkedSub balance amount) .insufficientBalance
  failIf (newBalance < 0) .insufficientBalance
  requireAdmin env caller
  write fun s => s.setBalance reserveCategory newBalance
  emit treasuryEmergencyWithdraw [.address caller, .address dst, .i128 amount]
  emitActionExecuted "treasury" "emrg_wd" caller true env.timestamp

/-- Model of `set_referral_contract` (contracts/treasury-contract/src/lib.rs:244–260). -/
def setReferralContract (env : Env me) (caller referralContract : Address) :
    Invocation Store Error Unit := do
  requireAdmin env caller
  write fun s => { s with referralContract := some referralContract }
  emitActionExecuted "treasury" "ref_ctr" caller true env.timestamp

/-- Model of `distribute_reward` (contracts/treasury-contract/src/lib.rs:283–314). The subtraction
    is guarded by the comparison with the balance and cannot overflow. -/
def distributeReward (env : Env me) (recipient : Address) (amount : ℤ) :
    Invocation Store Error Unit := do
  failIf (amount ≤ 0) .invalidArgument
  let balance ← read fun s => s.categoryBalance rewardsCategory
  failIf (amount > balance) .insufficientBalance
  let registered ← read Store.referralContract
  let referralContract ← okOr registered .unauthorized
  requireAuth env referralContract
  write fun s => s.setBalance rewardsCategory (balance - amount)
  emitCommissionPaid recipient amount env.timestamp
  emitActionExecuted "treasury" "reward" recipient true env.timestamp

/-- A call of an entry point that can write. -/
inductive Entry where
  | init (admin : Address) (maxWithdrawalLimit : ℤ)
  | addTreasuryManager (caller who : Address)
  | removeTreasuryManager (caller who : Address)
  | setWithdrawalLimit (caller : Address) (newLimit : ℤ)
  | deposit (caller : Address) (category : Symbol) (amount : ℤ)
  | withdraw (caller dst : Address) (amount : ℤ) (category : Symbol)
  | emergencyWithdraw (caller dst : Address) (amount : ℤ)
  | setReferralContract (caller referralContract : Address)
  | distributeReward (recipient : Address) (amount : ℤ)

/-- The state after a call: committed on `Ok`, rolled back otherwise. -/
def exec (env : Env me) : Entry → World Store → World Store
  | .init admin limit => (init env admin limit).commit
  | .addTreasuryManager caller who => (addTreasuryManager env caller who).commit
  | .removeTreasuryManager caller who => (removeTreasuryManager env caller who).commit
  | .setWithdrawalLimit caller limit => (setWithdrawalLimit env caller limit).commit
  | .deposit caller category amount => (deposit env caller category amount).commit
  | .withdraw caller dst amount category => (withdraw env caller dst amount category).commit
  | .emergencyWithdraw caller dst amount => (emergencyWithdraw env caller dst amount).commit
  | .setReferralContract caller referral => (setReferralContract env caller referral).commit
  | .distributeReward recipient amount => (distributeReward env recipient amount).commit

/-- A step of the chain as the contract sees it. -/
def step : Step me Entry → World Store → World Store := Step.apply exec

/-- A fresh contract on a chain with these token balances. -/
def deployed (tokens : TokenLedger) : World Store := World.deployed Store.empty tokens

/-! ## What the entry points do -/

/-- The entry of `emit_action_executed` in the log of the treasury. -/
def loggedAction (action : Symbol) (caller : Address) (executedAt : ℕ) : Event :=
  ⟨["logging", "action"],
    [.symbol "treasury", .symbol action, .address caller, .bool true, .u64 executedAt]⟩

/-- The entry of `emit_permission_changed` in the log of the treasury. -/
def loggedManager (who : Address) (granted : Bool) (changedAt : ℕ) : Event :=
  ⟨["logging", "perm"],
    [.symbol "treasury", .symbol "manager", .address who, .bool granted, .u64 changedAt]⟩

/-- What a successful call has checked, and the state it leaves. -/
inductive Done (env : Env me) (w : World Store) : Entry → World Store → Prop where
  | init {admin : Address} {limit : ℤ} (hpos : 0 < limit) :
      Done env w (.init admin limit) { w with
        shared := { w.shared with
          admin := some admin
          roles := insert (admin, .treasuryManager) w.shared.roles }
        store := { w.store with maxWd := some limit }
        events := w.events ++ [⟨["logging", "init"],
          [.symbol "treasury", .u32 1, .address admin, .u64 env.timestamp]⟩] }
  | addTreasuryManager {caller who : Address} (hadmin : w.shared.admin = some caller)
      (hsigned : env.signed caller = true) :
      Done env w (.addTreasuryManager caller who) { w with
        shared := { w.shared with roles := insert (who, .treasuryManager) w.shared.roles }
        events := w.events ++ [loggedManager who true env.timestamp] }
  | removeTreasuryManager {caller who : Address} (hadmin : w.shared.admin = some caller)
      (hsigned : env.signed caller = true) :
      Done env w (.removeTreasuryManager caller who) { w with
        shared := { w.shared with roles := w.shared.roles.erase (who, .treasuryManager) }
        events := w.events ++ [loggedManager who false env.timestamp] }
  | setWithdrawalLimit {caller : Address} {limit : ℤ} (hadmin : w.shared.admin = some caller)
      (hsigned : env.signed caller = true) (hpos : 0 < limit) :
      Done env w (.setWithdrawalLimit caller limit) { w with
        store := { w.store with maxWd := some limit }
        events := w.events ++ [loggedAction "wd_limit" caller env.timestamp] }
  | deposit {caller : Address} {category : Symbol} {amount : ℤ} (hpos : 0 < amount)
      (hrole : (caller, Role.treasuryManager) ∈ w.shared.roles) (hsigned : env.signed caller = true)
      (hfits : InI128 (w.store.categoryBalance category + amount)) :
      Done env w (.deposit caller category amount) { w with
        store := w.store.setBalance category (w.store.categoryBalance category + amount)
        events := w.events ++ [⟨["treasury", "deposit"], [.symbol category, .address caller,
          .i128 amount, .i128 (w.store.categoryBalance category + amount)]⟩,
            loggedAction "deposit" caller env.timestamp] }
  | withdraw {caller dst : Address} {amount : ℤ} {category : Symbol} (hpos : 0 < amount)
      (hlimit : amount ≤ w.store.withdrawalLimit)
      (hbalance : amount ≤ w.store.categoryBalance category)
      (hrole : (caller, Role.treasuryManager) ∈ w.shared.roles)
      (hsigned : env.signed caller = true) :
      Done env w (.withdraw caller dst amount category) { w with
        store := w.store.setBalance category (w.store.categoryBalance category - amount)
        events := w.events ++ [⟨["treasury", "withdraw"], [.symbol category, .address dst,
          .i128 amount, .i128 (w.store.categoryBalance category - amount)]⟩,
            loggedAction "withdraw" caller env.timestamp] }
  | emergencyWithdraw {caller dst : Address} {amount : ℤ} (hpos : 0 < amount)
      (hpaused : w.shared.paused.getD false = true)
      (hbalance : amount ≤ w.store.categoryBalance reserveCategory)
      (hadmin : w.shared.admin = some caller) (hsigned : env.signed caller = true) :
      Done env w (.emergencyWithdraw caller dst amount) { w with
        store := w.store.setBalance reserveCategory
          (w.store.categoryBalance reserveCategory - amount)
        events := w.events ++
          [⟨[treasuryEmergencyWithdraw], [.address caller, .address dst, .i128 amount]⟩,
            loggedAction "emrg_wd" caller env.timestamp] }
  | setReferralContract {caller referral : Address} (hadmin : w.shared.admin = some caller)
      (hsigned : env.signed caller = true) :
      Done env w (.setReferralContract caller referral) { w with
        store := { w.store with referralContract := some referral }
        events := w.events ++ [loggedAction "ref_ctr" caller env.timestamp] }
  | distributeReward {recipient : Address} {amount : ℤ} (referral : Address) (hpos : 0 < amount)
      (hbalance : amount ≤ w.store.categoryBalance rewardsCategory)
      (hreferral : w.store.referralContract = some referral)
      (hsigned : env.signed referral = true) :
      Done env w (.distributeReward recipient amount) { w with
        store := w.store.setBalance rewardsCategory
          (w.store.categoryBalance rewardsCategory - amount)
        events := w.events ++
          [⟨["comm", "paid"], [.address recipient, .i128 amount, .u64 env.timestamp]⟩,
            loggedAction "reward" recipient env.timestamp] }

theorem init_done {env : Env me} {admin : Address} {limit : ℤ} {w w' : World Store} {u : Unit}
    (h : init env admin limit w = .ok u w') : Done env w (.init admin limit) w' := by
  simp [init] at h
  obtain ⟨hpos, rfl⟩ := h
  exact .init hpos

theorem addTreasuryManager_done {env : Env me} {caller who : Address} {w w' : World Store}
    {u : Unit} (h : addTreasuryManager env caller who w = .ok u w') :
    Done env w (.addTreasuryManager caller who) w' := by
  simp [addTreasuryManager] at h
  obtain ⟨⟨hadmin, hsigned⟩, rfl⟩ := h
  exact .addTreasuryManager hadmin hsigned

theorem removeTreasuryManager_done {env : Env me} {caller who : Address} {w w' : World Store}
    {u : Unit} (h : removeTreasuryManager env caller who w = .ok u w') :
    Done env w (.removeTreasuryManager caller who) w' := by
  simp [removeTreasuryManager] at h
  obtain ⟨⟨hadmin, hsigned⟩, rfl⟩ := h
  exact .removeTreasuryManager hadmin hsigned

theorem setWithdrawalLimit_done {env : Env me} {caller : Address} {limit : ℤ} {w w' : World Store}
    {u : Unit} (h : setWithdrawalLimit env caller limit w = .ok u w') :
    Done env w (.setWithdrawalLimit caller limit) w' := by
  simp [setWithdrawalLimit] at h
  obtain ⟨⟨hadmin, hsigned⟩, hpos, rfl⟩ := h
  exact .setWithdrawalLimit hadmin hsigned hpos

theorem deposit_done {env : Env me} {caller : Address} {category : Symbol} {amount : ℤ}
    {w w' : World Store} {u : Unit} (h : deposit env caller category amount w = .ok u w') :
    Done env w (.deposit caller category amount) w' := by
  simp [deposit] at h
  obtain ⟨hpos, ⟨hrole, hsigned⟩, hfits, rfl⟩ := h
  exact .deposit hpos hrole hsigned hfits

theorem withdraw_done {env : Env me} {caller dst : Address} {amount : ℤ} {category : Symbol}
    {w w' : World Store} {u : Unit} (h : withdraw env caller dst amount category w = .ok u w') :
    Done env w (.withdraw caller dst amount category) w' := by
  simp [withdraw] at h
  obtain ⟨hpos, hlimit, hbalance, ⟨hrole, hsigned⟩, rfl⟩ := h
  exact .withdraw hpos hlimit hbalance hrole hsigned

theorem emergencyWithdraw_done {env : Env me} {caller dst : Address} {amount : ℤ}
    {w w' : World Store} {u : Unit} (h : emergencyWithdraw env caller dst amount w = .ok u w') :
    Done env w (.emergencyWithdraw caller dst amount) w' := by
  simp [emergencyWithdraw] at h
  obtain ⟨hpos, hpaused, -, hbalance, ⟨hadmin, hsigned⟩, rfl⟩ := h
  exact .emergencyWithdraw hpos hpaused (by omega) hadmin hsigned

theorem setReferralContract_done {env : Env me} {caller referral : Address} {w w' : World Store}
    {u : Unit} (h : setReferralContract env caller referral w = .ok u w') :
    Done env w (.setReferralContract caller referral) w' := by
  simp [setReferralContract] at h
  obtain ⟨⟨hadmin, hsigned⟩, rfl⟩ := h
  exact .setReferralContract hadmin hsigned

theorem distributeReward_done {env : Env me} {recipient : Address} {amount : ℤ}
    {w w' : World Store} {u : Unit} (h : distributeReward env recipient amount w = .ok u w') :
    Done env w (.distributeReward recipient amount) w' := by
  simp [distributeReward] at h
  obtain ⟨hpos, hbalance, referral, hreferral, hsigned, rfl⟩ := h
  exact .distributeReward referral hpos hbalance hreferral hsigned

theorem categoryBalance_distributeReward {env : Env me} {recipient : Address} {amount : ℤ}
    {w w' : World Store} {u : Unit} (h : distributeReward env recipient amount w = .ok u w')
    (category : Symbol) : w'.store.categoryBalance category =
      w.store.categoryBalance category - if category = rewardsCategory then amount else 0 := by
  cases distributeReward_done h with
  | distributeReward =>
    rw [Store.categoryBalance_setBalance]
    split_ifs with hcategory
    · rw [hcategory]
    · rw [sub_zero]

/-- A call leaves the state alone, or it succeeds and does what `Done` says. -/
theorem exec_cases (env : Env me) (c : Entry) (w : World Store) :
    exec env c w = w ∨ Done env w c (exec env c w) := by
  cases c with
  | init => exact commit_imp fun _ _ => init_done
  | addTreasuryManager => exact commit_imp fun _ _ => addTreasuryManager_done
  | removeTreasuryManager => exact commit_imp fun _ _ => removeTreasuryManager_done
  | setWithdrawalLimit => exact commit_imp fun _ _ => setWithdrawalLimit_done
  | deposit => exact commit_imp fun _ _ => deposit_done
  | withdraw => exact commit_imp fun _ _ => withdraw_done
  | emergencyWithdraw => exact commit_imp fun _ _ => emergencyWithdraw_done
  | setReferralContract => exact commit_imp fun _ _ => setReferralContract_done
  | distributeReward => exact commit_imp fun _ _ => distributeReward_done

/-- A step is a transfer made by others, or leaves the state alone, or is a call that does what
    `Done` says. -/
theorem step_cases (s : Step me Entry) (w : World Store) :
    (∃ (env : Env me) (x : TokenTransfer), step s w = outsideTransfer env x w) ∨ step s w = w ∨
      ∃ env c w', s = .call env c ∧ step s w = w' ∧ Done env w c w' :=
  Step.cases exec_cases s w

end Trellis.Treasury
