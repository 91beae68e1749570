import Trellis.Lib.Table
import Trellis.Shared.Auth
import Trellis.Shared.Calls
import Trellis.Shared.Events
import Trellis.Shared.Math

/-!
# Referral contract

Model of contracts/referral-contract/src/lib.rs: a graph of referrers, commissions that accrue along
it up to a lifetime cap, and their payment by the treasury. The treasury is configured, or found
through a registry; `Callees` says what these two contracts do.

Results:
* `exec_cases`: a call leaves the state alone, or it succeeds; `Done` says what it has checked then
  and which state it leaves.
* `step_cases`: the same for a step of the chain.
-/

namespace Trellis.Referral

open Exec

/-- `MAX_SUPPORTED_TIERS`. -/
def maxSupportedTiers : ℕ := 10

/-- `MIN_REWARD_CAP`. -/
def minRewardCap : ℤ := 0

/-- `MAX_REWARD_CAP`. -/
def maxRewardCap : ℤ := 1000000000000000000

/-- `MIN_TIER_BPS`. -/
def minTierBps : ℤ := 0

/-- `MAX_TIER_BPS`. -/
def maxTierBps : ℤ := 10000

/-- `ReferralRecord` (contracts/referral-contract/src/lib.rs:43–48). -/
structure ReferralRecord where
  wallet : Address
  referrer : Address
  commission : ℤ
  tier : ℕ
  deriving DecidableEq, Repr

/-- The storage keys `DataKey` of the contract (contracts/referral-contract/src/lib.rs:21–31). -/
structure Store where
  treasury : Option Address
  registry : Option Address
  maxTiers : Option ℕ
  rewardCap : Option ℤ
  tierBps : Table ℕ ℤ
  referrers : Table Address Address
  records : Table Address ReferralRecord
  accrued : Table Address ℤ
  lifetimeAccrued : Table Address ℤ

/-- The storage of a fresh contract. -/
def Store.empty : Store where
  treasury := none
  registry := none
  maxTiers := none
  rewardCap := none
  tierBps := ∅
  referrers := ∅
  records := ∅
  accrued := ∅
  lifetimeAccrued := ∅

/-- Model of `read_referrer` (contracts/referral-contract/src/lib.rs:497–501). -/
def Store.readReferrer (s : Store) (wallet : Address) : Option Address := s.referrers.lookup wallet

/-- Model of `read_referral_record` (contracts/referral-contract/src/lib.rs:504–506), which
    `get_referral_record` returns. -/
def Store.readReferralRecord (s : Store) (wallet : Address) : Option ReferralRecord :=
  s.records.lookup wallet

/-- Model of `read_accrued` (contracts/referral-contract/src/lib.rs:508–513). -/
def Store.readAccrued (s : Store) (referrer : Address) : ℤ := (s.accrued.lookup referrer).getD 0

/-- Model of `read_lifetime_accrued` (contracts/referral-contract/src/lib.rs:515–520). -/
def Store.readLifetimeAccrued (s : Store) (referrer : Address) : ℤ :=
  (s.lifetimeAccrued.lookup referrer).getD 0

/-- The loop of `would_create_cycle`: at most this many steps from `current` up the graph. -/
def Store.climbsTo (s : Store) (referredWallet : Address) : ℕ → Address → Bool
  | 0, _ => false
  | depth + 1, current =>
    if current = referredWallet then true
    else match s.readReferrer current with
      | some next => s.climbsTo referredWallet depth next
      | none => false

/-- Model of `would_create_cycle` (contracts/referral-contract/src/lib.rs:435–449). -/
def Store.wouldCreateCycle (s : Store) (referredWallet referrer : Address) : Bool :=
  s.climbsTo referredWallet maxSupportedTiers referrer

/-- What a registry answers to `get_contract`, and what a treasury does in `distribute_reward`. -/
structure Callees (X : Type) where
  getContract (registry : Address) (name : Symbol) : X → CallResult Error (Address × ℕ) × X
  distributeReward (treasury recipient : Address) (amount : ℤ) : X → CallResult Error Unit × X

variable {me : Address} {X : Type}

/-! ## Configuration -/

/-- Model of `initialize` (contracts/referral-contract/src/lib.rs:88–100). It checks no caller and
    no earlier initialisation. -/
def init (env : Env me) (admin : Address) : Invocation (Linked Store X) Error Unit := do
  setAdmin admin
  writeOwn fun s => { s with maxTiers := some 1 }
  writeOwn fun s => { s with rewardCap := some 0 }
  writeOwn fun s => { s with tierBps := s.tierBps.insert 1 0 }
  emitModuleInitialized "referral" 1 admin env.timestamp

/-- Model of `set_treasury` (contracts/referral-contract/src/lib.rs:103–115). -/
def setTreasury (env : Env me) (caller treasury : Address) :
    Invocation (Linked Store X) Error Unit := do
  requireAdmin env caller
  writeOwn fun s => { s with treasury := some treasury }
  emitActionExecuted "referral" "treasury" caller true env.timestamp

/-- Model of `set_registry` (contracts/referral-contract/src/lib.rs:123–127). -/
def setRegistry (env : Env me) (caller registry : Address) :
    Invocation (Linked Store X) Error Unit := do
  requireAdmin env caller
  writeOwn fun s => { s with registry := some registry }

/-- The loop of `validate_tier_config`: every rate is in bounds and the sum fits. -/
def sumTierBps : ℤ → List ℤ → Except Error ℤ
  | totalBps, [] => .ok totalBps
  | totalBps, bps :: rest =>
    if ¬ (minTierBps ≤ bps ∧ bps ≤ maxTierBps) then .error .invalidArgument
    else match Math.safeAdd totalBps bps with
      | some totalBps => sumTierBps totalBps rest
      | none => .error .overflow

/-- Model of `validate_tier_config` (contracts/referral-contract/src/lib.rs:406–433). -/
def validateTierConfig (tierBps : List ℤ) (maxTiers : ℕ) (rewardCap : ℤ) :
    Invocation (Linked Store X) Error Unit := do
  failIf (maxTiers = 0 ∨ maxTiers > maxSupportedTiers ∨ tierBps.length ≠ maxTiers) .invalidArgument
  failIf (¬ (minRewardCap ≤ rewardCap ∧ rewardCap ≤ maxRewardCap)) .invalidArgument
  let totalBps ← ofExcept (sumTierBps 0 tierBps)
  failIf (totalBps > maxTierBps) .invalidArgument

/-- The loop of `set_tier_config`: writes the rates of the next `remaining` tiers. -/
def setTiers (tierBps : List ℤ) : ℕ → ℕ → Invocation (Linked Store X) Error Unit
  | 0, _ => pure ()
  | remaining + 1, tier => do
    let bps ← okOr tierBps[tier - 1]? .invalidArgument
    writeOwn fun s => { s with tierBps := s.tierBps.insert tier bps }
    setTiers tierBps remaining (tier + 1)

/-- Model of `set_tier_config` (contracts/referral-contract/src/lib.rs:130–169). -/
def setTierConfig (env : Env me) (caller : Address) (tierBps : List ℤ) (maxTiers : ℕ)
    (rewardCap : ℤ) : Invocation (Linked Store X) Error Unit := do
  requireAdmin env caller
  validateTierConfig tierBps maxTiers rewardCap
  writeOwn fun s => { s with maxTiers := some maxTiers }
  writeOwn fun s => { s with rewardCap := some rewardCap }
  setTiers tierBps maxTiers 1
  emit tierConfigSet [.i128s tierBps, .u32 maxTiers, .i128 rewardCap]
  emitPermissionChanged "referral" "tier" caller true env.timestamp

/-! ## The graph -/

/-- Model of `set_referrer` (contracts/referral-contract/src/lib.rs:189–219). -/
def setReferrer (env : Env me) (caller referredWallet referrer : Address) :
    Invocation (Linked Store X) Error Unit := do
  requireAdmin env caller
  let cycle ← readOwn fun s => s.wouldCreateCycle referredWallet referrer
  failIf (referredWallet = referrer ∨ cycle = true) .invalidArgument
  writeOwn fun s => { s with referrers := s.referrers.insert referredWallet referrer }
  emit referrerSet [.address referredWallet, .address referrer]
  emitActionExecuted "referral" "referrer" caller true env.timestamp

/-- Model of `register` (contracts/referral-contract/src/lib.rs:232–285). -/
def register (env : Env me) (wallet referrer : Address) :
    Invocation (Linked Store X) Error Unit := do
  requireAuth env wallet
  failIf (wallet = referrer) .invalidArgument
  let registered ← readOwn fun s => s.readReferrer wallet
  failIf (registered.isSome = true) .invalidArgument
  let known ← readOwn fun s => s.readReferrer referrer
  failIf (known.isNone = true) .invalidArgument
  let cycle ← readOwn fun s => s.wouldCreateCycle wallet referrer
  failIf (cycle = true) .invalidArgument
  writeOwn fun s => { s with referrers := s.referrers.insert wallet referrer }
  writeOwn fun s => { s with records := s.records.insert wallet ⟨wallet, referrer, 0, 0⟩ }
  emit referralRegistered [.address wallet, .address referrer]
  emitActionExecuted "referral" "register" wallet true env.timestamp

/-! ## Accrual -/

/-- Model of `read_max_tiers` (contracts/referral-contract/src/lib.rs:476–481). -/
def readMaxTiers : Invocation (Linked Store X) Error ℕ := do
  let maxTiers ← readOwn Store.maxTiers
  okOr maxTiers .notFound

/-- Model of `read_reward_cap` (contracts/referral-contract/src/lib.rs:483–488). -/
def readRewardCap : Invocation (Linked Store X) Error ℤ := do
  let rewardCap ← readOwn Store.rewardCap
  okOr rewardCap .notFound

/-- Model of `read_tier_bps` (contracts/referral-contract/src/lib.rs:490–495). -/
def readTierBps (tier : ℕ) : Invocation (Linked Store X) Error ℤ := do
  let bps ← readOwn fun s => s.tierBps.lookup tier
  okOr bps .notFound

/-- The first loop of `accrue`: the rates of the next `remaining` tiers. -/
def cacheTierBps : ℕ → ℕ → Invocation (Linked Store X) Error (List ℤ)
  | 0, _ => pure []
  | remaining + 1, tier => do
    let bps ← readTierBps tier
    let rest ← cacheTierBps remaining (tier + 1)
    pure (bps :: rest)

/-- Model of `credit_referrer` (contracts/referral-contract/src/lib.rs:522–575). -/
def creditReferrer (referredWallet referrer : Address) (tier : ℕ) (commission rewardCap : ℤ) :
    Invocation (Linked Store X) Error ℤ := do
  let lifetimeAccrued ← readOwn fun s => s.readLifetimeAccrued referrer
  if lifetimeAccrued ≥ rewardCap then pure 0
  else do
    let remainingCap ← okOr (Math.safeSub rewardCap lifetimeAccrued) .overflow
    let credited := if commission > remainingCap then remainingCap else commission
    if credited = 0 then pure 0
    else do
      let accruedBalance ← readOwn fun s => s.readAccrued referrer
      let newAccruedBalance ← okOr (Math.safeAdd accruedBalance credited) .overflow
      let newLifetimeAccrued ← okOr (Math.safeAdd lifetimeAccrued credited) .overflow
      writeOwn fun s => { s with accrued := s.accrued.insert referrer newAccruedBalance }
      writeOwn fun s => { s with
        lifetimeAccrued := s.lifetimeAccrued.insert referrer newLifetimeAccrued }
      emit referralAccrued [.address referredWallet, .address referrer, .u32 tier, .i128 credited,
        .i128 newAccruedBalance, .i128 newLifetimeAccrued]
      pure credited

/-- The second loop of `accrue`: credits the referrers of the next `remaining` tiers. -/
def accrueLoop (tierBpsCache : List ℤ) (referredWallet : Address) (baseAmount rewardCap : ℤ) :
    ℕ → ℕ → Address → ℤ → Invocation (Linked Store X) Error ℤ
  | 0, _, _, totalCredited => pure totalCredited
  | remaining + 1, tier, currentWallet, totalCredited => do
    let edge ← readOwn fun s => s.readReferrer currentWallet
    match edge with
    | none => pure totalCredited
    | some referrer => do
      let tierBps ← okOr tierBpsCache[tier - 1]? .notFound
      let commission ← okOr (Math.bpsOf baseAmount tierBps) .overflow
      let totalCredited ← if commission > 0 then do
          let credited ← creditReferrer referredWallet referrer tier commission rewardCap
          okOr (Math.safeAdd totalCredited credited) .overflow
        else pure totalCredited
      accrueLoop tierBpsCache referredWallet baseAmount rewardCap remaining (tier + 1) referrer
        totalCredited

/-- Model of `accrue` (contracts/referral-contract/src/lib.rs:297–353). -/
def accrue (env : Env me) (caller referredWallet : Address) (baseAmount : ℤ) :
    Invocation (Linked Store X) Error ℤ := do
  requireAdmin env caller
  failIf (baseAmount ≤ 0) .invalidArgument
  let maxTiers ← readMaxTiers
  let rewardCap ← readRewardCap
  let tierBpsCache ← cacheTierBps maxTiers 1
  accrueLoop tierBpsCache referredWallet baseAmount rewardCap maxTiers 1 referredWallet 0

/-! ## Claims -/

/-- The treasury that `set_treasury` configured. -/
def configuredTreasury : Invocation (Linked Store X) Error Address := do
  let treasury ← readOwn Store.treasury
  okOr treasury .notFound

/-- Model of `read_treasury` (contracts/referral-contract/src/lib.rs:451–474). -/
def readTreasury (callees : Callees X) : Invocation (Linked Store X) Error Address := do
  let configured ← readOwn Store.registry
  match configured with
  | some registry => do
    let result ← tryInvoke (callees.getContract registry "treasury")
    match result with
    | .value (address, _) => pure address
    | _ => configuredTreasury
  | none => configuredTreasury

/-- Model of `call_treasury_distribute_reward` (contracts/referral-contract/src/lib.rs:577–594). -/
def callTreasuryDistributeReward (callees : Callees X) (treasury referrer : Address) (amount : ℤ) :
    Invocation (Linked Store X) Error Unit := do
  let result ← tryInvoke (callees.distributeReward treasury referrer amount)
  match result with
  | .value () => pure ()
  | .mistyped => throwErr .invalidArgument
  | .error e => throwErr e
  | .failed => throwErr .invalidArgument

/-- Model of `claim_rewards` (contracts/referral-contract/src/lib.rs:367–395). -/
def claimRewards (env : Env me) (callees : Callees X) (referrer : Address) :
    Invocation (Linked Store X) Error ℤ := do
  requireAuth env referrer
  let amount ← readOwn fun s => s.readAccrued referrer
  if amount = 0 then pure 0
  else do
    let treasury ← readTreasury callees
    callTreasuryDistributeReward callees treasury referrer amount
    writeOwn fun s => { s with accrued := s.accrued.insert referrer 0 }
    emit commissionPaid [.address referrer, .i128 amount]
    emitActionExecuted "referral" "claim" referrer true env.timestamp
    pure amount

/-- A call of an entry point that can write; one that calls other contracts carries what they do. -/
inductive Entry (X : Type) where
  | init (admin : Address)
  | setTreasury (caller treasury : Address)
  | setRegistry (caller registry : Address)
  | setTierConfig (caller : Address) (tierBps : List ℤ) (maxTiers : ℕ) (rewardCap : ℤ)
  | setReferrer (caller referredWallet referrer : Address)
  | register (wallet referrer : Address)
  | accrue (caller referredWallet : Address) (baseAmount : ℤ)
  | claimRewards (callees : Callees X) (referrer : Address)

/-- The state after a call: committed on `Ok`, rolled back otherwise. -/
def exec (env : Env me) : Entry X → World (Linked Store X) → World (Linked Store X)
  | .init admin => (init env admin).commit
  | .setTreasury caller treasury => (setTreasury env caller treasury).commit
  | .setRegistry caller registry => (setRegistry env caller registry).commit
  | .setTierConfig caller tierBps maxTiers rewardCap =>
    (setTierConfig env caller tierBps maxTiers rewardCap).commit
  | .setReferrer caller referredWallet referrer =>
    (setReferrer env caller referredWallet referrer).commit
  | .register wallet referrer => (register env wallet referrer).commit
  | .accrue caller referredWallet baseAmount => (accrue env caller referredWallet baseAmount).commit
  | .claimRewards callees referrer => (claimRewards env callees referrer).commit

/-- The call returns `Ok`. -/
def Returns (env : Env me) (w : World (Linked Store X)) : Entry X → Prop
  | .init admin => (init env admin).Succeeds w
  | .setTreasury caller treasury => (setTreasury env caller treasury).Succeeds w
  | .setRegistry caller registry => (setRegistry env caller registry).Succeeds w
  | .setTierConfig caller tierBps maxTiers rewardCap =>
    (setTierConfig env caller tierBps maxTiers rewardCap).Succeeds w
  | .setReferrer caller referredWallet referrer =>
    (setReferrer env caller referredWallet referrer).Succeeds w
  | .register wallet referrer => (register env wallet referrer).Succeeds w
  | .accrue caller referredWallet baseAmount =>
    (accrue env caller referredWallet baseAmount).Succeeds w
  | .claimRewards callees referrer => (claimRewards env callees referrer).Succeeds w

/-- A step of the chain as the contract sees it. -/
def step : Step me (Entry X) → World (Linked Store X) → World (Linked Store X) := Step.apply exec

/-- A fresh contract beside other contracts in the state `x`. -/
def deployed (x : X) (tokens : TokenLedger) : World (Linked Store X) :=
  World.deployed ⟨Store.empty, x⟩ tokens

/-! ## What the entry points do -/

/-- The rates of `remaining` tiers from `tier` on, if all are stored. -/
def Store.rates (s : Store) : ℕ → ℕ → Option (List ℤ)
  | 0, _ => some []
  | remaining + 1, tier =>
    (s.tierBps.lookup tier).bind fun bps => (s.rates remaining (tier + 1)).map (bps :: ·)

/-- The referrers above `wallet`, each with the rate of its tier. -/
def Store.tiersUp (s : Store) : List ℤ → Address → List (Address × ℤ)
  | [], _ => []
  | bps :: rest, wallet => match s.readReferrer wallet with
    | none => []
    | some referrer => (referrer, bps) :: s.tiersUp rest referrer

/-- What a commission brings to a referrer: no more than its lifetime cap leaves. -/
def Store.credited (s : Store) (rewardCap : ℤ) (referrer : Address) (commission : ℤ) : ℤ :=
  if commission ≤ 0 ∨ rewardCap ≤ s.readLifetimeAccrued referrer then 0
  else min commission (rewardCap - s.readLifetimeAccrued referrer)

/-- The storage after a commission. -/
def Store.credit (s : Store) (rewardCap : ℤ) (referrer : Address) (commission : ℤ) : Store :=
  if s.credited rewardCap referrer commission = 0 then s
  else { s with
    accrued := s.accrued.insert referrer
      (s.readAccrued referrer + s.credited rewardCap referrer commission)
    lifetimeAccrued := s.lifetimeAccrued.insert referrer
      (s.readLifetimeAccrued referrer + s.credited rewardCap referrer commission) }

/-- The commission of a tier is credited to its referrer. -/
def Credited (baseAmount rewardCap : ℤ) (x : Address × ℤ) (w w' : World (Linked Store X)) : Prop :=
  ∃ commission events, Math.bpsOf baseAmount x.2 = some commission ∧
    w' = { w with
      store := { w.store with own := w.store.own.credit rewardCap x.1 commission }
      events := events }

/-- What `validate_tier_config` accepts. -/
structure ValidTiers (tierBps : List ℤ) (maxTiers : ℕ) (rewardCap : ℤ) : Prop where
  pos : 0 < maxTiers
  le : maxTiers ≤ maxSupportedTiers
  length : tierBps.length = maxTiers
  cap : minRewardCap ≤ rewardCap ∧ rewardCap ≤ maxRewardCap
  bounds : ∀ bps ∈ tierBps, minTierBps ≤ bps ∧ bps ≤ maxTierBps
  sum : tierBps.sum ≤ maxTierBps

/-- The rates are stored from `tier` on. -/
def insertTiers (stored : Table ℕ ℤ) : ℕ → List ℤ → Table ℕ ℤ
  | _, [] => stored
  | tier, bps :: rest => insertTiers (stored.insert tier bps) (tier + 1) rest

/-- The treasury that a claim finds, and the state in which the registry leaves the other
    contracts. -/
def Callees.Finds (callees : Callees X) (s : Store) (x : X) (treasury : Address) (x' : X) : Prop :=
  match s.registry with
  | none => s.treasury = some treasury ∧ x' = x
  | some registry => x' = leftBy (callees.getContract registry "treasury") x ∧
    match (callees.getContract registry "treasury" x).1 with
    | .value found => treasury = found.1
    | _ => s.treasury = some treasury

/-- What a successful call has checked, and the state it leaves. -/
inductive Done (env : Env me) (w : World (Linked Store X)) :
    Entry X → World (Linked Store X) → Prop where
  | init {admin : Address} (events : List Event) :
      Done env w (.init admin) { w with
        shared := { w.shared with admin := some admin }
        store := { w.store with own := { w.store.own with
          maxTiers := some 1
          rewardCap := some 0
          tierBps := w.store.own.tierBps.insert 1 0 } }
        events := events }
  | setTreasury {caller treasury : Address} (events : List Event)
      (hadmin : w.shared.admin = some caller) (hsigned : env.signed caller = true) :
      Done env w (.setTreasury caller treasury) { w with
        store := { w.store with own := { w.store.own with treasury := some treasury } }
        events := events }
  | setRegistry {caller registry : Address} (hadmin : w.shared.admin = some caller)
      (hsigned : env.signed caller = true) :
      Done env w (.setRegistry caller registry) { w with
        store := { w.store with own := { w.store.own with registry := some registry } } }
  | setTierConfig {caller : Address} {tierBps : List ℤ} {maxTiers : ℕ} {rewardCap : ℤ}
      (events : List Event) (hadmin : w.shared.admin = some caller)
      (hsigned : env.signed caller = true) (hvalid : ValidTiers tierBps maxTiers rewardCap) :
      Done env w (.setTierConfig caller tierBps maxTiers rewardCap) { w with
        store := { w.store with own := { w.store.own with
          maxTiers := some maxTiers
          rewardCap := some rewardCap
          tierBps := insertTiers w.store.own.tierBps 1 tierBps } }
        events := events }
  | setReferrer {caller referredWallet referrer : Address} (events : List Event)
      (hadmin : w.shared.admin = some caller) (hsigned : env.signed caller = true)
      (hne : referredWallet ≠ referrer)
      (hcycle : w.store.own.wouldCreateCycle referredWallet referrer = false) :
      Done env w (.setReferrer caller referredWallet referrer) { w with
        store := { w.store with own := { w.store.own with
          referrers := w.store.own.referrers.insert referredWallet referrer } }
        events := events }
  | register {wallet referrer : Address} (events : List Event) (hsigned : env.signed wallet = true)
      (hne : wallet ≠ referrer) (hnew : w.store.own.readReferrer wallet = none)
      (hknown : (w.store.own.readReferrer referrer).isSome = true)
      (hcycle : w.store.own.wouldCreateCycle wallet referrer = false) :
      Done env w (.register wallet referrer) { w with
        store := { w.store with own := { w.store.own with
          referrers := w.store.own.referrers.insert wallet referrer
          records := w.store.own.records.insert wallet ⟨wallet, referrer, 0, 0⟩ } }
        events := events }
  | accrue {caller referredWallet : Address} {baseAmount : ℤ} (w' : World (Linked Store X))
      (maxTiers : ℕ) (rewardCap : ℤ) (rates : List ℤ) (hadmin : w.shared.admin = some caller)
      (hsigned : env.signed caller = true) (hpos : 0 < baseAmount)
      (hmaxTiers : w.store.own.maxTiers = some maxTiers)
      (hcap : w.store.own.rewardCap = some rewardCap)
      (hrates : w.store.own.rates maxTiers 1 = some rates)
      (heach : Each (Credited baseAmount rewardCap)
        (w.store.own.tiersUp rates referredWallet) w w') :
      Done env w (.accrue caller referredWallet baseAmount) w'
  | claimNothing {callees : Callees X} {referrer : Address} (hsigned : env.signed referrer = true)
      (hzero : w.store.own.readAccrued referrer = 0) :
      Done env w (.claimRewards callees referrer) w
  | claimRewards {callees : Callees X} {referrer : Address} (events : List Event)
      (treasury : Address) (x₁ x₂ : X) (hsigned : env.signed referrer = true)
      (hne : w.store.own.readAccrued referrer ≠ 0)
      (hfinds : callees.Finds w.store.own w.store.others treasury x₁)
      (hpaid : callees.distributeReward treasury referrer (w.store.own.readAccrued referrer) x₁ =
        (.value (), x₂)) :
      Done env w (.claimRewards callees referrer) { w with
        store := ⟨{ w.store.own with accrued := w.store.own.accrued.insert referrer 0 }, x₂⟩
        events := events }

/-! ## Inversion -/

theorem sumTierBps_ok {totalBps total : ℤ} {tierBps : List ℤ}
    (h : sumTierBps totalBps tierBps = .ok total) :
    total = totalBps + tierBps.sum ∧ ∀ bps ∈ tierBps, minTierBps ≤ bps ∧ bps ≤ maxTierBps := by
  induction tierBps generalizing totalBps with
  | nil =>
    cases h
    simp
  | cons bps rest ih =>
    unfold sumTierBps at h
    split_ifs at h with hbounds
    split at h
    · rename_i next hnext
      obtain ⟨-, rfl⟩ := checkedAdd_eq_some.mp hnext
      obtain ⟨htotal, hrest⟩ := ih h
      rw [List.sum_cons]
      refine ⟨by omega, ?_⟩
      rintro x hx
      rcases List.mem_cons.mp hx with rfl | hx
      · exact hbounds
      · exact hrest x hx
    · cases h

theorem validateTierConfig_ok {tierBps : List ℤ} {maxTiers : ℕ} {rewardCap : ℤ}
    {w w' : World (Linked Store X)} {u : Unit}
    (h : validateTierConfig tierBps maxTiers rewardCap w = .ok u w') :
    ValidTiers tierBps maxTiers rewardCap ∧ w' = w := by
  simp only [validateTierConfig, bind_ok, failIf_ok, ofExcept_ok, not_or, not_not, not_lt] at h
  obtain ⟨_, _, ⟨⟨hpos, hle, hlength⟩, rfl⟩, _, _, ⟨hcap, rfl⟩, total, _, ⟨hsum, rfl⟩,
    htotal, rfl⟩ :=
    h
  obtain ⟨rfl, hbounds⟩ := sumTierBps_ok hsum
  exact ⟨⟨Nat.pos_of_ne_zero hpos, hle, hlength, hcap, hbounds, by omega⟩, rfl⟩

/-- The loop writes the rates it is given, from the first tier it starts at. -/
theorem setTiers_ok {tierBps : List ℤ} {remaining tier : ℕ} (htier : 0 < tier)
    {w w' : World (Linked Store X)} {u : Unit} (h : setTiers tierBps remaining tier w = .ok u w') :
    w' = { w with store := { w.store with own := { w.store.own with
      tierBps := insertTiers w.store.own.tierBps tier
        ((tierBps.drop (tier - 1)).take remaining) } } } := by
  induction remaining generalizing tier w with
  | zero =>
    simp only [setTiers, pure_ok] at h
    rw [List.take_zero]
    exact h.2
  | succ remaining ih =>
    simp only [setTiers, bind_ok, okOr_ok, writeOwn_ok] at h
    obtain ⟨bps, _, ⟨hbps, rfl⟩, _, _, rfl, h⟩ := h
    obtain ⟨hlt, hget⟩ := List.getElem?_eq_some_iff.mp hbps
    have hdrop : tierBps.drop (tier - 1) = bps :: tierBps.drop tier := by
      rw [List.drop_eq_getElem_cons hlt, hget, Nat.sub_add_cancel htier]
    have hnext := ih (Nat.succ_pos tier) h
    rw [hdrop, List.take_succ_cons]
    exact hnext

theorem cacheTierBps_ok {remaining tier : ℕ} {rates : List ℤ} {w w' : World (Linked Store X)}
    (h : cacheTierBps remaining tier w = .ok rates w') :
    w.store.own.rates remaining tier = some rates ∧ rates.length = remaining ∧ w' = w := by
  induction remaining generalizing tier rates w with
  | zero =>
    simp only [cacheTierBps, pure_ok] at h
    obtain ⟨rfl, rfl⟩ := h
    exact ⟨rfl, rfl, rfl⟩
  | succ remaining ih =>
    simp only [cacheTierBps, readTierBps, bind_ok, readOwn_ok, okOr_ok, pure_ok] at h
    obtain ⟨bps, _, ⟨_, _, ⟨rfl, rfl⟩, hbps, rfl⟩, rest, _, hrest, rfl, rfl⟩ := h
    obtain ⟨hrates, hlength, rfl⟩ := ih hrest
    refine ⟨?_, by rw [List.length_cons, hlength], rfl⟩
    rw [Store.rates, hbps, Option.bind_some, hrates, Option.map_some]

/-- Crediting a referrer adds what its cap leaves of the commission to both of its balances. -/
theorem creditReferrer_ok {referredWallet referrer : Address} {tier : ℕ}
    {commission rewardCap credited : ℤ} (hpos : 0 < commission) {w w' : World (Linked Store X)}
    (h : creditReferrer referredWallet referrer tier commission rewardCap w = .ok credited w') :
    credited = w.store.own.credited rewardCap referrer commission ∧ ∃ events, w' = { w with
      store := { w.store with own := w.store.own.credit rewardCap referrer commission }
      events := events } := by
  simp only [creditReferrer, bind_ok, readOwn_ok, ite_ok, pure_ok, okOr_ok, writeOwn_ok, emit,
    publish_ok, ge_iff_le, Math.safeAdd, Math.safeSub, checkedAdd_eq_some, checkedSub_eq_some] at h
  obtain ⟨_, w, ⟨rfl, rfl⟩, ⟨hcap, rfl, rfl⟩ | ⟨hcap, _, w, ⟨⟨-, rfl⟩, rfl⟩, h⟩⟩ := h
  · have hzero : w'.store.own.credited rewardCap referrer commission = 0 := if_pos (.inr hcap)
    refine ⟨hzero.symm, w'.events, ?_⟩
    rw [Store.credit, if_pos hzero]
  · have hcredited : w.store.own.credited rewardCap referrer commission =
        if commission > rewardCap - w.store.own.readLifetimeAccrued referrer then
          rewardCap - w.store.own.readLifetimeAccrued referrer else commission := by
      have hlive : ¬ (commission ≤ 0 ∨ rewardCap ≤ w.store.own.readLifetimeAccrued referrer) := by
        omega
      unfold Store.credited
      rw [if_neg hlive]
      split_ifs
      · exact min_eq_right (by omega)
      · exact min_eq_left (by omega)
    rw [← hcredited] at h
    rcases h with ⟨hzero, rfl, rfl⟩ | ⟨hne, h⟩
    · refine ⟨hzero.symm, w'.events, ?_⟩
      rw [Store.credit, if_pos hzero]
    · obtain ⟨_, w, ⟨rfl, rfl⟩, _, w, ⟨⟨-, rfl⟩, rfl⟩, _, w, ⟨⟨-, rfl⟩, rfl⟩, _, _, rfl, _,
        _, rfl, _, _, rfl, rfl, rfl⟩ := h
      refine ⟨rfl, ?_⟩
      rw [Store.credit, if_neg hne]
      exact ⟨_, rfl⟩

/-- A commission touches nothing but the two balances. -/
theorem credit_frame (s : Store) (rewardCap : ℤ) (referrer : Address) (commission : ℤ) :
    ∃ accrued lifetimeAccrued, s.credit rewardCap referrer commission =
      { s with accrued := accrued, lifetimeAccrued := lifetimeAccrued } := by
  unfold Store.credit
  split_ifs
  · exact ⟨s.accrued, s.lifetimeAccrued, rfl⟩
  · exact ⟨_, _, rfl⟩

theorem readReferrer_credit (s : Store) (rewardCap : ℤ) (referrer : Address) (commission : ℤ) :
    (s.credit rewardCap referrer commission).readReferrer = s.readReferrer := by
  obtain ⟨accrued, lifetimeAccrued, hframe⟩ := credit_frame s rewardCap referrer commission
  rw [hframe]
  rfl

theorem tiersUp_credit (s : Store) (rewardCap : ℤ) (referrer : Address) (commission : ℤ)
    (rates : List ℤ) (wallet : Address) :
    (s.credit rewardCap referrer commission).tiersUp rates wallet = s.tiersUp rates wallet := by
  induction rates generalizing wallet with
  | nil => rfl
  | cons bps rest ih => simp only [Store.tiersUp, readReferrer_credit, ih]

/-- The loop credits the referrers above the current wallet with the rates of the cache. -/
theorem accrueLoop_ok {rates : List ℤ} {referredWallet : Address} {baseAmount rewardCap : ℤ}
    {remaining tier : ℕ} (htier : 0 < tier) (hlength : rates.length = remaining + (tier - 1))
    {current : Address} {total total' : ℤ} {w w' : World (Linked Store X)}
    (h : accrueLoop rates referredWallet baseAmount rewardCap remaining tier current total w =
      .ok total' w') :
    Each (Credited baseAmount rewardCap) (w.store.own.tiersUp (rates.drop (tier - 1)) current)
      w w' := by
  induction remaining generalizing tier current total w with
  | zero =>
    simp only [accrueLoop, pure_ok] at h
    obtain ⟨-, rfl⟩ := h
    rw [List.drop_eq_nil_of_le (by omega)]
    exact .nil _
  | succ remaining ih =>
    simp only [accrueLoop, bind_ok, readOwn_ok] at h
    obtain ⟨edge, w, ⟨hedge, rfl⟩, h⟩ := h
    have hlt : tier - 1 < rates.length := by omega
    have hdrop : rates.drop (tier - 1) = rates[tier - 1] :: rates.drop tier := by
      rw [List.drop_eq_getElem_cons hlt, Nat.sub_add_cancel htier]
    rw [hdrop, Store.tiersUp, ← hedge]
    cases edge with
    | none =>
      simp only [pure_ok] at h
      obtain ⟨-, rfl⟩ := h
      exact .nil _
    | some referrer =>
      simp only [bind_ok, okOr_ok, ite_ok, pure_ok] at h
      obtain ⟨bps, w, ⟨hbps, rfl⟩, commission, w, ⟨hcommission, rfl⟩, h⟩ := h
      obtain rfl : rates[tier - 1] = bps := by
        rw [List.getElem?_eq_getElem hlt] at hbps
        exact Option.some.inj hbps
      rcases h with ⟨hpos, credited, w₁, hcredit, _, w₁, ⟨-, rfl⟩, h⟩ | ⟨hnot, _, w, ⟨-, rfl⟩, h⟩
      · obtain ⟨-, events, rfl⟩ := creditReferrer_ok hpos hcredit
        have hnext := ih (Nat.succ_pos tier) (by omega) h
        rw [tiersUp_credit] at hnext
        exact .cons ⟨commission, events, hcommission, rfl⟩ hnext
      · have hnext := ih (Nat.succ_pos tier) (by omega) h
        have hzero : w.store.own.credited rewardCap referrer commission = 0 :=
          if_pos (.inl (not_lt.mp hnot))
        refine .cons ⟨commission, w.events, hcommission, ?_⟩ hnext
        rw [Store.credit, if_pos hzero]

theorem init_done {env : Env me} {admin : Address} {w w' : World (Linked Store X)} {u : Unit}
    (h : init env admin w = .ok u w') : Done env w (.init admin) w' := by
  simp [init] at h
  obtain rfl := h
  exact .init _

theorem setTreasury_done {env : Env me} {caller treasury : Address} {w w' : World (Linked Store X)}
    {u : Unit} (h : setTreasury env caller treasury w = .ok u w') :
    Done env w (.setTreasury caller treasury) w' := by
  simp [setTreasury] at h
  obtain ⟨⟨hadmin, hsigned⟩, rfl⟩ := h
  exact .setTreasury _ hadmin hsigned

theorem setRegistry_done {env : Env me} {caller registry : Address} {w w' : World (Linked Store X)}
    {u : Unit} (h : setRegistry env caller registry w = .ok u w') :
    Done env w (.setRegistry caller registry) w' := by
  simp [setRegistry] at h
  obtain ⟨⟨hadmin, hsigned⟩, rfl⟩ := h
  exact .setRegistry hadmin hsigned

theorem setTierConfig_done {env : Env me} {caller : Address} {tierBps : List ℤ} {maxTiers : ℕ}
    {rewardCap : ℤ} {w w' : World (Linked Store X)} {u : Unit}
    (h : setTierConfig env caller tierBps maxTiers rewardCap w = .ok u w') :
    Done env w (.setTierConfig caller tierBps maxTiers rewardCap) w' := by
  simp only [setTierConfig, bind_ok, requireAdmin_ok, writeOwn_ok, emit, emitPermissionChanged,
    publish_ok] at h
  obtain ⟨_, w, ⟨hadmin, hsigned, rfl⟩, _, w, hvalidate, _, _, rfl, _, _, rfl, _, w₁, htiers, _, _,
    rfl, rfl⟩ := h
  obtain ⟨hvalid, rfl⟩ := validateTierConfig_ok hvalidate
  obtain rfl := setTiers_ok Nat.one_pos htiers
  have hall : (tierBps.drop (1 - 1)).take maxTiers = tierBps := by
    rw [Nat.sub_self, List.drop_zero, ← hvalid.length, List.take_length]
  rw [hall]
  exact .setTierConfig _ hadmin hsigned hvalid

theorem setReferrer_done {env : Env me} {caller referredWallet referrer : Address}
    {w w' : World (Linked Store X)} {u : Unit}
    (h : setReferrer env caller referredWallet referrer w = .ok u w') :
    Done env w (.setReferrer caller referredWallet referrer) w' := by
  simp [setReferrer] at h
  obtain ⟨⟨hadmin, hsigned⟩, ⟨hne, hcycle⟩, rfl⟩ := h
  exact .setReferrer _ hadmin hsigned hne hcycle

theorem register_done {env : Env me} {wallet referrer : Address} {w w' : World (Linked Store X)}
    {u : Unit} (h : register env wallet referrer w = .ok u w') :
    Done env w (.register wallet referrer) w' := by
  simp [register] at h
  obtain ⟨hsigned, hne, hnew, hknown, hcycle, rfl⟩ := h
  exact .register _ hsigned hne hnew (Option.isSome_iff_ne_none.mpr hknown) hcycle

theorem accrue_done {env : Env me} {caller referredWallet : Address} {baseAmount total : ℤ}
    {w w' : World (Linked Store X)}
    (h : accrue env caller referredWallet baseAmount w = .ok total w') :
    Done env w (.accrue caller referredWallet baseAmount) w' := by
  simp only [accrue, readMaxTiers, readRewardCap, bind_ok, requireAdmin_ok, failIf_ok, readOwn_ok,
    okOr_ok, not_le] at h
  obtain ⟨_, w, ⟨hadmin, hsigned, rfl⟩, _, w, ⟨hpos, rfl⟩, maxTiers, w,
    ⟨_, w, ⟨rfl, rfl⟩, hmaxTiers,
    rfl⟩, rewardCap, w, ⟨_, w, ⟨rfl, rfl⟩, hcap, rfl⟩, rates, w, hcache, hloop⟩ := h
  obtain ⟨hrates, hlength, rfl⟩ := cacheTierBps_ok hcache
  have heach := accrueLoop_ok Nat.one_pos (by omega) hloop
  exact .accrue w' maxTiers rewardCap rates hadmin hsigned hpos hmaxTiers hcap hrates heach

theorem configuredTreasury_ok {w w' : World (Linked Store X)} {treasury : Address} :
    configuredTreasury w = .ok treasury w' ↔ w.store.own.treasury = some treasury ∧ w' = w := by
  simp only [configuredTreasury, bind_ok, readOwn_ok, okOr_ok]
  constructor
  · rintro ⟨_, w, ⟨rfl, rfl⟩, htreasury, rfl⟩
    exact ⟨htreasury, rfl⟩
  · rintro ⟨htreasury, rfl⟩
    exact ⟨_, _, ⟨rfl, rfl⟩, htreasury, rfl⟩

theorem readTreasury_ok {callees : Callees X} {w w' : World (Linked Store X)} {treasury : Address}
    (h : readTreasury callees w = .ok treasury w') :
    ∃ x, callees.Finds w.store.own w.store.others treasury x ∧
      w' = { w with store := { w.store with others := x } } := by
  simp only [readTreasury, bind_ok, readOwn_ok] at h
  obtain ⟨configured, w, ⟨hconfigured, rfl⟩, h⟩ := h
  unfold Callees.Finds
  rw [← hconfigured]
  cases configured with
  | none =>
    obtain ⟨htreasury, rfl⟩ := configuredTreasury_ok.mp h
    exact ⟨_, ⟨htreasury, rfl⟩, rfl⟩
  | some registry =>
    simp only [bind_ok, tryInvoke_ok] at h
    obtain ⟨result, _, ⟨hresult, rfl⟩, h⟩ := h
    dsimp only
    rw [← hresult]
    cases result with
    | value found =>
      obtain ⟨rfl, rfl⟩ := pure_ok.mp h
      exact ⟨_, ⟨rfl, rfl⟩, rfl⟩
    | mistyped | error | failed =>
      obtain ⟨htreasury, rfl⟩ := configuredTreasury_ok.mp h
      exact ⟨_, ⟨rfl, htreasury⟩, rfl⟩

theorem callTreasuryDistributeReward_ok {callees : Callees X} {treasury referrer : Address}
    {amount : ℤ} {w w' : World (Linked Store X)} {u : Unit}
    (h : callTreasuryDistributeReward callees treasury referrer amount w = .ok u w') :
    ∃ x, callees.distributeReward treasury referrer amount w.store.others = (.value (), x) ∧
      w' = { w with store := { w.store with others := x } } := by
  simp only [callTreasuryDistributeReward, bind_ok, tryInvoke_ok] at h
  obtain ⟨result, _, ⟨hresult, rfl⟩, h⟩ := h
  cases result with
  | value v =>
    obtain ⟨-, rfl⟩ := pure_ok.mp h
    exact ⟨_, leftBy_value hresult.symm, rfl⟩
  | mistyped | error | failed => exact absurd h throwErr_ok

theorem claimRewards_done {env : Env me} {callees : Callees X} {referrer : Address} {paid : ℤ}
    {w w' : World (Linked Store X)} (h : claimRewards env callees referrer w = .ok paid w') :
    Done env w (.claimRewards callees referrer) w' := by
  simp only [claimRewards, bind_ok, requireAuth_ok, readOwn_ok, ite_ok, pure_ok, writeOwn_ok, emit,
    emitActionExecuted, publish_ok] at h
  obtain ⟨_, w, ⟨hsigned, rfl⟩, _, w, ⟨rfl, rfl⟩, ⟨hzero, -, rfl⟩ | ⟨hne, h⟩⟩ := h
  · exact .claimNothing hsigned hzero
  · obtain ⟨treasury, w₁, hfind, _, w₂, hpay, _, _, rfl, _, _, rfl, _, _, rfl, -, rfl⟩ := h
    obtain ⟨x₁, hfinds, rfl⟩ := readTreasury_ok hfind
    obtain ⟨x₂, hpaid, rfl⟩ := callTreasuryDistributeReward_ok hpay
    exact .claimRewards _ treasury x₁ x₂ hsigned hne hfinds hpaid

theorem claimRewards_paid {env : Env me} {callees : Callees X} {referrer : Address} {paid : ℤ}
    {w w' : World (Linked Store X)} (h : claimRewards env callees referrer w = .ok paid w') :
    paid = w.store.own.readAccrued referrer := by
  simp only [claimRewards, bind_ok, requireAuth_ok, readOwn_ok, ite_ok, pure_ok] at h
  obtain ⟨_, w, ⟨-, rfl⟩, _, w, ⟨rfl, rfl⟩, ⟨hzero, rfl, rfl⟩ | ⟨-, h⟩⟩ := h
  · exact hzero.symm
  · obtain ⟨_, _, -, _, _, -, _, _, -, _, _, -, _, _, -, rfl, -⟩ := h
    rfl

/-! ## Commissions -/

theorem readAccrued_credit (s : Store) (rewardCap : ℤ) (referrer : Address) (commission : ℤ)
    (a : Address) : (s.credit rewardCap referrer commission).readAccrued a =
      s.readAccrued a + if a = referrer then s.credited rewardCap referrer commission else 0 := by
  unfold Store.credit
  by_cases hzero : s.credited rewardCap referrer commission = 0
  · rw [if_pos hzero, hzero, ite_self, add_zero]
  · rw [if_neg hzero]
    exact Table.getD_lookup_add s.accrued referrer a _

theorem readLifetimeAccrued_credit (s : Store) (rewardCap : ℤ) (referrer : Address)
    (commission : ℤ) (a : Address) :
    (s.credit rewardCap referrer commission).readLifetimeAccrued a =
      s.readLifetimeAccrued a +
        if a = referrer then s.credited rewardCap referrer commission else 0 := by
  unfold Store.credit
  by_cases hzero : s.credited rewardCap referrer commission = 0
  · rw [if_pos hzero, hzero, ite_self, add_zero]
  · rw [if_neg hzero]
    exact Table.getD_lookup_add s.lifetimeAccrued referrer a _

/-- A commission is not negative, and brings no lifetime balance above the cap. -/
theorem credited_bounds (s : Store) (rewardCap : ℤ) (referrer : Address) (commission : ℤ) :
    0 ≤ s.credited rewardCap referrer commission ∧
      (s.credited rewardCap referrer commission = 0 ∨
        s.readLifetimeAccrued referrer + s.credited rewardCap referrer commission ≤ rewardCap) := by
  unfold Store.credited
  split_ifs with hnone
  · exact ⟨le_rfl, .inl rfl⟩
  · omega

theorem frame_of_credited {baseAmount rewardCap : ℤ} {xs : List (Address × ℤ)}
    {w w' : World (Linked Store X)} (h : Each (Credited baseAmount rewardCap) xs w w') :
    ∃ accrued lifetimeAccrued events, w' = { w with
      store := { w.store with
        own := { w.store.own with accrued := accrued, lifetimeAccrued := lifetimeAccrued } }
      events := events } := by
  induction h with
  | nil w => exact ⟨w.store.own.accrued, w.store.own.lifetimeAccrued, w.events, rfl⟩
  | @cons x _ w _ _ hx _ ih =>
    obtain ⟨commission, events, -, rfl⟩ := hx
    obtain ⟨accrued, lifetimeAccrued, events', rfl⟩ := ih
    obtain ⟨accrued', lifetimeAccrued', hframe⟩ := credit_frame w.store.own rewardCap x.1 commission
    rw [hframe]
    exact ⟨accrued, lifetimeAccrued, events', rfl⟩

theorem config_of_credited {baseAmount rewardCap : ℤ} {xs : List (Address × ℤ)}
    {w w' : World (Linked Store X)} (h : Each (Credited baseAmount rewardCap) xs w w') :
    w'.store.own.maxTiers = w.store.own.maxTiers ∧
      w'.store.own.rewardCap = w.store.own.rewardCap := by
  obtain ⟨accrued, lifetimeAccrued, events, rfl⟩ := frame_of_credited h
  exact ⟨rfl, rfl⟩

theorem exec_returns (env : Env me) (c : Entry X) (w : World (Linked Store X)) :
    (¬ Returns env w c ∧ exec env c w = w) ∨ (Returns env w c ∧ Done env w c (exec env c w)) := by
  cases c with
  | init => exact commit_returns fun _ _ => init_done
  | setTreasury => exact commit_returns fun _ _ => setTreasury_done
  | setRegistry => exact commit_returns fun _ _ => setRegistry_done
  | setTierConfig => exact commit_returns fun _ _ => setTierConfig_done
  | setReferrer => exact commit_returns fun _ _ => setReferrer_done
  | register => exact commit_returns fun _ _ => register_done
  | accrue => exact commit_returns fun _ _ => accrue_done
  | claimRewards => exact commit_returns fun _ _ => claimRewards_done

/-- A call leaves the state alone, or it succeeds and does what `Done` says. -/
theorem exec_cases (env : Env me) (c : Entry X) (w : World (Linked Store X)) :
    exec env c w = w ∨ Done env w c (exec env c w) :=
  (exec_returns env c w).imp And.right And.right

/-- A step is a call that returns and does what `Done` says, or it is none and touches no
    storage. -/
theorem step_cases (s : Step me (Entry X)) (w : World (Linked Store X)) :
    (∃ env c, s = .call env c ∧ Returns env w c ∧ Done env w c (step s w)) ∨
      ((∀ env c, s = .call env c → ¬ Returns env w c) ∧ (step s w).store = w.store ∧
        (step s w).shared = w.shared) :=
  Step.cases_returns exec_returns s w

end Trellis.Referral
