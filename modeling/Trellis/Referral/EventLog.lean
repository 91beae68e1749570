import Trellis.Lib.Climb
import Trellis.Referral.Contract
import Trellis.Shared.EventLog

/-!
# The events of the referral contract

The events carry the whole referral program: the tiers and the cap, the graph, the records, and the
rewards that are credited and paid. `enter` reads an event as the change that it stands for, and
refuses one that contradicts the events before it: a credit to another wallet than the referrer of
its tier, a balance that the credits and payments so far do not add up to, a lifetime above the cap,
or a payment of another amount than what is due.

Results:
* `exec_tells`: what a call publishes is entered, and leads to the program after the call.
* `program_from_events`: the program can be rebuilt from the events.
-/

namespace Trellis.Referral

open Exec

variable {me : Address} {X : Type}

/-! ## Reading the events -/

/-- The storage without the addresses of the other contracts, which no event names. -/
def Store.program (s : Store) : Store := { s with treasury := none, registry := none }

/-- The program of the contract. -/
def program (w : World (Linked Store X)) : Store := w.store.own.program

/-- The program after what the event stands for. -/
def enter (s : Store) (e : Event) : Option Store :=
  if e.topics = ["logging", "init"] then
    some { s with maxTiers := some 1, rewardCap := some 0, tierBps := s.tierBps.insert 1 0 }
  else if e.topics = [tierConfigSet] then
    match e.data with
    | [.i128s tierBps, .u32 maxTiers, .i128 rewardCap] =>
      checked (0 < maxTiers ∧ maxTiers ≤ maxSupportedTiers ∧ tierBps.length = maxTiers ∧
          tierBps.sum ≤ maxTierBps)
        { s with
          maxTiers := some maxTiers
          rewardCap := some rewardCap
          tierBps := insertTiers s.tierBps 1 tierBps }
    | _ => none
  else if e.topics = [referrerSet] then
    match e.data with
    | [.address referredWallet, .address referrer] =>
      checked (referredWallet ≠ referrer ∧ s.wouldCreateCycle referredWallet referrer = false)
        { s with referrers := s.referrers.insert referredWallet referrer }
    | _ => none
  else if e.topics = [referralRegistered] then
    match e.data with
    | [.address wallet, .address referrer] =>
      checked (wallet ≠ referrer ∧ s.readReferrer wallet = none ∧
          (s.readReferrer referrer).isSome = true ∧ s.wouldCreateCycle wallet referrer = false)
        { s with
          referrers := s.referrers.insert wallet referrer
          records := s.records.insert wallet ⟨wallet, referrer, 0, 0⟩ }
    | _ => none
  else if e.topics = [referralAccrued] then
    match e.data with
    | [.address referredWallet, .address referrer, .u32 tier, .i128 credited, .i128 accrued,
        .i128 lifetimeAccrued] =>
      checked (0 < credited ∧ climb s.readReferrer tier referredWallet = some referrer ∧
          accrued = s.readAccrued referrer + credited ∧
          lifetimeAccrued = s.readLifetimeAccrued referrer + credited ∧
          ∀ rewardCap ∈ s.rewardCap, lifetimeAccrued ≤ rewardCap)
        { s with
          accrued := s.accrued.insert referrer accrued
          lifetimeAccrued := s.lifetimeAccrued.insert referrer lifetimeAccrued }
    | _ => none
  else if e.topics = [commissionPaid] then
    match e.data with
    | [.address referrer, .i128 amount] =>
      checked (amount ≠ 0 ∧ amount = s.readAccrued referrer)
        { s with accrued := s.accrued.insert referrer 0 }
    | _ => none
  else some s

/-! ## What a call publishes -/

/-- What the events grew by leads from the program of `w` to that of `w'`. -/
abbrev EventsTell (w w' : World (Linked Store X)) : Prop :=
  Recorded enter World.events program w w'

/-- The log grew by one entry that says something of the program, and one that does not. -/
theorem tells_entry {w w' : World (Linked Store X)} {e note : Event}
    (hevents : w'.events = w.events ++ [e, note])
    (hentry : enter (program w) e = some (program w'))
    (hnote : enter (program w') note = some (program w')) : EventsTell w w' :=
  ⟨[e, note], hevents, by rw [replay_cons, hentry, Option.bind_some, replay_cons, hnote,
    Option.bind_some, replay_nil]⟩

section

variable {env : Env me} {w w' : World (Linked Store X)} {caller : Address} {u : Unit}

theorem init_tells {admin : Address} (h : init env admin w = .ok u w') : EventsTell w w' := by
  simp [init] at h
  obtain rfl := h
  exact .entry rfl rfl

theorem setTreasury_tells {treasury : Address} (h : setTreasury env caller treasury w = .ok u w') :
    EventsTell w w' := by
  simp [setTreasury] at h
  obtain ⟨-, rfl⟩ := h
  exact .entry rfl rfl

theorem setRegistry_tells {registry : Address} (h : setRegistry env caller registry w = .ok u w') :
    EventsTell w w' := by
  simp [setRegistry] at h
  obtain ⟨-, rfl⟩ := h
  exact .same rfl rfl

theorem setTierConfig_tells {tierBps : List ℤ} {maxTiers : ℕ} {rewardCap : ℤ}
    (h : setTierConfig env caller tierBps maxTiers rewardCap w = .ok u w') : EventsTell w w' := by
  simp only [setTierConfig, bind_ok, requireAdmin_ok, writeOwn_ok, emit, emitPermissionChanged,
    publish_ok] at h
  obtain ⟨_, w, ⟨-, -, rfl⟩, _, w, hvalidate, _, _, rfl, _, _, rfl, _, w₁, htiers, _, _,
    rfl, rfl⟩ := h
  obtain ⟨hvalid, rfl⟩ := validateTierConfig_ok hvalidate
  obtain rfl := setTiers_ok Nat.one_pos htiers
  have hall : (tierBps.drop (1 - 1)).take maxTiers = tierBps := by
    rw [Nat.sub_self, List.drop_zero, ← hvalid.length, List.take_length]
  rw [hall]
  exact tells_entry (List.append_assoc _ _ _)
    (checked_of ⟨hvalid.pos, hvalid.le, hvalid.length, hvalid.sum⟩ _) rfl

theorem setReferrer_tells {referredWallet referrer : Address}
    (h : setReferrer env caller referredWallet referrer w = .ok u w') : EventsTell w w' := by
  simp [setReferrer] at h
  obtain ⟨-, ⟨hne, hcycle⟩, rfl⟩ := h
  exact tells_entry rfl (checked_of ⟨hne, hcycle⟩ _) rfl

theorem register_tells {wallet referrer : Address} (h : register env wallet referrer w = .ok u w') :
    EventsTell w w' := by
  simp [register] at h
  obtain ⟨-, hne, hnew, hknown, hcycle, rfl⟩ := h
  exact tells_entry rfl
    (checked_of ⟨hne, hnew, Option.isSome_iff_ne_none.mpr hknown, hcycle⟩ _) rfl

theorem claimRewards_tells {callees : Callees X} {referrer : Address} {paid : ℤ}
    (h : claimRewards env callees referrer w = .ok paid w') : EventsTell w w' := by
  simp only [claimRewards, bind_ok, requireAuth_ok, readOwn_ok, ite_ok, pure_ok, writeOwn_ok, emit,
    emitActionExecuted, publish_ok] at h
  obtain ⟨_, w, ⟨-, rfl⟩, _, w, ⟨rfl, rfl⟩, ⟨-, -, rfl⟩ | ⟨hne, h⟩⟩ := h
  · exact .same rfl rfl
  · obtain ⟨treasury, w₁, hfind, _, w₂, hpay, _, _, rfl, _, _, rfl, _, _, rfl, -, rfl⟩ := h
    obtain ⟨x₁, -, rfl⟩ := readTreasury_ok hfind
    obtain ⟨x₂, -, rfl⟩ := callTreasuryDistributeReward_ok hpay
    exact tells_entry (List.append_assoc _ _ _) (checked_of ⟨hne, rfl⟩ _) rfl

/-! ## Accrual -/

/-- A credit publishes the wallet it goes back to, its tier, and the two balances that it leaves. -/
theorem creditReferrer_tells {referredWallet referrer : Address} {tier : ℕ}
    {commission rewardCap credited : ℤ} (hpos : 0 < commission)
    (hcap : w.store.own.rewardCap = some rewardCap)
    (hclimb : climb w.store.own.readReferrer tier referredWallet = some referrer)
    (h : creditReferrer referredWallet referrer tier commission rewardCap w = .ok credited w') :
    EventsTell w w' := by
  simp only [creditReferrer, bind_ok, readOwn_ok, ite_ok, pure_ok, okOr_ok, writeOwn_ok, emit,
    publish_ok, ge_iff_le, Math.safeAdd, Math.safeSub, checkedAdd_eq_some, checkedSub_eq_some] at h
  obtain ⟨_, w, ⟨rfl, rfl⟩, ⟨-, -, rfl⟩ | ⟨hlow, _, w, ⟨⟨-, rfl⟩, rfl⟩, ⟨-, -, rfl⟩ | ⟨hne, h⟩⟩⟩ :=
    h
  · exact .same rfl rfl
  · exact .same rfl rfl
  · obtain ⟨_, w, ⟨rfl, rfl⟩, _, w, ⟨⟨-, rfl⟩, rfl⟩, _, w, ⟨⟨-, rfl⟩, rfl⟩, _, _, rfl, _,
      _, rfl, _, _, rfl, -, rfl⟩ := h
    refine .entry rfl (checked_of ⟨?_, hclimb, rfl, rfl, fun cap hcap' => ?_⟩ _)
    · split_ifs <;> omega
    · obtain rfl : rewardCap = cap := Option.some.inj (hcap.symm.trans hcap')
      show w.store.own.readLifetimeAccrued referrer + _ ≤ _
      split_ifs <;> omega

/-- The loop credits the `tier`-th referrer above the wallet, in order. -/
theorem accrueLoop_tells {rates : List ℤ} {referredWallet current : Address}
    {baseAmount rewardCap total total' : ℤ} {remaining tier : ℕ}
    (hcap : w.store.own.rewardCap = some rewardCap)
    (hclimb : climb w.store.own.readReferrer tier referredWallet = some current)
    (h : accrueLoop rates referredWallet baseAmount rewardCap remaining (tier + 1) current total w =
      .ok total' w') : EventsTell w w' := by
  induction remaining generalizing tier current total w with
  | zero =>
    simp only [accrueLoop, pure_ok] at h
    obtain ⟨-, rfl⟩ := h
    exact .same rfl rfl
  | succ remaining ih =>
    simp only [accrueLoop, bind_ok, readOwn_ok] at h
    obtain ⟨edge, w, ⟨hedge, rfl⟩, h⟩ := h
    cases edge with
    | none =>
      simp only [pure_ok] at h
      obtain ⟨-, rfl⟩ := h
      exact .same rfl rfl
    | some referrer =>
      have hup : climb w.store.own.readReferrer (tier + 1) referredWallet = some referrer := by
        rw [climb_succ', hclimb, Option.bind_some, ← hedge]
      simp only [bind_ok, okOr_ok, ite_ok, pure_ok] at h
      obtain ⟨bps, w, ⟨-, rfl⟩, commission, w, ⟨-, rfl⟩, h⟩ := h
      rcases h with ⟨hpos, credited, w₁, hcredit, _, w₁, ⟨-, rfl⟩, h⟩ | ⟨-, _, w, ⟨-, rfl⟩, h⟩
      · have htells := creditReferrer_tells hpos hcap hup hcredit
        -- a credit changes neither the cap nor the graph
        obtain ⟨-, events, rfl⟩ := creditReferrer_ok hpos hcredit
        refine htells.trans (ih ?_ ?_ h)
        · obtain ⟨_, _, hframe⟩ := credit_frame w.store.own rewardCap referrer commission
          dsimp only
          rw [hframe]
          exact hcap
        · dsimp only
          rw [readReferrer_credit]
          exact hup
      · exact ih hcap hup h

theorem accrue_tells {referredWallet : Address} {baseAmount total : ℤ}
    (h : accrue env caller referredWallet baseAmount w = .ok total w') : EventsTell w w' := by
  simp only [accrue, readMaxTiers, readRewardCap, bind_ok, requireAdmin_ok, failIf_ok, readOwn_ok,
    okOr_ok] at h
  obtain ⟨_, w, ⟨-, -, rfl⟩, _, w, ⟨-, rfl⟩, maxTiers, w, ⟨_, w, ⟨rfl, rfl⟩, -, rfl⟩, rewardCap, w,
    ⟨_, w, ⟨rfl, rfl⟩, hcap, rfl⟩, rates, w, hcache, hloop⟩ := h
  obtain ⟨-, -, rfl⟩ := cacheTierBps_ok hcache
  exact accrueLoop_tells hcap (climb_zero _) hloop

end

/-- What a call publishes is entered, and leads to the program after the call. -/
theorem exec_tells (env : Env me) (c : Entry X) (w : World (Linked Store X)) :
    EventsTell w (exec env c w) := by
  cases c with
  | init => exact commit_induct (.same rfl rfl) fun _ _ => init_tells
  | setTreasury => exact commit_induct (.same rfl rfl) fun _ _ => setTreasury_tells
  | setRegistry => exact commit_induct (.same rfl rfl) fun _ _ => setRegistry_tells
  | setTierConfig => exact commit_induct (.same rfl rfl) fun _ _ => setTierConfig_tells
  | setReferrer => exact commit_induct (.same rfl rfl) fun _ _ => setReferrer_tells
  | register => exact commit_induct (.same rfl rfl) fun _ _ => register_tells
  | accrue => exact commit_induct (.same rfl rfl) fun _ _ => accrue_tells
  | claimRewards => exact commit_induct (.same rfl rfl) fun _ _ => claimRewards_tells

/-! ## Runs from deployment -/

/-- In every state that a run from deployment reaches, whoever called what, however often the
    contract was initialised, and whatever the registries and the treasuries that it called did: no
    event is refused, and the events replay to the whole program. -/
theorem program_from_events (x : X) (tokens : TokenLedger) (steps : List (Step me (Entry X))) :
    replay enter Store.empty (run step (deployed x tokens) steps).events =
      some (program (run step (deployed x tokens) steps)) :=
  replay_reached (P := fun _ => True) (fun _ _ _ => trivial)
    (fun env x w => congrArg (·.own.program) (store_outsideTransfer env x w))
    (fun env c w _ => exec_tells env c w) ⟨Store.empty, x⟩ tokens trivial steps

end Trellis.Referral
