import Trellis.Lib.Run
import Trellis.Treasury.Contract

/-!
# Who can take from the treasury

Three entry points lower a balance, each under a guard of its own, and the roles, the limit, the
referral contract and the pause flag that the guards look at change during a run.

Results:
* `outflow_step`: a step that lowers a balance is one of the three, and its guard holds in the state
  it is taken in.
* `isManager_step_iff`: who holds the role of a treasury manager after a step.
* `outflow_authorised`: the two for every step and every state of a run after one `initialize`.
-/

namespace Trellis.Treasury

open Exec

variable {me : Address}

/-- The address holds the role of a treasury manager. -/
def IsManager (w : World Store) (a : Address) : Prop := (a, Role.treasuryManager) ∈ w.shared.roles

instance (w : World Store) (a : Address) : Decidable (IsManager w a) :=
  inferInstanceAs (Decidable (_ ∈ w.shared.roles))

/-- The step takes `amount` from the category, and who signed it was entitled to in the state
    `w`. -/
inductive Outflow (w : World Store) : Step me Entry → Symbol → ℤ → Prop where
  | withdraw {env : Env me} {caller dst : Address} {amount : ℤ} {category : Symbol}
      (hmanager : IsManager w caller) (hsigned : env.signed caller = true) (hpos : 0 < amount)
      (hlimit : amount ≤ w.store.withdrawalLimit) :
      Outflow w (.call env (.withdraw caller dst amount category)) category amount
  | distributeReward {env : Env me} {recipient referral : Address} {amount : ℤ}
      (hreferral : w.store.referralContract = some referral)
      (hsigned : env.signed referral = true) :
      Outflow w (.call env (.distributeReward recipient amount)) rewardsCategory amount
  | emergencyWithdraw {env : Env me} {caller dst : Address} {amount : ℤ}
      (hadmin : w.shared.admin = some caller) (hsigned : env.signed caller = true)
      (hpaused : w.shared.paused.getD false = true) :
      Outflow w (.call env (.emergencyWithdraw caller dst amount)) reserveCategory amount

/-- The amount by which the step lowers the balance of the category. -/
def taken (w : World Store) (s : Step me Entry) (category : Symbol) : ℤ :=
  w.store.categoryBalance category - (step s w).store.categoryBalance category

theorem eq_of_setBalance_lower {s : Store} {category k : Symbol} {balance : ℤ}
    (h : (s.setBalance category balance).categoryBalance k < s.categoryBalance k) :
    k = category ∧ (s.setBalance category balance).categoryBalance k = balance := by
  rw [Store.categoryBalance_setBalance] at h ⊢
  split_ifs at h ⊢ with hk
  · exact ⟨hk, rfl⟩
  · omega

theorem outflow_done {env : Env me} {w w' : World Store} {c : Entry} (hdone : Done env w c w')
    {k : Symbol} (hlower : w'.store.categoryBalance k < w.store.categoryBalance k) :
    Outflow w (.call env c) k (w.store.categoryBalance k - w'.store.categoryBalance k) := by
  cases hdone with
  | init | addTreasuryManager | removeTreasuryManager | setWithdrawalLimit | setReferralContract =>
    exact absurd hlower (lt_irrefl _)
  | deposit hpos =>
    obtain ⟨rfl, hbalance⟩ := eq_of_setBalance_lower hlower
    rw [hbalance] at hlower
    omega
  | withdraw hpos hlimit hbalance hrole hsigned =>
    obtain ⟨rfl, hbalance⟩ := eq_of_setBalance_lower hlower
    rw [hbalance, sub_sub_cancel]
    exact .withdraw hrole hsigned hpos hlimit
  | emergencyWithdraw hpos hpaused hbalance hadmin hsigned =>
    obtain ⟨rfl, hbalance⟩ := eq_of_setBalance_lower hlower
    rw [hbalance, sub_sub_cancel]
    exact .emergencyWithdraw hadmin hsigned hpaused
  | distributeReward referral hpos hbalance hreferral hsigned =>
    obtain ⟨rfl, hbalance⟩ := eq_of_setBalance_lower hlower
    rw [hbalance, sub_sub_cancel]
    exact .distributeReward hreferral hsigned

/-- A step that lowers a balance has passed the guard of one of the three entry points that do. -/
theorem outflow_step {w : World Store} {s : Step me Entry} {k : Symbol} (hlower : 0 < taken w s k) :
    Outflow w s k (taken w s k) := by
  have hlt : (step s w).store.categoryBalance k < w.store.categoryBalance k := by
    unfold taken at hlower
    omega
  unfold taken
  rcases step_cases s w with ⟨env, x, hstep⟩ | hstep | ⟨env, c, w', rfl, hstep, hdone⟩
  · rw [hstep, store_outsideTransfer] at hlt
    omega
  · rw [hstep] at hlt
    omega
  · rw [hstep] at hlt ⊢
    exact outflow_done hdone hlt

/-! ## The managers -/

/-- The step calls `initialize`. -/
def Initializes : Step me Entry → Prop
  | .call _ (.init _ _) => True
  | _ => False

/-- The admin grants the role of a treasury manager to `a`, and has signed. -/
def Grants (admin a : Address) : Step me Entry → Prop
  | .call env (.addTreasuryManager caller who) =>
    caller = admin ∧ who = a ∧ env.signed admin = true
  | _ => False

/-- The admin revokes the role of a treasury manager from `a`, and has signed. -/
def Revokes (admin a : Address) : Step me Entry → Prop
  | .call env (.removeTreasuryManager caller who) =>
    caller = admin ∧ who = a ∧ env.signed admin = true
  | _ => False

theorem admin_step {w : World Store} {s : Step me Entry} (hs : ¬ Initializes s) :
    (step s w).shared.admin = w.shared.admin := by
  rcases step_cases s w with ⟨env, x, hstep⟩ | hstep | ⟨env, c, w', rfl, hstep, hdone⟩
  · rw [hstep, shared_outsideTransfer]
  · rw [hstep]
  · rw [hstep]
    cases hdone with
    | init => exact absurd trivial hs
    | addTreasuryManager | removeTreasuryManager | setWithdrawalLimit | deposit | withdraw
    | emergencyWithdraw | setReferralContract | distributeReward => rfl

theorem isManager_of_grants {w : World Store} {s : Step me Entry} {admin a : Address}
    (hadmin : w.shared.admin = some admin) (hs : Grants admin a s) : IsManager (step s w) a := by
  unfold Grants at hs
  split at hs
  case h_1 env caller who =>
    obtain ⟨rfl, rfl, hsigned⟩ := hs
    have hsucceeds : (addTreasuryManager env caller who).Succeeds w := by
      refine ⟨(), ?_⟩
      simp [addTreasuryManager, hadmin, hsigned]
    have hdone : Done env w (.addTreasuryManager caller who)
        (step (.call env (.addTreasuryManager caller who)) w) :=
      commit_of_succeeds (fun _ _ => addTreasuryManager_done) hsucceeds
    generalize step (.call env (.addTreasuryManager caller who)) w = w' at hdone ⊢
    cases hdone with
    | addTreasuryManager => exact Finset.mem_insert_self _ _
  case h_2 => exact hs.elim

theorem not_isManager_of_revokes {w : World Store} {s : Step me Entry} {admin a : Address}
    (hadmin : w.shared.admin = some admin) (hs : Revokes admin a s) : ¬ IsManager (step s w) a := by
  unfold Revokes at hs
  split at hs
  case h_1 env caller who =>
    obtain ⟨rfl, rfl, hsigned⟩ := hs
    have hsucceeds : (removeTreasuryManager env caller who).Succeeds w := by
      refine ⟨(), ?_⟩
      simp [removeTreasuryManager, hadmin, hsigned]
    have hdone : Done env w (.removeTreasuryManager caller who)
        (step (.call env (.removeTreasuryManager caller who)) w) :=
      commit_of_succeeds (fun _ _ => removeTreasuryManager_done) hsucceeds
    generalize step (.call env (.removeTreasuryManager caller who)) w = w' at hdone ⊢
    cases hdone with
    | removeTreasuryManager => exact Finset.notMem_erase _ _
  case h_2 => exact hs.elim

/-- Any other step but `initialize` leaves the role of `a` alone. -/
theorem isManager_of_neither {w : World Store} {s : Step me Entry} {admin a : Address}
    (hadmin : w.shared.admin = some admin) (hs : ¬ Initializes s) (hgrants : ¬ Grants admin a s)
    (hrevokes : ¬ Revokes admin a s) : IsManager (step s w) a ↔ IsManager w a := by
  rcases step_cases s w with ⟨env, x, hstep⟩ | hstep | ⟨env, c, w', rfl, hstep, hdone⟩
  · unfold IsManager
    rw [hstep, shared_outsideTransfer]
  · rw [hstep]
  · rw [hstep]
    cases hdone with
    | init => exact absurd trivial hs
    | @addTreasuryManager caller who hcaller hsigned =>
      obtain rfl : admin = caller := Option.some.inj (hadmin.symm.trans hcaller)
      have hne : (a, Role.treasuryManager) ≠ (who, Role.treasuryManager) := by
        intro heq
        exact hgrants ⟨rfl, (congrArg Prod.fst heq).symm, hsigned⟩
      exact Finset.mem_insert.trans (or_iff_right hne)
    | @removeTreasuryManager caller who hcaller hsigned =>
      obtain rfl : admin = caller := Option.some.inj (hadmin.symm.trans hcaller)
      have hne : (a, Role.treasuryManager) ≠ (who, Role.treasuryManager) := by
        intro heq
        exact hrevokes ⟨rfl, (congrArg Prod.fst heq).symm, hsigned⟩
      exact Finset.mem_erase.trans (and_iff_right hne)
    | setWithdrawalLimit | deposit | withdraw | emergencyWithdraw | setReferralContract
    | distributeReward => rfl

/-- After a step that is no `initialize`, the managers are those before and the one whom the admin
    granted the role, less the one from whom the admin revoked it. -/
theorem isManager_step_iff {w : World Store} {s : Step me Entry} {admin : Address} (a : Address)
    (hadmin : w.shared.admin = some admin) (hs : ¬ Initializes s) :
    IsManager (step s w) a ↔ Grants admin a s ∨ IsManager w a ∧ ¬ Revokes admin a s := by
  by_cases hgrants : Grants admin a s
  · exact iff_of_true (isManager_of_grants hadmin hgrants) (.inl hgrants)
  · by_cases hrevokes : Revokes admin a s
    · refine iff_of_false (not_isManager_of_revokes hadmin hrevokes) ?_
      rintro (hnow | ⟨-, hnot⟩)
      · exact hgrants hnow
      · exact hnot hrevokes
    · rw [isManager_of_neither hadmin hs hgrants hrevokes]
      simp [hgrants, hrevokes]

/-- Who took from the treasury in a run from the state `w`, where the admin is the only manager, and
    who is a manager at its end. -/
structure OutflowAuthority (admin : Address) (w : World Store) (steps : List (Step me Entry)) :
    Prop where
  outflow (x : World Store × Step me Entry) (category : Symbol) : x ∈ trace step w steps →
    0 < taken x.1 x.2 category → Outflow x.1 x.2 category (taken x.1 x.2 category)
  isManager_iff (a : Address) : IsManager (run step w steps) a ↔
    (a = admin ∧ ∀ s ∈ steps, ¬ Revokes admin a s) ∨
      ∃ pre s post, steps = pre ++ s :: post ∧ Grants admin a s ∧ ∀ s' ∈ post, ¬ Revokes admin a s'

/-- A condition on the inputs alone holds of all the steps of a trace when it holds of all
    inputs. -/
theorem forall_trace_iff {P : Step me Entry → Prop} {w : World Store}
    {steps : List (Step me Entry)} :
    (∀ x ∈ trace step w steps, P x.2) ↔ ∀ s ∈ steps, P s := by
  induction steps generalizing w with
  | nil => simp
  | cons s steps ih =>
    simp only [trace_cons, List.forall_mem_cons]
    rw [ih]

/-- After one `initialize` of a fresh treasury, every step that lowers a balance has passed the
    guard of its entry point in its own state, and the managers are those whom the admin's calls
    made so. -/
theorem outflow_authorised {env : Env me} {admin : Address} {limit : ℤ} {tokens : TokenLedger}
    {w : World Store} (hinit : init env admin limit (deployed tokens) = .ok () w)
    {steps : List (Step me Entry)} (honce : ∀ s ∈ steps, ¬ Initializes s) :
    OutflowAuthority admin w steps := by
  have hstart : w.shared.admin = some admin ∧ ∀ a, IsManager w a ↔ a = admin := by
    cases init_done hinit with
    | init hpos =>
      refine ⟨rfl, ?_⟩
      intro a
      show (a, Role.treasuryManager) ∈ insert (admin, Role.treasuryManager) ∅ ↔ a = admin
      simp
  constructor
  · intro x category _ hpos
    exact outflow_step hpos
  · intro a
    rw [run_iff_set_since (P := fun w : World Store => w.shared.admin = some admin)
      (F := fun w => IsManager w a) (N := fun _ s => ¬ Initializes s)
        (S := fun _ s => Grants admin a s)
      (C := fun _ s => Revokes admin a s) (fun w s hadmin hs => (admin_step hs).trans hadmin)
      (fun w s hadmin hs => isManager_step_iff a hadmin hs) hstart.1 (forall_trace_iff.mpr honce),
      hstart.2 a, forall_trace_iff (P := fun s => ¬ Revokes admin a s)]
    refine or_congr_right
      (exists_congr fun pre => exists_congr fun s => exists_congr fun post => ?_)
    rw [forall_trace_iff (P := fun s => ¬ Revokes admin a s)]

/-- The admin `⟨1⟩` makes `⟨2⟩` a manager, who deposits 50 and withdraws 20, and steps down as a
    manager itself. -/
def managedRun : List (Step ⟨0⟩ Entry) :=
  [.call (.signedBy ⟨0⟩ 1 1 [⟨1⟩]) (.addTreasuryManager ⟨1⟩ ⟨2⟩),
    .call (.signedBy ⟨0⟩ 2 2 [⟨2⟩]) (.deposit ⟨2⟩ "ops" 50),
    .call (.signedBy ⟨0⟩ 3 3 [⟨2⟩]) (.withdraw ⟨2⟩ ⟨3⟩ 20 "ops"),
    .call (.signedBy ⟨0⟩ 4 4 [⟨1⟩]) (.removeTreasuryManager ⟨1⟩ ⟨1⟩)]

/-- The state after `initialize` with the admin `⟨1⟩` and the limit 100. -/
def opened : World Store :=
  (init (.signedBy ⟨0⟩ 1 1 []) ⟨1⟩ 100).commit (deployed (.ofList []))

theorem outflow_authorised_managed : OutflowAuthority ⟨1⟩ opened managedRun :=
  @outflow_authorised ⟨0⟩ (.signedBy ⟨0⟩ 1 1 []) ⟨1⟩ 100 (.ofList []) opened rfl managedRun
    (by simp [managedRun, Initializes])

end Trellis.Treasury
