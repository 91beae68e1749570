import Trellis.Suite.Admin

/-!
# The pause flag of the treasury and of the marketplace

`emergency_withdraw` of the treasury works while the contract is paused only, and the marketplace
asks in most entry points that it is not paused. Both look at the flag of the shared crate. No entry
point of the two writes it, so neither is ever paused.

Results:
* `paused_step` for each of the two: a step keeps the flag.
* `never_paused`: from no state of a run can the admin, or anyone else, pause one of the two, and no
  `emergency_withdraw` ever returns.
-/

namespace Trellis

variable {me : Address} {S C : Type}

/-- Every step of the run from `w` is a call signed by the admin that is stored then. -/
def AdminCalls (step : Step me C → World S → World S) (w : World S) (steps : List (Step me C)) :
    Prop :=
  ∀ x ∈ trace step w steps, ∃ env c admin, x.2 = .call env c ∧ x.1.shared.admin = some admin ∧
    env.signed admin = true

/-- The admin can pause the contract by some calls. -/
def CanPause (me : Address) (step : Step me C → World S → World S) (w : World S) : Prop :=
  ∃ steps, AdminCalls step w steps ∧ (run step w steps).IsPaused

theorem not_isPaused_run {step : Step me C → World S → World S}
    (hstep : ∀ s w, (step s w).shared.paused = w.shared.paused) (store : S) (tokens : TokenLedger)
    (steps : List (Step me C)) : ¬ (run step (World.deployed store tokens) steps).IsPaused := by
  have hnone : (run step (World.deployed store tokens) steps).shared.paused = none := by
    apply run_induct (P := fun w : World S => w.shared.paused = none)
    · intro w s hw
      rw [hstep, hw]
    · rfl
  intro hpaused
  unfold World.IsPaused at hpaused
  rw [hnone] at hpaused
  cases hpaused

theorem not_canPause_run {step : Step me C → World S → World S}
    (hstep : ∀ s w, (step s w).shared.paused = w.shared.paused) (store : S) (tokens : TokenLedger)
    (steps : List (Step me C)) :
    ¬ CanPause me step (run step (World.deployed store tokens) steps) := by
  rintro ⟨more, -, hpaused⟩
  rw [← run_append] at hpaused
  exact not_isPaused_run hstep store tokens (steps ++ more) hpaused

namespace Treasury

/-- A step keeps the pause flag. -/
theorem paused_step (s : Step me Entry) (w : World Store) :
    (step s w).shared.paused = w.shared.paused := by
  rcases step_cases s w with ⟨env, x, hstep⟩ | hstep | ⟨env, c, w', -, hstep, hdone⟩
  · rw [hstep, shared_outsideTransfer]
  · rw [hstep]
  · rw [hstep]
    cases hdone with
    | init => rfl
    | addTreasuryManager => rfl
    | removeTreasuryManager => rfl
    | setWithdrawalLimit => rfl
    | deposit => rfl
    | withdraw => rfl
    | emergencyWithdraw => rfl
    | setReferralContract => rfl
    | distributeReward => rfl

/-- The admin can take the amount from the reserve by an `emergency_withdraw`, after some calls of
    its own. -/
def CanRescue (me : Address) (w : World Store) (amount : ℤ) : Prop :=
  ∃ (steps : List (Step me Entry)) (env : Env me) (caller dst : Address), AdminCalls step w steps ∧
    (emergencyWithdraw env caller dst amount).Succeeds (run step w steps)

theorem isPaused_of_emergencyWithdraw {env : Env me} {caller dst : Address} {amount : ℤ}
    {w : World Store} (h : (emergencyWithdraw env caller dst amount).Succeeds w) : w.IsPaused := by
  obtain ⟨u, w', hok⟩ := h
  cases emergencyWithdraw_done hok with
  | emergencyWithdraw hpos hpaused => exact hpaused

theorem not_canRescue_run (tokens : TokenLedger) (steps : List (Step me Entry)) (amount : ℤ) :
    ¬ CanRescue me (run step (deployed tokens) steps) amount := by
  rintro ⟨more, env, caller, dst, -, hsucceeds⟩
  have hpaused := isPaused_of_emergencyWithdraw hsucceeds
  rw [← run_append] at hpaused
  exact not_isPaused_run paused_step Store.empty tokens (steps ++ more) hpaused

end Treasury

namespace Market

/-- A step keeps the pause flag. -/
theorem paused_step (s : Step me Entry) (w : World Store) :
    (step s w).shared.paused = w.shared.paused := by
  rcases step_cases s w with ⟨env, x, hstep⟩ | hstep | ⟨env, c, w', -, hstep, hdone⟩
  · rw [hstep, shared_outsideTransfer]
  · rw [hstep]
  · rw [hstep]
    cases hdone with
    | listNft w₁ events hactive hsigned hprice hcurrency hhash hcollection hlisted =>
      exact congrArg SharedStore.paused hlisted.shared
    | buyNft l feeRecipient fee w₁ s events hactive hsigned hl hopen hsold =>
      exact congrArg SharedStore.paused hsold.shared
    | createEnglishAuction w₁ e events hactive hsigned hstart hcurrency hhash hcollection hduration
        hend hauctioned => exact congrArg SharedStore.paused hauctioned.shared
    | settleSold a feeRecipient fee w₁ s events hactive ha hopen htime hbid hsold =>
      exact congrArg SharedStore.paused hsold.shared
    | createDutchAuction w₁ e events hactive hsigned hstart hfloor hcurrency hhash hcollection
        hprices hduration hend hauctioned => exact congrArg SharedStore.paused hauctioned.shared
    | buyDutchAuction a price feeRecipient fee w₁ s events hactive hsigned ha hopen htype hprice hne
        hsold => exact congrArg SharedStore.paused hsold.shared
    | bulkList w' hactive hsigned hlength heach =>
      exact congrArg SharedStore.paused (shared_of_listed heach)
    | bulkCreateAuctions w' hactive hsigned hlength heach =>
      exact congrArg SharedStore.paused (shared_of_auctioned heach)
    | _ => rfl

end Market

/-! ## The two contracts -/

/-- In no state of a run can the admin pause the treasury or the marketplace, nor take anything from
    the reserve of the treasury. -/
theorem never_paused :
    (∀ tokens (steps : List (Step me Treasury.Entry)),
      ¬ CanPause me Treasury.step (run Treasury.step (Treasury.deployed tokens) steps) ∧
        ∀ amount, ¬ Treasury.CanRescue me
          (run Treasury.step (Treasury.deployed tokens) steps) amount) ∧
    (∀ tokens (steps : List (Step me Market.Entry)),
      ¬ CanPause me Market.step
        (run Market.step (World.deployed Market.Store.empty tokens) steps)) := by
  constructor
  · intro tokens steps
    constructor
    · exact not_canPause_run Treasury.paused_step Treasury.Store.empty tokens steps
    · exact Treasury.not_canRescue_run tokens steps
  · intro tokens steps
    exact not_canPause_run Market.paused_step Market.Store.empty tokens steps

/-- The treasury of the admin `⟨1⟩` has 50 in its reserve. -/
def fundedReserve : List (Step ⟨0⟩ Treasury.Entry) :=
  [.call (.signedBy ⟨0⟩ 1 1 [⟨1⟩]) (.init ⟨1⟩ 100),
    .call (.signedBy ⟨0⟩ 2 2 [⟨1⟩]) (.deposit ⟨1⟩ Treasury.reserveCategory 50)]

/-- The marketplace of the admin `⟨1⟩` after `initialize`. -/
def openedMarket : List (Step ⟨0⟩ Market.Entry) :=
  [.call (.signedBy ⟨0⟩ 1 1 [⟨1⟩]) (.init ⟨1⟩ 250 ⟨8⟩ 500 300)]

/-- Neither can be paused, and the reserve cannot be withdrawn. -/
theorem not_canPause_opened :
    (run Treasury.step (Treasury.deployed (.ofList [])) fundedReserve).shared.admin = some ⟨1⟩ ∧
    (run Treasury.step (Treasury.deployed (.ofList [])) fundedReserve).store.categoryBalance
      Treasury.reserveCategory = 50 ∧
    ¬ CanPause ⟨0⟩ Treasury.step
      (run Treasury.step (Treasury.deployed (.ofList [])) fundedReserve) ∧
    ¬ Treasury.CanRescue ⟨0⟩
      (run Treasury.step (Treasury.deployed (.ofList [])) fundedReserve) 50 ∧
    (run Market.step (World.deployed Market.Store.empty (.ofList [])) openedMarket).shared.admin =
      some ⟨1⟩ ∧
    ¬ CanPause ⟨0⟩ Market.step
      (run Market.step (World.deployed Market.Store.empty (.ofList [])) openedMarket) := by
  refine ⟨by decide, by decide, ?_, ?_, by decide, ?_⟩
  · exact not_canPause_run Treasury.paused_step Treasury.Store.empty _ fundedReserve
  · exact Treasury.not_canRescue_run _ fundedReserve 50
  · exact not_canPause_run Market.paused_step Market.Store.empty _ openedMarket

end Trellis
