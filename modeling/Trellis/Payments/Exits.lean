import Trellis.Lib.Spend
import Trellis.Lib.Sweep
import Trellis.Payments.Expired
import Trellis.Payments.Journal

/-!
# Withdrawals of the depositors

A withdrawal pays a fee and the rest, and fails when the product of amount and fee rate does not fit
into an `i128`. Nothing else stands between the depositors and their deposits, as long as the admin
pays out no more than the surplus.

Results:
* `payable_iff`, `withdraw_succeeds`: when a withdrawal goes through.
* `sound_run`: the states in which all deposits and escrows are covered.
* `withdrawAmount_spends`: a withdrawal from such a state takes from the account it names only.
* `depositors_exit`: withdrawals of any users in any order all go through exactly when nobody asks
  for more than the own balance.
* `account_sweeps`: withdrawals of whole balances are a sweep of the accounts.
-/

namespace Trellis.Payments

open Exec

variable {me : Address}

/-! ## One withdrawal -/

/-- The fee of a withdrawal. -/
def feeOf (rate amount : ℤ) : ℤ := amount * rate / 10000

/-- The payments of a withdrawal are made when the contract has the amount. -/
theorem allowsAll_payouts {env : Env me} (hadmits : ∀ l x, env.admits l x = true)
    {tokens : TokenLedger} {token feeRecipient who : Address} {fee net : ℤ} (hfee : 0 ≤ fee)
    (hnet : 0 ≤ net) (hle : fee + net ≤ tokens.balance token me) :
    env.AllowsAll tokens (payouts me token feeRecipient who fee net) := by
  have hone : ∀ (l : TokenLedger) (dst : Address) (amount : ℤ), amount ≤ l.balance token me →
      env.AllowsAll l (Transfer.ifPos ⟨token, me, dst, amount⟩) := by
    intro l dst amount hcovered
    unfold Transfer.ifPos
    split_ifs with hpos
    · exact ⟨⟨le_of_lt hpos, .inl rfl, hcovered, hadmits _ _⟩, trivial⟩
    · trivial
  have hpaid : - fee ≤ Transfer.net token me ⟨token, me, feeRecipient, fee⟩ :=
    Transfer.neg_amount_le_net hfee
  refine Env.allowsAll_append.mpr ⟨hone _ _ _ (by omega), hone _ _ _ ?_⟩
  rw [Ledger.balance_moveAll, netAll_ifPos hfee]
  omega

/-- When `withdraw` goes through. -/
theorem withdraw_succeeds {env : Env me} {who : Address} {w : World Store} :
    (withdraw env who).Succeeds w ↔ env.signed who = true ∧ 0 < w.store.balanceOf who ∧
      Payable env who (w.store.balanceOf who) w := by
  unfold Succeeds Payable
  simp only [withdraw, bind_ok, failIf_ok, requireAuth_ok, read_ok, write_ok, payOut_iff,
    emit, publish_ok, pure_ok, not_le]
  constructor
  · rintro ⟨_, _, _, _, ⟨hsigned, rfl⟩, _, _, ⟨rfl, rfl⟩, _, _, ⟨hpos, rfl⟩, net, _,
      ⟨t, recipient, fee, htoken, hrecipient, hsplit, hallows, -⟩, -⟩
    exact ⟨hsigned, hpos, t, recipient, fee, net, htoken, hrecipient, hsplit, hallows⟩
  · rintro ⟨hsigned, hpos, t, recipient, fee, net, htoken, hrecipient, hsplit, hallows⟩
    exact ⟨net, _, (), w, ⟨hsigned, rfl⟩, _, w, ⟨rfl, rfl⟩, (), w, ⟨hpos, rfl⟩, net, _,
      ⟨t, recipient, fee, htoken, hrecipient, hsplit, hallows, rfl⟩, (), _, rfl, _, _,
        ⟨rfl, rfl⟩, (), _, rfl, (), _, rfl, rfl, rfl⟩

/-! ## Sound states -/

/-- The recipient of the fees is set, and the rate is within its bounds. -/
structure Configured (feeRecipient : Address) (s : Store) : Prop where
  recipient_eq : s.feeRecipient = some feeRecipient
  rate_nonneg : 0 ≤ s.feeRate.getD 0
  rate_le : s.feeRate.getD 0 ≤ 10000

theorem Configured.step {feeRecipient : Address} {w : World Store}
    (h : Configured feeRecipient w.store) {s : Step me Entry} (hs : ¬ Initializes s) :
    Configured feeRecipient (step s w).store := by
  rcases step_cases s w with ⟨env, x, hx⟩ | hx | ⟨env, c, w', rfl, hx, hdone⟩
  · rw [hx, store_outsideTransfer]
    exact h
  · rw [hx]
    exact h
  · rw [hx]
    cases hdone with
    | init => exact absurd trivial hs
    | setFeeRate events hadmin hsigned h₀ h₁ => exact ⟨h.recipient_eq, h₀, h₁⟩
    | deposit | withdraw | withdrawAmount | createEscrowEntry | releaseEscrowEntry
    | refundEscrowEntry | batchPayout => exact ⟨h.recipient_eq, h.rate_nonneg, h.rate_le⟩

/-- Whatever is called, the contract is configured as soon as its token is set. -/
theorem configured_run (tokens : TokenLedger) (steps : List (Step me Entry)) {token : Address}
    (htoken : (run step (World.deployed Store.empty tokens) steps).store.token = some token) :
    ∃ feeRecipient,
      Configured feeRecipient (run step (World.deployed Store.empty tokens) steps).store := by
  have hset : (run step (World.deployed Store.empty tokens) steps).store.token = none ∨
    ∃ feeRecipient,
      Configured feeRecipient (run step (World.deployed Store.empty tokens) steps).store := by
    refine run_induct (P := fun w : World Store => w.store.token = none ∨ ∃ feeRecipient,
      Configured feeRecipient w.store) (fun w s h => ?_) (.inl rfl) steps
    rcases step_cases s w with ⟨env, x, hx⟩ | hx | ⟨env, c, w', rfl, hx, hdone⟩
    · rw [hx, store_outsideTransfer]
      exact h
    · rw [hx]
      exact h
    · rw [hx]
      cases hdone with
      | init events h₀ h₁ => exact .inr ⟨_, rfl, h₀, h₁⟩
      | setFeeRate events hadmin hsigned h₀ h₁ =>
        exact h.imp id fun ⟨r, h⟩ => ⟨r, h.recipient_eq, h₀, h₁⟩
      | deposit | withdraw | withdrawAmount | createEscrowEntry | releaseEscrowEntry
      | refundEscrowEntry
      | batchPayout => exact h.imp id fun ⟨r, h⟩ => ⟨r, h.recipient_eq, h.rate_nonneg, h.rate_le⟩
  exact hset.resolve_left fun hnone => Option.some_ne_none token (htoken.symm.trans hnone)

/-- A configured contract that covers what it owes. -/
structure Sound (me token feeRecipient : Address) (w : World Store) : Prop where
  inv : Inv token w
  kept : Kept me w
  solvent : (gatewayCustody me token).Solvent w
  configured : Configured feeRecipient w.store

namespace Sound

variable {token feeRecipient : Address} {w : World Store}

theorem step (h : Sound me token feeRecipient w) {s : Step me Entry} (hs : ¬ Initializes s)
    (hcovered : Covered token w s) : Sound me token feeRecipient (step s w) :=
  ⟨h.inv.step hs, h.kept.step s, (solvent_step_iff h.inv hs h.solvent).mpr hcovered,
    h.configured.step hs⟩

theorem balanceOf_le (h : Sound me token feeRecipient w) (who : Address) :
    w.store.balanceOf who ≤ w.tokens.balance token me ∧ w.store.balanceOf who < 2 ^ 127 := by
  have hescrows : 0 ≤ activeEscrows w.shared.escrows := by
    refine Table.total_nonneg fun id r hr => ?_
    have hpos := (h.kept id r hr).pos
    unfold activeAmount
    split_ifs <;> omega
  have hsum := balanceOf_le_sum h.inv.nonneg who
  have htotal := h.inv.total_eq
  have hfits := h.inv.fits.2
  have hsolvent : w.store.getTotalDeposits + activeEscrows w.shared.escrows ≤
      w.tokens.balance token me := h.solvent ()
  omega

/-- The payments of a withdrawal of at most a balance are made exactly when the fee can be
    computed. -/
theorem payable_iff (h : Sound me token feeRecipient w) {env : Env me}
    (hadmits : ∀ l x, env.admits l x = true) {who : Address} {amount : ℤ} (hpos : 0 < amount)
    (hle : amount ≤ w.store.balanceOf who) :
    Payable env who amount w ↔ amount * w.store.feeRate.getD 0 < 2 ^ 127 := by
  unfold Payable
  constructor
  · rintro ⟨t, r, fee, net, -, -, hsplit, -⟩
    exact (calculateFee_ok.mp (calculateFeeSplit_iff.mp hsplit).1).2.2.2.1
  · intro hfits
    have hfee := calculateFee_of_fits hpos h.configured.rate_nonneg h.configured.rate_le hfits
    obtain ⟨hfee₀, hfee₁⟩ := bps_bounds hpos.le h.configured.rate_nonneg h.configured.rate_le
    obtain ⟨hcovered, hsmall⟩ := h.balanceOf_le who
    have hsplit := calculateFeeSplit_iff.mpr ⟨hfee, ⟨by omega, by omega⟩, rfl⟩
    obtain ⟨-, hnonneg, hrest, hsum⟩ := calculateFeeSplit_ok hsplit
    exact ⟨token, feeRecipient, _, _, h.inv.token_eq, h.configured.recipient_eq, hsplit,
      allowsAll_payouts hadmits hnonneg hrest (by omega)⟩

end Sound

/-- Every state is sound that a run from the first `initialize` reaches, when its batch payouts were
    covered. -/
theorem sound_run {env : Env me} {admin token feeRecipient : Address} {rate : ℤ}
    {tokens : TokenLedger} (hfunds : ∀ t a, 0 ≤ tokens.balance t a) {w : World Store}
    (hinit : init env admin token rate feeRecipient (World.deployed Store.empty tokens) = .ok () w)
    {steps : List (Step me Entry)} (honce : ∀ s ∈ steps, ¬ Initializes s)
    (hcovered : ∀ x ∈ trace step w steps, Covered token x.1 x.2) :
    Sound me token feeRecipient (run step w steps) := by
  refine run_induct_of_trace (P := Sound me token feeRecipient)
    (Q := fun w s => ¬ Initializes s ∧ Covered token w s) (fun _ _ h hs => h.step hs.1 hs.2) ?_
    fun x hx => ⟨honce x.2 (mem_of_mem_trace hx), hcovered x hx⟩
  have hinv := Inv.start hinit
  cases init_done hinit with
  | init events h₀ h₁ =>
    refine ⟨hinv, Table.Forall.empty _, fun _ => ?_, ⟨rfl, h₀, h₁⟩⟩
    have hheld := hfunds token me
    show (0 : ℤ) + activeEscrows ∅ ≤ tokens.balance token me
    rw [activeEscrows, Table.total_empty]
    omega

/-! ## Many withdrawals -/

/-- The step is a `withdraw_amount` that goes through. -/
def Honoured (w : World Store) : Step me Entry → Prop
  | .call env (.withdrawAmount who amount) => (withdrawAmount env who amount).Succeeds w
  | _ => False

/-- A withdrawal of each user, with an environment of the own. -/
def withdrawCall (env : Address → Env me) (who : Address) (amount : ℤ) : Step me Entry :=
  .call (env who) (.withdrawAmount who amount)

/-- The payments of a withdrawal. -/
def paymentsOf (me token feeRecipient : Address) (rate : ℤ) (who : Address) (amount : ℤ) :
    List TokenTransfer :=
  payouts me token feeRecipient who (feeOf rate amount) (amount - feeOf rate amount)

theorem withdrawCall_effect {token feeRecipient : Address} {w : World Store}
    (h : Sound me token feeRecipient w) {env : Address → Env me} {who : Address} {amount : ℤ}
    (hok : Honoured w (withdrawCall env who amount)) :
    (step (withdrawCall env who amount) w).store.feeRate = w.store.feeRate ∧
      (∀ a, (step (withdrawCall env who amount) w).store.balanceOf a =
        w.store.balanceOf a - if a = who then amount else 0) ∧
      (step (withdrawCall env who amount) w).tokens = w.tokens.moveAll
        (paymentsOf me token feeRecipient (w.store.feeRate.getD 0) who amount) := by
  obtain ⟨net, w', hok⟩ := hok
  have hstep : step (withdrawCall env who amount) w = w' := commit_of_ok hok
  rw [hstep]
  cases withdrawAmount_done hok with
  | withdrawAmount events t r fee net htoken hrecipient hsigned hpos hle hsplit =>
    obtain rfl := Option.some.inj (htoken.symm.trans h.inv.token_eq)
    obtain rfl := Option.some.inj (hrecipient.symm.trans h.configured.recipient_eq)
    obtain ⟨hfee, -, rfl⟩ := calculateFeeSplit_iff.mp hsplit
    have hvalue : fee = feeOf (w.store.feeRate.getD 0) amount := (calculateFee_ok.mp hfee).2.2.2.2
    refine ⟨rfl, fun a => ?_, by rw [paymentsOf, hvalue]⟩
    unfold Store.balanceOf
    rw [Table.lookup_set]
    by_cases ha : a = who
    · rw [if_pos ha, if_pos ha, ha, Option.getD_some]
    · rw [if_neg ha, if_neg ha, sub_zero]

/-- From a sound contract a withdrawal takes from the balance it names only. -/
theorem withdrawAmount_spends (token feeRecipient : Address) (rate : ℤ) (env : Address → Env me)
    (hadmits : ∀ a l x, (env a).admits l x = true) :
    Spends step (fun w => Sound me token feeRecipient w ∧ w.store.feeRate.getD 0 = rate)
      (fun w => w.store.balanceOf) Honoured (withdrawCall env)
      (fun who amount => (env who).signed who = true ∧ amount * rate < 2 ^ 127) World.tokens
      (fun who amount l => l.moveAll (paymentsOf me token feeRecipient rate who amount)) where
  nonneg h := balanceOf_nonneg h.1.inv.nonneg
  ok_iff := by
    rintro w who amount ⟨h, rfl⟩ hpos ⟨hsigned, hfits⟩
    refine (withdrawAmount_succeeds h.inv).trans ?_
    constructor
    · exact fun hok => hok.2.2.1
    · exact fun hle => ⟨hpos, hsigned, hle, (h.payable_iff (hadmits who) hpos hle).mpr hfits⟩
  keeps := by
    rintro w who amount ⟨h, rfl⟩ hok
    refine ⟨h.step id trivial, ?_⟩
    rw [(withdrawCall_effect h hok).1]
  spent := by
    rintro w who amount ⟨h, -⟩ hok
    exact (withdrawCall_effect h hok).2.1
  tally := by
    rintro w who amount ⟨h, rfl⟩ hok
    exact (withdrawCall_effect h hok).2.2

/-- From the first `initialize` on, without another one, as long as every batch payout was covered:
    * a user can withdraw the whole balance at once exactly when it is positive and its product with
      the fee rate fits into an `i128`;
    * withdrawals of any amounts by any users, in any order, all go through exactly when nobody asks
      for more than the own balance in all, provided each single product fits. So a balance that is
      too large for one withdrawal can be taken out in parts;
    * what then is left: every balance is lower by what its owner took out, the payments are the
      fees and the rests, and what is still owed stays covered. -/
theorem depositors_exit {env₀ : Env me} {admin token feeRecipient : Address} {rate₀ : ℤ}
    {tokens : TokenLedger} (hfunds : ∀ t a, 0 ≤ tokens.balance t a) {w₀ : World Store}
    (hinit : init env₀ admin token rate₀ feeRecipient (World.deployed Store.empty tokens) =
      .ok () w₀)
    (steps : List (Step me Entry)) (honce : ∀ s ∈ steps, ¬ Initializes s)
    (hcovered : ∀ x ∈ trace step w₀ steps, Covered token x.1 x.2) {w : World Store}
    (hw : run step w₀ steps = w) {rate : ℤ} (hrate : w.store.feeRate.getD 0 = rate)
    (env : Address → Env me) (hadmits : ∀ a l x, (env a).admits l x = true) :
    (∀ who, (env who).signed who = true → ((withdraw (env who) who).Succeeds w ↔
      0 < w.store.balanceOf who ∧ w.store.balanceOf who * rate < 2 ^ 127)) ∧
    ∀ xs : List (Address × ℤ),
      (∀ x ∈ xs, 0 < x.2 ∧ (env x.1).signed x.1 = true ∧ x.2 * rate < 2 ^ 127) →
      ((∀ y ∈ trace step w (spendings (withdrawCall env) xs), Honoured y.1 y.2) ↔
        ∀ who, spentOn who xs ≤ w.store.balanceOf who) ∧
      ((∀ who, spentOn who xs ≤ w.store.balanceOf who) →
        let w' := run step w (spendings (withdrawCall env) xs)
        (∀ who, w'.store.balanceOf who = w.store.balanceOf who - spentOn who xs) ∧
          w'.tokens = w.tokens.moveAll
            (xs.flatMap fun x => paymentsOf me token feeRecipient rate x.1 x.2) ∧
          w'.store.getTotalDeposits + activeEscrows w'.shared.escrows ≤
            w'.tokens.balance token me) := by
  have hsound : Sound me token feeRecipient w := hw ▸ sound_run hfunds hinit honce hcovered
  have hspends := withdrawAmount_spends token feeRecipient rate env hadmits
  refine ⟨fun who hsigned => ?_, fun xs hxs => ?_⟩
  · rw [withdraw_succeeds]
    constructor
    · rintro ⟨-, hpos, hpayable⟩
      rw [hsound.payable_iff (hadmits who) hpos le_rfl, hrate] at hpayable
      exact ⟨hpos, hpayable⟩
    · rintro ⟨hpos, hfits⟩
      refine ⟨hsigned, hpos, (hsound.payable_iff (hadmits who) hpos le_rfl).mpr ?_⟩
      rw [hrate]
      exact hfits
  · have hiff := hspends.all_ok_iff (s := w) hxs ⟨hsound, hrate⟩
    refine ⟨hiff, fun hle => ?_⟩
    obtain ⟨⟨hkept, -⟩, hbalances, htokens⟩ := hspends.run ⟨hsound, hrate⟩ (hiff.mpr hle)
    refine ⟨hbalances, ?_, hkept.solvent ()⟩
    rw [Ledger.moveAll, List.foldl_flatMap]
    exact htokens

/-- The user takes the 60 out in two parts. -/
theorem depositors_exit_parts :
    (run step (run step opened depositRun)
      (spendings (withdrawCall fun a => Env.signedBy ⟨0⟩ 5 5 [a])
      [(⟨2⟩, 25), (⟨2⟩, 35)])).store.balanceOf ⟨2⟩ = 60 - 60 := by
  have honce : ∀ s ∈ depositRun, ¬ Initializes s := by
    intro s hs
    fin_cases hs <;> exact id
  have hcovered : ∀ x ∈ trace step opened depositRun, Covered ⟨9⟩ x.1 x.2 := by
    intro x hx
    fin_cases hx <;> trivial
  obtain ⟨-, hparts⟩ :=
    depositors_exit userFunds_nonneg init_opened depositRun honce hcovered rfl rfl
    (fun a => Env.signedBy ⟨0⟩ 5 5 [a]) fun _ _ _ => rfl
  obtain ⟨-, hleft⟩ := hparts [(⟨2⟩, 25), (⟨2⟩, 35)] fun x hx => by fin_cases hx <;> decide
  refine (hleft fun who => ?_).1 ⟨2⟩
  by_cases hwho : who = ⟨2⟩
  · rw [hwho]
    decide
  · rw [spentOn_cons, spentOn_cons, if_neg hwho, if_neg hwho]
    exact balanceOf_nonneg (run_induct_of_trace (P := Inv ⟨9⟩) (Q := fun _ s => ¬ Initializes s)
      (fun _ _ h hs => h.step hs) (Inv.start init_opened)
      fun x hx => honce x.2 (mem_of_mem_trace hx)).nonneg who

/-! ## Whole balances -/

/-- What a user can withdraw, and on what terms. -/
structure Account where
  who : Address
  balance : ℤ
  rate : ℤ
  token : Address
  feeRecipient : Address
  deriving DecidableEq, Repr

/-- The account of a user, once the contract is initialised. -/
def Store.account? (s : Store) (who : Address) : Option Account :=
  match s.token, s.feeRecipient with
  | some token, some feeRecipient =>
    some ⟨who, s.balanceOf who, s.feeRate.getD 0, token, feeRecipient⟩
  | _, _ => none

/-- The whole balance can be withdrawn by one call. -/
def Account.Withdrawable (a : Account) : Prop := 0 < a.balance ∧ a.balance * a.rate < 2 ^ 127

instance (a : Account) : Decidable a.Withdrawable := inferInstanceAs (Decidable (_ ∧ _))

/-- The account after that. -/
def Account.emptied (a : Account) : Account := { a with balance := 0 }

/-- The payments of the call. -/
def Account.payments (me : Address) (a : Account) : List TokenTransfer :=
  paymentsOf me a.token a.feeRecipient a.rate a.who a.balance

theorem Sound.account {token feeRecipient : Address} {w : World Store}
    (h : Sound me token feeRecipient w) (who : Address) : w.store.account? who =
      some ⟨who, w.store.balanceOf who, w.store.feeRate.getD 0, token, feeRecipient⟩ := by
  unfold Store.account?
  rw [h.inv.token_eq, h.configured.recipient_eq]

theorem withdraw_effect {token feeRecipient : Address} {w : World Store}
    (h : Sound me token feeRecipient w) {env : Env me} {who : Address} {a : Account}
    (ha : w.store.account? who = some a) (hok : (withdraw env who).Succeeds w) :
    (∀ k, (step (.call env (.withdraw who)) w).store.account? k =
      if k = who then some a.emptied else w.store.account? k) ∧
    (step (.call env (.withdraw who)) w).tokens = w.tokens.moveAll (a.payments me) := by
  rw [h.account] at ha
  obtain rfl := Option.some.inj ha
  obtain ⟨net, w', hok⟩ := hok
  have hstep : step (.call env (.withdraw who)) w = w' := commit_of_ok hok
  rw [hstep]
  cases withdraw_done hok with
  | withdraw events t r fee net htoken hrecipient hsigned hpos hsplit =>
    obtain rfl := Option.some.inj (htoken.symm.trans h.inv.token_eq)
    obtain rfl := Option.some.inj (hrecipient.symm.trans h.configured.recipient_eq)
    obtain ⟨hfee, -, rfl⟩ := calculateFeeSplit_iff.mp hsplit
    have hvalue : fee = feeOf (w.store.feeRate.getD 0) (w.store.balanceOf who) :=
      (calculateFee_ok.mp hfee).2.2.2.2
    constructor
    · intro k
      unfold Store.account? Account.emptied
      simp only [htoken, hrecipient]
      unfold Store.balanceOf
      rw [Table.lookup_set]
      split_ifs with hk
      · rw [hk, Option.getD_some]
      · rfl
    · rw [Account.payments, paymentsOf, hvalue]

/-- Withdrawals of whole balances by their owners, who sign, are a sweep of a sound contract. -/
theorem account_sweeps (env : Address → Env me) (hadmits : ∀ a l x, (env a).admits l x = true) :
    Sweeps step (fun w => ∃ token feeRecipient, Sound me token feeRecipient w)
      (fun w => w.store.account?)
      (fun a => a.Withdrawable ∧ (env a.who).signed a.who = true)
      (fun _ a => .call (env a.who) (.withdraw a.who)) Account.emptied World.tokens
      (fun _ a l => l.moveAll (a.payments me)) := by
  have hone : ∀ {w : World Store} {k : Address} {a : Account},
      (∃ token feeRecipient, Sound me token feeRecipient w) → w.store.account? k = some a →
      a.Withdrawable ∧ (env a.who).signed a.who = true →
      (∀ j, (step (.call (env a.who) (.withdraw a.who)) w).store.account? j =
        if j = k then some a.emptied else w.store.account? j) ∧
      (step (.call (env a.who) (.withdraw a.who)) w).tokens = w.tokens.moveAll (a.payments me) := by
    rintro w k a ⟨token, feeRecipient, h⟩ ha ⟨⟨hpos, hfits⟩, hsigned⟩
    have haccount := h.account k
    rw [ha] at haccount
    obtain rfl := Option.some.inj haccount
    have hpayable := (h.payable_iff (hadmits k) hpos le_rfl).mpr hfits
    exact withdraw_effect h ha (withdraw_succeeds.mpr ⟨hsigned, hpos, hpayable⟩)
  refine ⟨fun h ha hdue => ?_, fun h ha hdue => ?_, fun h ha hdue k' hk' => ?_, fun h ha hdue => ?_⟩
  · obtain ⟨token, feeRecipient, h⟩ := h
    exact ⟨token, feeRecipient, h.step id trivial⟩
  · rw [(hone h ha hdue).1, if_pos rfl]
  · rw [(hone h ha hdue).1, if_neg hk']
  · exact (hone h ha hdue).2

end Trellis.Payments
