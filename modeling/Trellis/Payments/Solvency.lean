import Trellis.Lib.Custody
import Trellis.Payments.Contract

/-!
# Solvency of the payments contract

Deposits and escrows share one token balance. The contract is solvent when the balance covers the
recorded total of the deposits and the amounts of the active escrows together.

Results:
* `Inv.step`: the invariant of a run from `initialize`. The recorded total is the sum of the users'
  balances, none of which is negative, and the next escrow id is fresh.
* `backed_done`: no call but a batch payout, or a further `initialize`, lowers the surplus.
* `surplus_batchPayout`: a batch payout lowers it by what it pays to others.
* `solvent_iff_covered`: the contract stays solvent over a run exactly when every batch payout that
  goes through is covered by the surplus. The code does not ask for this.
-/

namespace Trellis.Payments

variable {me : Address}

/-! ## What is owed -/

/-- What an escrow holds: its amount while it is active. -/
def activeAmount (r : EscrowRecord) : ℤ := if r.state = .active then r.amount else 0

/-- The sum of the amounts of the active escrows. -/
def activeEscrows (escrows : Table ℕ EscrowRecord) : ℤ := escrows.total fun _ r => activeAmount r

/-- The balance of `token` against the deposits and the active escrows. -/
def gatewayCustody (me token : Address) : Custody (World Store) Unit where
  held w _ := w.tokens.balance token me
  owed w _ := w.store.getTotalDeposits + activeEscrows w.shared.escrows

/-- The sum of the users' balances. -/
def Store.sumDeposited (s : Store) : ℤ := s.deposited.total fun _ balance => balance

theorem activeEscrows_create {escrows : Table ℕ EscrowRecord} {id : ℕ} {r : EscrowRecord}
    (hnew : escrows.lookup id = none) (hactive : r.state = .active) :
    activeEscrows (escrows.insert id r) = activeEscrows escrows + r.amount := by
  unfold activeEscrows
  rw [Table.total_set_new hnew, activeAmount, if_pos hactive]

theorem activeEscrows_close {escrows : Table ℕ EscrowRecord} {id : ℕ} {r r' : EscrowRecord}
    (hr : escrows.lookup id = some r) (hactive : r.state = .active) (hclosed : r'.state ≠ .active) :
    activeEscrows (escrows.insert id r') = activeEscrows escrows - r.amount := by
  unfold activeEscrows
  rw [Table.total_set_old hr, activeAmount, activeAmount, if_pos hactive, if_neg hclosed, add_zero]

theorem total_deposited_set (s : Store) (who : Address) (balance : ℤ) :
    Table.total (fun _ b => b) (s.deposited.insert who balance) =
      s.sumDeposited - s.balanceOf who + balance := by
  have hold : (s.deposited.lookup who).elim 0 (fun b => b) = s.balanceOf who := by
    unfold Store.balanceOf
    cases s.deposited.lookup who <;> rfl
  rw [Table.total_set, hold]
  rfl

theorem balanceOf_nonneg {s : Store} (h : s.deposited.Forall fun _ b => 0 ≤ b) (who : Address) :
    0 ≤ s.balanceOf who := by
  unfold Store.balanceOf
  cases hb : s.deposited.lookup who with
  | none => exact le_rfl
  | some b => exact h who b hb

theorem balanceOf_le_sum {s : Store} (h : s.deposited.Forall fun _ b => 0 ≤ b) (who : Address) :
    s.balanceOf who ≤ s.sumDeposited := by
  unfold Store.balanceOf
  cases hb : s.deposited.lookup who with
  | none => exact Table.total_nonneg h
  | some b => exact Table.le_total (f := fun _ b => b) h hb

/-! ## The invariant -/

/-- What holds after `initialize` with this token, until a further `initialize`. -/
structure Inv (token : Address) (w : World Store) : Prop where
  token_eq : w.store.token = some token
  nonneg : w.store.deposited.Forall fun _ b => 0 ≤ b
  total_eq : w.store.getTotalDeposits = w.store.sumDeposited
  fits : InI128 w.store.getTotalDeposits
  ids : w.shared.escrows.Forall fun id _ => id < w.shared.nextEscrow

theorem Inv.fresh {token : Address} {w : World Store} (h : Inv token w) :
    w.shared.escrows.lookup w.shared.nextEscrow = none :=
  SharedStore.lookup_nextEscrow h.ids

/-- A withdrawal of at most the user's balance is subtracted from the total as it stands. -/
theorem Inv.checkedSub {token : Address} {w : World Store} (h : Inv token w) {who : Address}
    {amount : ℤ} (hpos : 0 < amount) (hle : amount ≤ w.store.balanceOf who) :
    (checkedSub w.store.getTotalDeposits amount).getD 0 = w.store.getTotalDeposits - amount ∧
      InI128 (w.store.getTotalDeposits - amount) := by
  have hsum := balanceOf_le_sum h.nonneg who
  have htotal := h.total_eq
  obtain ⟨hlow, hhigh⟩ := h.fits
  have hfits : InI128 (w.store.getTotalDeposits - amount) := ⟨by omega, by omega⟩
  have hsub := checkedSub_eq_some.mpr ⟨hfits, rfl⟩
  exact ⟨by rw [hsub]; rfl, hfits⟩

/-- A call of `initialize`. -/
def Initializes : Step me Entry → Prop
  | .call _ (.init ..) => True
  | _ => False

theorem Inv.congr {token : Address} {w w' : World Store} (h : Inv token w)
    (hstore : w'.store = w.store) (hshared : w'.shared = w.shared) : Inv token w' := by
  refine ⟨?_, ?_, ?_, ?_, ?_⟩
  · rw [hstore]; exact h.token_eq
  · rw [hstore]; exact h.nonneg
  · rw [hstore]; exact h.total_eq
  · rw [hstore]; exact h.fits
  · rw [hshared]; exact h.ids

/-- A user's balance and the total rise or fall together. -/
theorem Inv.setBalance {token : Address} {w w' : World Store} (h : Inv token w) (who : Address)
    (change : ℤ) (hnonneg : 0 ≤ w.store.balanceOf who + change)
    (hfits : InI128 (w.store.getTotalDeposits + change))
    (htoken : w'.store.token = w.store.token)
    (hdeposited : w'.store.deposited =
      w.store.deposited.insert who (w.store.balanceOf who + change))
    (htotal : w'.store.getTotalDeposits = w.store.getTotalDeposits + change)
    (hshared : w'.shared = w.shared) : Inv token w' where
  token_eq := by rw [htoken]; exact h.token_eq
  nonneg := by rw [hdeposited]; exact h.nonneg.set hnonneg
  total_eq := by
    have hsum := total_deposited_set w.store who (w.store.balanceOf who + change)
    have htotal_eq := h.total_eq
    rw [htotal, Store.sumDeposited, hdeposited, hsum]
    omega
  fits := by rw [htotal]; exact hfits
  ids := by rw [hshared]; exact h.ids

theorem Inv.setEscrow {token : Address} {w w' : World Store} (h : Inv token w) {id : ℕ}
    {r r' : EscrowRecord} (hr : w.shared.escrows.lookup id = some r)
    (hstore : w'.store = w.store) (hseq : w'.shared.escrowIdSeq = w.shared.escrowIdSeq)
    (hescrows : w'.shared.escrows = w.shared.escrows.insert id r') : Inv token w' where
  token_eq := by rw [hstore]; exact h.token_eq
  nonneg := by rw [hstore]; exact h.nonneg
  total_eq := by rw [hstore]; exact h.total_eq
  fits := by rw [hstore]; exact h.fits
  ids := by
    have hid := h.ids id r hr
    rw [hescrows, SharedStore.nextEscrow, hseq]
    exact h.ids.set hid

theorem Inv.done {token : Address} {env : Env me} {c : Entry} {w w' : World Store}
    (h : Inv token w) (hc : ¬ Initializes (.call env c)) (hdone : Done env w c w') :
    Inv token w' := by
  cases hdone with
  | init => exact absurd trivial hc
  | setFeeRate => exact ⟨h.token_eq, h.nonneg, h.total_eq, h.fits, h.ids⟩
  | @deposit src amount events t hpos htoken hsigned hallows hfits =>
    have hbalance := balanceOf_nonneg h.nonneg src
    exact h.setBalance src amount (by omega) hfits rfl rfl rfl rfl
  | @withdraw who events t recipient fee net htoken hrecipient hsigned hpos hsplit =>
    obtain ⟨hsub, hfits⟩ := h.checkedSub hpos le_rfl
    refine h.setBalance who (- w.store.balanceOf who) (by omega) hfits rfl ?_ hsub rfl
    rw [add_neg_cancel]
  | @withdrawAmount who amount events t recipient fee net htoken hrecipient hsigned hpos
      hle hsplit =>
    obtain ⟨hsub, hfits⟩ := h.checkedSub hpos hle
    exact h.setBalance who (- amount) (by omega) hfits rfl rfl hsub rfl
  | createEscrowEntry events t htoken hsigned hpos hexpiry hallows =>
    refine ⟨h.token_eq, h.nonneg, h.total_eq, h.fits, ?_⟩
    refine Table.Forall.set (fun id r hr => ?_) (Nat.lt_succ_self _)
    exact (h.ids id r hr).trans (Nat.lt_succ_self _)
  | releaseEscrowEntry events t r htoken hadmin hsigned hr hactive hdue hallows =>
    exact h.setEscrow hr rfl rfl rfl
  | refundEscrowEntry events t r htoken hadmin hsigned hr hactive hallows =>
    exact h.setEscrow hr rfl rfl rfl
  | batchPayout => exact h.congr rfl rfl

theorem Inv.step {token : Address} {w : World Store} (h : Inv token w) {s : Step me Entry}
    (hs : ¬ Initializes s) : Inv token (step s w) := by
  rcases step_cases s w with ⟨env, x, hx⟩ | hx | ⟨env, c, w', rfl, hx, hdone⟩
  · rw [hx]
    exact h.congr (store_outsideTransfer env x w) (shared_outsideTransfer env x w)
  · rwa [hx]
  · rw [hx]
    exact h.done hs hdone

theorem Inv.start {env : Env me} {admin token recipient : Address} {rate : ℤ}
    {tokens : TokenLedger} {w : World Store} {u : Unit}
    (h : init env admin token rate recipient (World.deployed Store.empty tokens) = .ok u w) :
    Inv token w := by
  cases init_done h with
  | init events h₀ h₁ =>
    exact ⟨rfl, Table.Forall.empty _, rfl, (by decide : InI128 0), Table.Forall.empty _⟩

/-! ## The surplus -/

/-- A withdrawal takes at most its amount from the contract. -/
theorem neg_le_netAll_payouts (me token feeRecipient who : Address) {fee net : ℤ} (hfee : 0 ≤ fee)
    (hnet : 0 ≤ net) :
    - (fee + net) ≤ netAll token me (payouts me token feeRecipient who fee net) := by
  have hfirst : - fee ≤ Transfer.net token me ⟨token, me, feeRecipient, fee⟩ :=
    Transfer.neg_amount_le_net hfee
  have hsecond : - net ≤ Transfer.net token me ⟨token, me, who, net⟩ :=
    Transfer.neg_amount_le_net hnet
  rw [payouts, netAll_append, netAll_ifPos hfee, netAll_ifPos hnet]
  omega

/-- A change is backed when the balance rises by at least as much as what is owed. -/
theorem backed_of {token : Address} {w w' : World Store} (held deposits escrows : ℤ)
    (hheld : w.tokens.balance token me + held ≤ w'.tokens.balance token me)
    (hdeposits : w'.store.getTotalDeposits = w.store.getTotalDeposits + deposits)
    (hescrows : activeEscrows w'.shared.escrows = activeEscrows w.shared.escrows + escrows)
    (hle : deposits + escrows ≤ held) : (gatewayCustody me token).Backed w w' := by
  intro k
  simp only [Custody.surplus, gatewayCustody]
  omega

theorem backed_close {token dst : Address} {w w' : World Store} {id : ℕ} {r r' : EscrowRecord}
    (hr : w.shared.escrows.lookup id = some r) (hactive : r.state = .active)
    (hclosed : r'.state ≠ .active) (hpos : 0 ≤ r.amount)
    (hescrows : w'.shared.escrows = w.shared.escrows.insert id r') (hstore : w'.store = w.store)
    (htokens : w'.tokens = w.tokens.move ⟨token, me, dst, r.amount⟩) :
    (gatewayCustody me token).Backed w w' := by
  have hpaid : - r.amount ≤ Transfer.net token me ⟨token, me, dst, r.amount⟩ :=
    Transfer.neg_amount_le_net hpos
  refine backed_of (- r.amount) 0 (- r.amount) ?_ ?_ ?_ (by omega)
  · rw [htokens, Ledger.balance_move]
    omega
  · rw [hstore, add_zero]
  · rw [hescrows, activeEscrows_close hr hactive hclosed]
    omega

/-- A successful call that is neither `initialize` nor a batch payout lowers no surplus. -/
theorem backed_done {token : Address} {env : Env me} {c : Entry} {w w' : World Store}
    (h : Inv token w) (hc : ¬ Initializes (.call env c)) (hbatch : ∀ a r, c ≠ .batchPayout a r)
    (hdone : Done env w c w') : (gatewayCustody me token).Backed w w' := by
  have htoken_eq : ∀ {t}, w.store.token = some t → t = token := by
    intro t ht
    rw [h.token_eq] at ht
    exact (Option.some.inj ht).symm
  cases hdone with
  | init => exact absurd trivial hc
  | setFeeRate => exact Custody.Backed.refl _
  | @deposit src amount events t hpos htoken hsigned hallows hfits =>
    obtain rfl := htoken_eq htoken
    have hsrc : src ≠ me := Env.ne_me_of_signed hsigned
    refine backed_of amount amount 0 ?_ rfl (add_zero _).symm (by omega)
    rw [Ledger.balance_move]
    simp [Transfer.net, hsrc]
  | @withdraw who events t recipient fee net htoken hrecipient hsigned hpos hsplit =>
    obtain rfl := htoken_eq htoken
    obtain ⟨-, hfee, hnet, hsum⟩ := calculateFeeSplit_ok hsplit
    have hpaid := neg_le_netAll_payouts me t recipient who hfee hnet
    refine backed_of (- w.store.balanceOf who) (- w.store.balanceOf who) 0 ?_
      (h.checkedSub hpos le_rfl).1 (add_zero _).symm (by omega)
    rw [Ledger.balance_moveAll]
    omega
  | @withdrawAmount who amount events t recipient fee net htoken hrecipient hsigned hpos
      hle hsplit =>
    obtain rfl := htoken_eq htoken
    obtain ⟨-, hfee, hnet, hsum⟩ := calculateFeeSplit_ok hsplit
    have hpaid := neg_le_netAll_payouts me t recipient who hfee hnet
    refine backed_of (- amount) (- amount) 0 ?_ (h.checkedSub hpos hle).1 (add_zero _).symm
      (by omega)
    rw [Ledger.balance_moveAll]
    omega
  | @createEscrowEntry depositor beneficiary amount expiry events t htoken hsigned hpos hexpiry
      hallows =>
    obtain rfl := htoken_eq htoken
    have hdepositor : depositor ≠ me := Env.ne_me_of_signed hsigned
    refine backed_of amount 0 amount ?_ (add_zero _).symm (activeEscrows_create h.fresh rfl)
      (by omega)
    rw [Ledger.balance_move]
    simp [Transfer.net, hdepositor]
  | @releaseEscrowEntry caller id events t r htoken hadmin hsigned hr hactive hdue hallows =>
    obtain rfl := htoken_eq htoken
    exact backed_close hr hactive (by simp) hallows.1 rfl rfl rfl
  | @refundEscrowEntry caller id events t r htoken hadmin hsigned hr hactive hallows =>
    obtain rfl := htoken_eq htoken
    exact backed_close hr hactive (by simp) hallows.1 rfl rfl rfl
  | batchPayout => exact absurd rfl (hbatch _ _)

/-- The same for a step. -/
theorem backed_step {token : Address} {w : World Store} (h : Inv token w) {s : Step me Entry}
    (hs : ¬ Initializes s) (hbatch : ∀ env a r, s ≠ .call env (.batchPayout a r)) :
    (gatewayCustody me token).Backed w (step s w) := by
  rcases step_cases s w with ⟨env, x, hx⟩ | hx | ⟨env, c, w', rfl, hx, hdone⟩
  · rw [hx]
    have hheld := balance_outsideTransfer (C := Entry) env x w token
    have hreceived := Step.received_nonneg token w (.outside env x : Step me Entry)
    refine backed_of 0 0 0 (by omega) ?_ ?_ (by omega)
    · rw [store_outsideTransfer, add_zero]
    · rw [shared_outsideTransfer, add_zero]
  · rw [hx]
    exact Custody.Backed.refl w
  · rw [hx]
    refine backed_done h hs (fun a r hc => hbatch env a r ?_) hdone
    rw [hc]

/-! ## Batch payouts -/

/-- A batch payout that goes through pays others at most the surplus. -/
def Covered (token : Address) (w : World Store) : Step me Entry → Prop
  | .call env (.batchPayout caller recipients) =>
    (batchPayout env caller recipients).Succeeds w →
      paidToOthers me (leading (payoutBatch recipients)) ≤ (gatewayCustody me token).surplus w ()
  | _ => True

/-- A batch payout lowers the surplus by what it pays to others. -/
theorem surplus_batchPayout {token : Address} {env : Env me} {caller : Address}
    {recipients : List (Address × ℤ)} {w w' : World Store} (h : Inv token w)
    (hdone : Done env w (.batchPayout caller recipients) w') :
    (gatewayCustody me token).surplus w' () =
      (gatewayCustody me token).surplus w () -
        paidToOthers me (leading (payoutBatch recipients)) := by
  cases hdone with
  | batchPayout events t htoken hadmin hsigned hallows =>
    have ht : t = token := by
      rw [h.token_eq] at htoken
      exact (Option.some.inj htoken).symm
    subst ht
    simp only [Custody.surplus, gatewayCustody]
    rw [Ledger.balance_moveAll, netAll_toTransfer]
    omega

/-- A step keeps a solvent contract solvent exactly when it is covered. -/
theorem solvent_step_iff {token : Address} {w : World Store} (h : Inv token w) {s : Step me Entry}
    (hs : ¬ Initializes s) (hsol : (gatewayCustody me token).Solvent w) :
    (gatewayCustody me token).Solvent (step s w) ↔ Covered token w s := by
  by_cases hbatch : ∃ env caller recipients, s = .call env (.batchPayout caller recipients)
  · obtain ⟨env, caller, recipients, rfl⟩ := hbatch
    show (gatewayCustody me token).Solvent ((batchPayout env caller recipients).commit w) ↔
      ((batchPayout env caller recipients).Succeeds w → _)
    rcases Exec.commit_cases (batchPayout env caller recipients) w with ⟨r, hr⟩ | ⟨hno, hw⟩
    · have hsurplus := surplus_batchPayout h (batchPayout_done hr)
      rw [Custody.solvent_spend_iff (k := ()) hsol fun _ => hsurplus]
      exact ⟨fun hle _ => hle, fun hcovered => hcovered ⟨r, _, hr⟩⟩
    · rw [hw]
      exact iff_of_true hsol fun hyes => absurd hyes hno
  · have hcovered : Covered token w s := by
      unfold Covered
      split
      · exact absurd ⟨_, _, _, rfl⟩ hbatch
      · trivial
    refine iff_of_true ?_ hcovered
    have hbacked := backed_step h hs fun env a r hc => hbatch ⟨env, a, r, hc⟩
    exact hbacked.solvent hsol

/-- From a successful `initialize` on, the balance of the configured token covers the recorded
    deposits and the active escrows after every step exactly when every batch payout that goes
    through pays others at most what was not owed before it. -/
theorem solvent_iff_covered {env : Env me} {admin token recipient : Address} {rate : ℤ}
    {tokens : TokenLedger} (hfunds : ∀ t a, 0 ≤ tokens.balance t a) {w : World Store}
    (hinit : init env admin token rate recipient (World.deployed Store.empty tokens) = .ok () w)
    (steps : List (Step me Entry)) (honce : ∀ s ∈ steps, ¬ Initializes s) :
    (∀ x ∈ trace step w steps, (step x.2 x.1).store.getTotalDeposits +
        activeEscrows (step x.2 x.1).shared.escrows ≤ (step x.2 x.1).tokens.balance token me) ↔
      ∀ x ∈ trace step w steps, Covered token x.1 x.2 := by
  have hsol : (gatewayCustody me token).Solvent w := by
    cases init_done hinit with
    | init events h₀ h₁ =>
      intro k
      have hheld := hfunds token me
      show (0 : ℤ) + activeEscrows ∅ ≤ tokens.balance token me
      rw [activeEscrows, Table.total_empty]
      omega
  have hrun := trace_forall_iff (G := (gatewayCustody me token).Solvent) (Q := Covered token)
    (N := fun _ s => ¬ Initializes s) (fun _ _ h hs => h.step hs)
    (fun _ _ h hs hg => solvent_step_iff h hs hg) (Inv.start hinit) hsol
    (fun x hx => honce x.2 (mem_of_mem_trace hx))
  rw [← hrun]
  exact forall₂_congr fun x hx => ⟨fun h _ => h, fun h => h ()⟩

/-! ## Two runs -/

/-- The user `⟨2⟩` holds 100 of the token `⟨9⟩`. -/
def userFunds : TokenLedger := .ofList [(⟨9⟩, ⟨2⟩, 100)]

/-- The state after `initialize` by the admin `⟨1⟩` with the token `⟨9⟩` and no fee. -/
def opened : World Store :=
  (init (Env.signedBy ⟨0⟩ 1 1 [⟨1⟩]) ⟨1⟩ ⟨9⟩ 0 ⟨8⟩).commit (World.deployed Store.empty userFunds)

theorem init_opened :
    init (Env.signedBy ⟨0⟩ 1 1 [⟨1⟩]) ⟨1⟩ ⟨9⟩ 0 ⟨8⟩ (World.deployed Store.empty userFunds) =
      .ok () opened := rfl

theorem userFunds_nonneg (t a : Address) : 0 ≤ userFunds.balance t a :=
  Ledger.ofList_nonneg (by decide) t a

/-- The user deposits 60 and opens an escrow of 40. -/
def depositRun : List (Step ⟨0⟩ Entry) :=
  [.call (.signedBy ⟨0⟩ 2 2 [⟨2⟩]) (.deposit ⟨2⟩ 60),
    .call (.signedBy ⟨0⟩ 3 3 [⟨2⟩]) (.createEscrowEntry ⟨2⟩ ⟨3⟩ 40 10)]

/-- The admin pays 30 of this to `⟨4⟩`. -/
def payoutRun : List (Step ⟨0⟩ Entry) :=
  depositRun ++ [.call (.signedBy ⟨0⟩ 4 4 [⟨1⟩]) (.batchPayout ⟨1⟩ [(⟨4⟩, 30)])]

/-- A run without batch payouts: 100 are owed and held. -/
theorem solvent_iff_covered_deposit :
    (run step opened depositRun).store.getTotalDeposits = 60 ∧
      activeEscrows (run step opened depositRun).shared.escrows = 40 ∧
      ∀ x ∈ trace step opened depositRun, (step x.2 x.1).store.getTotalDeposits +
        activeEscrows (step x.2 x.1).shared.escrows ≤ (step x.2 x.1).tokens.balance ⟨9⟩ ⟨0⟩ := by
  refine ⟨by decide, by decide, ?_⟩
  refine (solvent_iff_covered userFunds_nonneg init_opened depositRun ?_).mpr ?_
  · intro s hs
    fin_cases hs <;> exact id
  · intro x hx
    fin_cases hx <;> trivial

/-- A payout takes from the deposits and the escrows: 70 are left for 100 owed. -/
theorem not_solvent_payout :
    init (Env.signedBy ⟨0⟩ 1 1 [⟨1⟩]) ⟨1⟩ ⟨9⟩ 0 ⟨8⟩ (World.deployed Store.empty userFunds) =
        .ok () opened ∧
      (∀ s ∈ payoutRun, ¬ Initializes s) ∧
      ¬ ∀ x ∈ trace step opened payoutRun, (step x.2 x.1).store.getTotalDeposits +
        activeEscrows (step x.2 x.1).shared.escrows ≤ (step x.2 x.1).tokens.balance ⟨9⟩ ⟨0⟩ := by
  refine ⟨init_opened, ?_, ?_⟩
  · intro s hs
    fin_cases hs <;> exact id
  · decide

end Trellis.Payments
