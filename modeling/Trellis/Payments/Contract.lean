import Trellis.Shared.Auth
import Trellis.Shared.Batch
import Trellis.Shared.Payments

/-!
# Example payments contract

Model of contracts/payments-contract/src/lib.rs: deposits with an internal balance for each user,
withdrawals with a fee, escrow deposits and batch payouts, all in one configured token.

Results:
* `payOut_ok`: what a withdrawal pays.
* `exec_cases`: a call leaves the state alone, or it succeeds; `Done` says what it has checked then
  and which state it leaves.
-/

namespace Trellis.Payments

open Exec

/-- The storage keys of the contract: `TOKEN`, `FEE_RATE`, `FEE_RECIPIENT`, `(DEPOSITED, who)` and
    `TOTAL_DEPOSITS`. -/
structure Store where
  token : Option Address
  feeRate : Option ℤ
  feeRecipient : Option Address
  deposited : Table Address ℤ
  totalDeposits : Option ℤ

/-- The storage of a fresh contract. -/
def Store.empty : Store where
  token := none
  feeRate := none
  feeRecipient := none
  deposited := ∅
  totalDeposits := none

/-- Model of `balance_of` (contracts/payments-contract/src/lib.rs:172–174). -/
def Store.balanceOf (s : Store) (who : Address) : ℤ := (s.deposited.lookup who).getD 0

/-- Model of `total_deposits` (contracts/payments-contract/src/lib.rs:177–179). -/
def Store.getTotalDeposits (s : Store) : ℤ := s.totalDeposits.getD 0

variable {me : Address}

/-! ## Entry points -/

/-- Model of `initialize` (contracts/payments-contract/src/lib.rs:68–94). It checks no caller and
    no earlier initialisation. -/
def init (env : Env me) (admin token : Address) (feeRateBps : ℤ) (feeRecipient : Address) :
    Invocation Store Error Unit := do
  failIf (¬ (0 ≤ feeRateBps ∧ feeRateBps ≤ 10000)) .paymentInvalidFeeRate
  setAdmin admin
  write fun s => { s with token := some token }
  write fun s => { s with feeRate := some feeRateBps }
  write fun s => { s with feeRecipient := some feeRecipient }
  write fun s => { s with totalDeposits := some 0 }
  emitModuleInitialized "pay_gw" 1 admin env.timestamp

/-- Model of `set_fee_rate` (contracts/payments-contract/src/lib.rs:101–117). -/
def setFeeRate (env : Env me) (caller : Address) (newRateBps : ℤ) :
    Invocation Store Error Unit := do
  failIf (¬ (0 ≤ newRateBps ∧ newRateBps ≤ 10000)) .paymentInvalidFeeRate
  requireAdmin env caller
  write fun s => { s with feeRate := some newRateBps }
  emitActionExecuted "pay_gw" "fee_set" caller true env.timestamp

/-- Model of `deposit` (contracts/payments-contract/src/lib.rs:137–169). -/
def deposit (env : Env me) (src : Address) (amount : ℤ) : Invocation Store Error Unit := do
  failIf (amount ≤ 0) .paymentInvalidAmount
  let configured ← read Store.token
  let token ← okOr configured .notFound
  requireAuth env src
  transfer env token src me amount
  let balance ← read fun s => s.balanceOf src
  let newBalance ← okOr (checkedAdd balance amount) .overflow
  write fun s => { s with deposited := s.deposited.insert src newBalance }
  let total ← read Store.getTotalDeposits
  let newTotal ← okOr (checkedAdd total amount) .overflow
  write fun s => { s with totalDeposits := some newTotal }
  emit "t_dep" [.symbol "default", .address src, .i128 amount, .i128 newBalance]

/-- The payments of a withdrawal, the block that `withdraw` and `withdraw_amount` share
    (contracts/payments-contract/src/lib.rs:198–214 and 248–264): the fee to its recipient and the
    rest to `who`. -/
def payOut (env : Env me) (who : Address) (amount : ℤ) : Invocation Store Error ℤ := do
  let configured ← read Store.token
  let token ← okOr configured .notFound
  let feeRate ← read fun s => s.feeRate.getD 0
  let recipient ← read Store.feeRecipient
  let feeRecipient ← okOr recipient .notFound
  let split ← ofExcept (calculateFeeSplit amount feeRate)
  onlyIf (split.1 > 0) (safeTransferFromContract env token feeRecipient split.1)
  onlyIf (split.2 > 0) (safeTransferFromContract env token who split.2)
  pure split.2

/-- Model of `withdraw` (contracts/payments-contract/src/lib.rs:190–234). -/
def withdraw (env : Env me) (who : Address) : Invocation Store Error ℤ := do
  requireAuth env who
  let deposited ← read fun s => s.balanceOf who
  failIf (deposited ≤ 0) .paymentInsufficientBalance
  let net ← payOut env who deposited
  write fun s => { s with deposited := s.deposited.insert who 0 }
  let total ← read Store.getTotalDeposits
  write fun s => { s with totalDeposits := some ((checkedSub total deposited).getD 0) }
  emit "t_wdw" [.symbol "default", .address who, .i128 deposited, .i128 net]
  pure net

/-- Model of `withdraw_amount` (contracts/payments-contract/src/lib.rs:237–279). -/
def withdrawAmount (env : Env me) (who : Address) (amount : ℤ) : Invocation Store Error ℤ := do
  failIf (amount ≤ 0) .paymentInvalidAmount
  requireAuth env who
  let deposited ← read fun s => s.balanceOf who
  failIf (amount > deposited) .paymentInsufficientBalance
  let net ← payOut env who amount
  let newBalance ← expect (checkedSub deposited amount) .overflow
  write fun s => { s with deposited := s.deposited.insert who newBalance }
  let total ← read Store.getTotalDeposits
  write fun s => { s with totalDeposits := some ((checkedSub total amount).getD 0) }
  pure net

/-- Model of `create_escrow_entry` (contracts/payments-contract/src/lib.rs:289–307). -/
def createEscrowEntry (env : Env me) (depositor beneficiary : Address) (amount : ℤ)
    (expiryLedger : ℕ) : Invocation Store Error ℕ := do
  requireAuth env depositor
  let configured ← read Store.token
  let token ← okOr configured .notFound
  createEscrow env token depositor beneficiary amount expiryLedger

/-- Model of `release_escrow_entry` (contracts/payments-contract/src/lib.rs:310–315). -/
def releaseEscrowEntry (env : Env me) (caller : Address) (escrowId : ℕ) :
    Invocation Store Error Unit := do
  requireAdmin env caller
  let configured ← read Store.token
  let token ← okOr configured .notFound
  releaseEscrow env token escrowId

/-- Model of `refund_escrow_entry` (contracts/payments-contract/src/lib.rs:318–323). -/
def refundEscrowEntry (env : Env me) (caller : Address) (escrowId : ℕ) :
    Invocation Store Error Unit := do
  requireAdmin env caller
  let configured ← read Store.token
  let token ← okOr configured .notFound
  refundEscrow env token escrowId

/-- Model of `batch_payout` (contracts/payments-contract/src/lib.rs:338–356): a batch in atomic mode
    from the contract's own balance. -/
def batchPayout (env : Env me) (caller : Address) (recipients : List (Address × ℤ)) :
    Invocation Store Error BatchResult := do
  unwrap .unwrapped (requireAdmin env caller)
  let configured ← read Store.token
  let token ← expect configured .missing
  unwrap .unwrapped (multiTransferAll env me token recipients)

/-- A call of an entry point that can write. -/
inductive Entry where
  | init (admin token : Address) (feeRateBps : ℤ) (feeRecipient : Address)
  | setFeeRate (caller : Address) (newRateBps : ℤ)
  | deposit (src : Address) (amount : ℤ)
  | withdraw (who : Address)
  | withdrawAmount (who : Address) (amount : ℤ)
  | createEscrowEntry (depositor beneficiary : Address) (amount : ℤ) (expiryLedger : ℕ)
  | releaseEscrowEntry (caller : Address) (escrowId : ℕ)
  | refundEscrowEntry (caller : Address) (escrowId : ℕ)
  | batchPayout (caller : Address) (recipients : List (Address × ℤ))

/-- The state after a call: committed on `Ok`, rolled back otherwise. -/
def exec (env : Env me) : Entry → World Store → World Store
  | .init admin token rate recipient => (init env admin token rate recipient).commit
  | .setFeeRate caller rate => (setFeeRate env caller rate).commit
  | .deposit src amount => (deposit env src amount).commit
  | .withdraw who => (withdraw env who).commit
  | .withdrawAmount who amount => (withdrawAmount env who amount).commit
  | .createEscrowEntry depositor beneficiary amount expiry =>
    (createEscrowEntry env depositor beneficiary amount expiry).commit
  | .releaseEscrowEntry caller id => (releaseEscrowEntry env caller id).commit
  | .refundEscrowEntry caller id => (refundEscrowEntry env caller id).commit
  | .batchPayout caller recipients => (batchPayout env caller recipients).commit

/-- A step of the chain as the contract sees it. -/
def step : Step me Entry → World Store → World Store := Step.apply exec

/-! ## What the entry points do -/

/-- The transfers of a withdrawal from the contract. -/
def payouts (me token feeRecipient who : Address) (fee net : ℤ) : List TokenTransfer :=
  Transfer.ifPos ⟨token, me, feeRecipient, fee⟩ ++ Transfer.ifPos ⟨token, me, who, net⟩

/-- The items of a batch payout. -/
def payoutBatch (recipients : List (Address × ℤ)) : List BatchTransfer :=
  recipients.map fun r => ⟨r.1, r.2⟩

/-- A withdrawal splits the amount and makes both transfers. -/
theorem payOut_ok {env : Env me} {who : Address} {amount net : ℤ} {w w' : World Store}
    (h : payOut env who amount w = .ok net w') :
    ∃ token feeRecipient fee, w.store.token = some token ∧
      w.store.feeRecipient = some feeRecipient ∧
      calculateFeeSplit amount (w.store.feeRate.getD 0) = .ok (fee, net) ∧
      ∃ events, w' = { w with
        tokens := w.tokens.moveAll (payouts me token feeRecipient who fee net)
        events := events } := by
  simp only [payOut, bind_ok, read_ok, okOr_ok, ofExcept_ok, pure_ok] at h
  obtain ⟨_, _, ⟨rfl, rfl⟩, token, _, ⟨htoken, rfl⟩, _, _, ⟨rfl, rfl⟩, _, _, ⟨rfl, rfl⟩,
    feeRecipient, _, ⟨hrecipient, rfl⟩, ⟨fee, rest⟩, _, ⟨hsplit, rfl⟩, _, w₁, hfee, _, w₂, hnet,
    rfl, rfl⟩ := h
  obtain ⟨events₁, rfl⟩ := onlyIf_safeTransfer_ok hfee
  obtain ⟨events₂, rfl⟩ := onlyIf_safeTransfer_ok hnet
  exact ⟨token, feeRecipient, fee, htoken, hrecipient, hsplit, events₂,
    by rw [payouts, Ledger.moveAll_append]⟩

/-- What a successful call has checked, and the state it leaves. -/
inductive Done (env : Env me) (w : World Store) : Entry → World Store → Prop where
  | init {admin token : Address} {rate : ℤ} {recipient : Address} (events : List Event)
      (h₀ : 0 ≤ rate) (h₁ : rate ≤ 10000) :
      Done env w (.init admin token rate recipient) { w with
        shared := { w.shared with admin := some admin }
        store := { w.store with
          token := some token
          feeRate := some rate
          feeRecipient := some recipient
          totalDeposits := some 0 }
        events := events }
  | setFeeRate {caller : Address} {rate : ℤ} (events : List Event)
      (hadmin : w.shared.admin = some caller) (hsigned : env.signed caller = true)
      (h₀ : 0 ≤ rate) (h₁ : rate ≤ 10000) :
      Done env w (.setFeeRate caller rate) { w with
        store := { w.store with feeRate := some rate }
        events := events }
  | deposit {src : Address} {amount : ℤ} (events : List Event) (token : Address)
      (hpos : 0 < amount) (htoken : w.store.token = some token)
      (hsigned : env.signed src = true)
      (hallows : env.Allows w.tokens ⟨token, src, me, amount⟩)
      (hfits : InI128 (w.store.getTotalDeposits + amount)) :
      Done env w (.deposit src amount) { w with
        store := { w.store with
          deposited := w.store.deposited.insert src (w.store.balanceOf src + amount)
          totalDeposits := some (w.store.getTotalDeposits + amount) }
        tokens := w.tokens.move ⟨token, src, me, amount⟩
        events := events }
  | withdraw {who : Address} (events : List Event) (token feeRecipient : Address) (fee net : ℤ)
      (htoken : w.store.token = some token) (hrecipient : w.store.feeRecipient = some feeRecipient)
      (hsigned : env.signed who = true) (hpos : 0 < w.store.balanceOf who)
      (hsplit : calculateFeeSplit (w.store.balanceOf who) (w.store.feeRate.getD 0) =
        .ok (fee, net)) :
      Done env w (.withdraw who) { w with
        store := { w.store with
          deposited := w.store.deposited.insert who 0
          totalDeposits :=
            some ((checkedSub w.store.getTotalDeposits (w.store.balanceOf who)).getD 0) }
        tokens := w.tokens.moveAll (payouts me token feeRecipient who fee net)
        events := events }
  | withdrawAmount {who : Address} {amount : ℤ} (events : List Event)
      (token feeRecipient : Address) (fee net : ℤ)
      (htoken : w.store.token = some token) (hrecipient : w.store.feeRecipient = some feeRecipient)
      (hsigned : env.signed who = true) (hpos : 0 < amount) (hle : amount ≤ w.store.balanceOf who)
      (hsplit : calculateFeeSplit amount (w.store.feeRate.getD 0) = .ok (fee, net)) :
      Done env w (.withdrawAmount who amount) { w with
        store := { w.store with
          deposited := w.store.deposited.insert who (w.store.balanceOf who - amount)
          totalDeposits := some ((checkedSub w.store.getTotalDeposits amount).getD 0) }
        tokens := w.tokens.moveAll (payouts me token feeRecipient who fee net)
        events := events }
  | createEscrowEntry {depositor beneficiary : Address} {amount : ℤ} {expiry : ℕ}
      (events : List Event) (token : Address) (htoken : w.store.token = some token)
      (hsigned : env.signed depositor = true) (hpos : 0 < amount) (hexpiry : env.sequence < expiry)
      (hallows : env.Allows w.tokens ⟨token, depositor, me, amount⟩) :
      Done env w (.createEscrowEntry depositor beneficiary amount expiry) { w with
        shared := { w.shared with
          escrowIdSeq := some w.shared.nextEscrow
          escrows := w.shared.escrows.insert w.shared.nextEscrow
            ⟨w.shared.nextEscrow, depositor, beneficiary, token, amount, expiry, .active⟩
          escrowActive := some (w.shared.escrowActive.getD [] ++ [w.shared.nextEscrow]) }
        tokens := w.tokens.move ⟨token, depositor, me, amount⟩
        events := events }
  | releaseEscrowEntry {caller : Address} {id : ℕ} (events : List Event) (token : Address)
      (r : EscrowRecord) (htoken : w.store.token = some token)
      (hadmin : w.shared.admin = some caller) (hsigned : env.signed caller = true)
      (hr : w.shared.escrows.lookup id = some r) (hactive : r.state = .active)
      (hdue : env.sequence ≤ r.expiryLedger)
      (hallows : env.Allows w.tokens ⟨token, me, r.beneficiary, r.amount⟩) :
      Done env w (.releaseEscrowEntry caller id) { w with
        shared := { w.shared with
          escrows := w.shared.escrows.insert id { r with state := .released }
          escrowActive := some (withoutId (w.shared.escrowActive.getD []) id) }
        tokens := w.tokens.move ⟨token, me, r.beneficiary, r.amount⟩
        events := events }
  | refundEscrowEntry {caller : Address} {id : ℕ} (events : List Event) (token : Address)
      (r : EscrowRecord) (htoken : w.store.token = some token)
      (hadmin : w.shared.admin = some caller) (hsigned : env.signed caller = true)
      (hr : w.shared.escrows.lookup id = some r) (hactive : r.state = .active)
      (hallows : env.Allows w.tokens ⟨token, me, r.depositor, r.amount⟩) :
      Done env w (.refundEscrowEntry caller id) { w with
        shared := { w.shared with
          escrows := w.shared.escrows.insert id { r with state := .refunded }
          escrowActive := some (withoutId (w.shared.escrowActive.getD []) id) }
        tokens := w.tokens.move ⟨token, me, r.depositor, r.amount⟩
        events := events }
  | batchPayout {caller : Address} {recipients : List (Address × ℤ)} (events : List Event)
      (token : Address) (htoken : w.store.token = some token)
      (hadmin : w.shared.admin = some caller) (hsigned : env.signed caller = true)
      (hallows : env.AllowsAll w.tokens
        ((leading (payoutBatch recipients)).map (·.toTransfer token me))) :
      Done env w (.batchPayout caller recipients) { w with
        tokens := w.tokens.moveAll
          ((leading (payoutBatch recipients)).map (·.toTransfer token me))
        events := events }

theorem init_done {env : Env me} {admin token : Address} {rate : ℤ} {recipient : Address}
    {w w' : World Store} {u : Unit} (h : init env admin token rate recipient w = .ok u w') :
    Done env w (.init admin token rate recipient) w' := by
  simp [init] at h
  obtain ⟨⟨h₀, h₁⟩, rfl⟩ := h
  exact .init _ h₀ h₁

theorem setFeeRate_done {env : Env me} {caller : Address} {rate : ℤ} {w w' : World Store}
    {u : Unit} (h : setFeeRate env caller rate w = .ok u w') :
    Done env w (.setFeeRate caller rate) w' := by
  simp [setFeeRate] at h
  obtain ⟨⟨h₀, h₁⟩, ⟨hadmin, hsigned⟩, rfl⟩ := h
  exact .setFeeRate _ hadmin hsigned h₀ h₁

theorem deposit_done {env : Env me} {src : Address} {amount : ℤ} {w w' : World Store} {u : Unit}
    (h : deposit env src amount w = .ok u w') : Done env w (.deposit src amount) w' := by
  simp [deposit] at h
  obtain ⟨hpos, token, htoken, hsigned, hallows, -, hfits, rfl⟩ := h
  exact .deposit _ token hpos htoken hsigned hallows hfits

theorem withdraw_done {env : Env me} {who : Address} {net : ℤ} {w w' : World Store}
    (h : withdraw env who w = .ok net w') : Done env w (.withdraw who) w' := by
  simp [withdraw] at h
  obtain ⟨hsigned, hpos, w₁, hpay, rfl⟩ := h
  obtain ⟨token, feeRecipient, fee, htoken, hrecipient, hsplit, events, rfl⟩ := payOut_ok hpay
  exact .withdraw _ token feeRecipient fee _ htoken hrecipient hsigned hpos hsplit

theorem withdrawAmount_done {env : Env me} {who : Address} {amount net : ℤ} {w w' : World Store}
    (h : withdrawAmount env who amount w = .ok net w') :
    Done env w (.withdrawAmount who amount) w' := by
  simp [withdrawAmount] at h
  obtain ⟨hpos, hsigned, hle, w₁, hpay, -, rfl⟩ := h
  obtain ⟨token, feeRecipient, fee, htoken, hrecipient, hsplit, events, rfl⟩ := payOut_ok hpay
  exact .withdrawAmount _ token feeRecipient fee _ htoken hrecipient hsigned hpos hle hsplit

theorem createEscrowEntry_done {env : Env me} {depositor beneficiary : Address} {amount : ℤ}
    {expiry id : ℕ} {w w' : World Store}
    (h : createEscrowEntry env depositor beneficiary amount expiry w = .ok id w') :
    Done env w (.createEscrowEntry depositor beneficiary amount expiry) w' := by
  simp [createEscrowEntry] at h
  obtain ⟨hsigned, token, htoken, hcreate⟩ := h
  obtain ⟨hpos, hexpiry, rfl, hallows, events, rfl⟩ := createEscrow_ok hcreate
  exact .createEscrowEntry _ token htoken hsigned hpos hexpiry hallows

theorem createEscrowEntry_id {env : Env me} {depositor beneficiary : Address} {amount : ℤ}
    {expiry id : ℕ} {w w' : World Store}
    (h : createEscrowEntry env depositor beneficiary amount expiry w = .ok id w') :
    id = w.shared.nextEscrow := by
  simp [createEscrowEntry] at h
  obtain ⟨-, token, -, hcreate⟩ := h
  exact (createEscrow_ok hcreate).2.2.1

theorem releaseEscrowEntry_done {env : Env me} {caller : Address} {id : ℕ} {w w' : World Store}
    {u : Unit} (h : releaseEscrowEntry env caller id w = .ok u w') :
    Done env w (.releaseEscrowEntry caller id) w' := by
  simp [releaseEscrowEntry] at h
  obtain ⟨⟨hadmin, hsigned⟩, token, htoken, hrelease⟩ := h
  obtain ⟨r, hr, hactive, hdue, hallows, events, rfl⟩ := releaseEscrow_ok hrelease
  exact .releaseEscrowEntry _ token r htoken hadmin hsigned hr hactive hdue hallows

theorem refundEscrowEntry_done {env : Env me} {caller : Address} {id : ℕ} {w w' : World Store}
    {u : Unit} (h : refundEscrowEntry env caller id w = .ok u w') :
    Done env w (.refundEscrowEntry caller id) w' := by
  simp [refundEscrowEntry] at h
  obtain ⟨⟨hadmin, hsigned⟩, token, htoken, hrefund⟩ := h
  obtain ⟨r, hr, hactive, hallows, events, rfl⟩ := refundEscrow_ok hrefund
  exact .refundEscrowEntry _ token r htoken hadmin hsigned hr hactive hallows

theorem batchPayout_done {env : Env me} {caller : Address} {recipients : List (Address × ℤ)}
    {result : BatchResult} {w w' : World Store}
    (h : batchPayout env caller recipients w = .ok result w') :
    Done env w (.batchPayout caller recipients) w' := by
  simp [batchPayout, multiTransferAll,
    executeMultiTransfer_atomic_ok BatchConfig.atomicDefault_mode]
    at h
  obtain ⟨⟨hadmin, hsigned⟩, token, htoken, -, -, hallows, -, rfl⟩ := h
  exact .batchPayout _ token htoken hadmin hsigned hallows

/-- A call leaves the state alone, or it succeeds and does what `Done` says. -/
theorem exec_cases (env : Env me) (c : Entry) (w : World Store) :
    exec env c w = w ∨ Done env w c (exec env c w) := by
  cases c with
  | init => exact commit_imp fun _ _ => init_done
  | setFeeRate => exact commit_imp fun _ _ => setFeeRate_done
  | deposit => exact commit_imp fun _ _ => deposit_done
  | withdraw => exact commit_imp fun _ _ => withdraw_done
  | withdrawAmount => exact commit_imp fun _ _ => withdrawAmount_done
  | createEscrowEntry => exact commit_imp fun _ _ => createEscrowEntry_done
  | releaseEscrowEntry => exact commit_imp fun _ _ => releaseEscrowEntry_done
  | refundEscrowEntry => exact commit_imp fun _ _ => refundEscrowEntry_done
  | batchPayout => exact commit_imp fun _ _ => batchPayout_done

theorem step_cases (s : Step me Entry) (w : World Store) :
    (∃ (env : Env me) (x : TokenTransfer), step s w = outsideTransfer env x w) ∨ step s w = w ∨
      ∃ env c w', s = .call env c ∧ step s w = w' ∧ Done env w c w' :=
  Step.cases exec_cases s w

end Trellis.Payments
