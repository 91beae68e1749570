import Trellis.Shared.Events
import Trellis.Lib.Holding

/-!
# Payment primitives

Model of `shared::payments` (shared/src/payments.rs): fees in basis points, payments out of the
contract, and escrow deposits with an expiry ledger.

Results:
* `calculateFee_ok`, `calculateFeeSplit_ok`: when a fee is computed, and its value.
* `createEscrow_ok`, `releaseEscrow_ok`, `refundEscrow_ok`: when an escrow operation succeeds and
  the state it leaves.
-/

namespace Trellis

open Exec

variable {me : Address} {S ε : Type}

/-! ## Checks -/

/-- Model of `validate_amount` (shared/src/payments.rs:133–138). -/
def validateAmount (amount : ℤ) : Except Error Unit :=
  if amount ≤ 0 then .error .paymentInvalidAmount else .ok ()

/-- Model of `validate_fee_rate` (shared/src/payments.rs:141–146). -/
def validateFeeRate (rateBps : ℤ) : Except Error Unit :=
  if 0 ≤ rateBps ∧ rateBps ≤ 10000 then .ok () else .error .paymentInvalidFeeRate

/-! ## Fees -/

/-- `o.ok_or(e)` without state. -/
def orError (o : Option ℤ) (e : Error) : Except Error ℤ := o.elim (.error e) .ok

/-- Model of `calculate_fee` (shared/src/payments.rs:265–278). -/
def calculateFee (amount rateBps : ℤ) : Except Error ℤ := do
  validateAmount amount
  validateFeeRate rateBps
  let product ← orError (checkedMul amount rateBps) .paymentFeeOverflow
  orError (checkedDiv product 10000) .paymentFeeOverflow

/-- Model of `calculate_fee_split` (shared/src/payments.rs:283–287): the fee and the rest. -/
def calculateFeeSplit (amount rateBps : ℤ) : Except Error (ℤ × ℤ) := do
  let fee ← calculateFee amount rateBps
  let net ← orError (checkedSub amount fee) .paymentFeeOverflow
  pure (fee, net)

theorem validateAmount_ok {amount : ℤ} {u : Unit} : validateAmount amount = .ok u ↔ 0 < amount := by
  unfold validateAmount
  split_ifs with h <;> simp <;> omega

theorem validateFeeRate_ok {rateBps : ℤ} {u : Unit} :
    validateFeeRate rateBps = .ok u ↔ 0 ≤ rateBps ∧ rateBps ≤ 10000 := by
  unfold validateFeeRate
  split_ifs with h <;> simp [h]

theorem orError_ok {o : Option ℤ} {e : Error} {x : ℤ} : orError o e = .ok x ↔ o = some x := by
  cases o <;> simp [orError]

/-- A fee is computed for positive amounts and rates up to 10000 whose product fits; it is rounded
    down. -/
theorem calculateFee_ok {amount rateBps fee : ℤ} :
    calculateFee amount rateBps = .ok fee ↔
      0 < amount ∧ 0 ≤ rateBps ∧ rateBps ≤ 10000 ∧ amount * rateBps < 2 ^ 127 ∧
        fee = amount * rateBps / 10000 := by
  simp only [calculateFee, except_bind_ok, validateAmount_ok, validateFeeRate_ok, orError_ok,
    checkedMul_eq_some, checkedDiv_eq_some]
  constructor
  · rintro ⟨-, hpos, -, ⟨h₀, h₁⟩, product, ⟨hfit, rfl⟩, -, -, rfl⟩
    have hprod : 0 ≤ amount * rateBps := mul_nonneg hpos.le h₀
    exact ⟨hpos, h₀, h₁, hfit.2, Int.tdiv_eq_ediv_of_nonneg hprod⟩
  · rintro ⟨hpos, h₀, h₁, hfit, rfl⟩
    have hprod : 0 ≤ amount * rateBps := mul_nonneg hpos.le h₀
    obtain ⟨hfee₀, hfee₁⟩ := bps_bounds hpos.le h₀ h₁
    have htdiv : (amount * rateBps).tdiv 10000 = amount * rateBps / 10000 :=
      Int.tdiv_eq_ediv_of_nonneg hprod
    refine ⟨(), hpos, (), ⟨h₀, h₁⟩, amount * rateBps, ⟨⟨by omega, hfit⟩, rfl⟩, by omega, ?_,
      htdiv.symm⟩
    rw [htdiv]
    exact ⟨by omega, by omega⟩

theorem calculateFee_of_fits {amount rateBps : ℤ} (hpos : 0 < amount) (h₀ : 0 ≤ rateBps)
    (h₁ : rateBps ≤ 10000) (hproduct : amount * rateBps < 2 ^ 127) :
    calculateFee amount rateBps = .ok (amount * rateBps / 10000) :=
  calculateFee_ok.mpr ⟨hpos, h₀, h₁, hproduct, rfl⟩

theorem calculateFeeSplit_iff {amount rateBps fee net : ℤ} :
    calculateFeeSplit amount rateBps = .ok (fee, net) ↔
      calculateFee amount rateBps = .ok fee ∧ InI128 (amount - fee) ∧ net = amount - fee := by
  simp only [calculateFeeSplit, except_bind_ok, orError_ok, checkedSub_eq_some]
  constructor
  · rintro ⟨fee', hfee, net', ⟨hfits, rfl⟩, heq⟩
    cases heq
    exact ⟨hfee, hfits, rfl⟩
  · rintro ⟨hfee, hfits, rfl⟩
    exact ⟨fee, hfee, _, ⟨hfits, rfl⟩, rfl⟩

/-- A split pays the fee and the rest, both between zero and the amount. -/
theorem calculateFeeSplit_ok {amount rateBps fee net : ℤ}
    (h : calculateFeeSplit amount rateBps = .ok (fee, net)) :
    0 < amount ∧ 0 ≤ fee ∧ 0 ≤ net ∧ fee + net = amount := by
  obtain ⟨hfee, -, rfl⟩ := calculateFeeSplit_iff.mp h
  obtain ⟨hpos, h₀, h₁, -, rfl⟩ := calculateFee_ok.mp hfee
  obtain ⟨hfee₀, hfee₁⟩ := bps_bounds hpos.le h₀ h₁
  omega

/-! ## Payments -/

/-- Model of `safe_transfer_from_contract` (shared/src/payments.rs:230–244). -/
def safeTransferFromContract (env : Env me) (token dst : Address) (amount : ℤ) :
    Invocation S Error Unit := do
  ofExcept (validateAmount amount)
  transfer env token me dst amount
  emit paymentTransfer [.address me, .address dst, .i128 amount]

/-- `FeeConfig` (shared/src/payments.rs:86–91). -/
structure FeeConfig where
  rateBps : ℤ
  recipient : Address
  deriving DecidableEq, Repr

/-- Model of `deduct_fee` (shared/src/payments.rs:307–334): the fee goes to its recipient, and the
    rest to `dst`. A part of nothing is not transferred. -/
def deductFee (env : Env me) (token src : Address) (feeCfg : FeeConfig) (amount : ℤ)
    (dst : Address) : Invocation S Error ℤ := do
  let split ← ofExcept (calculateFeeSplit amount feeCfg.rateBps)
  onlyIf (split.1 > 0) do
    transfer env token src feeCfg.recipient split.1
    emit paymentFee [.address src, .address feeCfg.recipient, .i128 split.1]
  onlyIf (split.2 > 0) do
    transfer env token src dst split.2
    emit paymentTransfer [.address src, .address dst, .i128 split.2]
  pure split.2

/-! ## Escrow -/

/-- Model of `next_escrow_id` (shared/src/payments.rs:153–160). -/
def nextEscrowId : Invocation S Error ℕ := do
  let current ← readShared fun s => s.escrowIdSeq.getD 0
  let next ← okOr (checkedAddU64 current 1) .paymentEscrowIdOverflow
  writeShared fun s => { s with escrowIdSeq := some next }
  pure next

/-- Model of `store_escrow` (shared/src/payments.rs:163–168). -/
def storeEscrow (record : EscrowRecord) : Invocation S ε Unit := do
  writeShared fun s => { s with escrows := s.escrows.insert record.id record }
  writeShared fun s => { s with escrowActive := some (s.escrowActive.getD [] ++ [record.id]) }

/-- The ids of the list other than `escrowId`. -/
def withoutId (ids : List ℕ) (escrowId : ℕ) : List ℕ := ids.filter fun id => id ≠ escrowId

/-- Model of `remove_from_active` (shared/src/payments.rs:171–180). -/
def removeFromActive (escrowId : ℕ) : Invocation S ε Unit :=
  writeShared fun s =>
    { s with escrowActive := some (withoutId (s.escrowActive.getD []) escrowId) }

/-- Model of `create_escrow` (shared/src/payments.rs:360–407). -/
def createEscrow (env : Env me) (token depositor beneficiary : Address) (amount : ℤ)
    (expiryLedger : ℕ) : Invocation S Error ℕ := do
  ofExcept (validateAmount amount)
  failIf (expiryLedger ≤ env.sequence) .invalidArgument
  let escrowId ← nextEscrowId
  storeEscrow ⟨escrowId, depositor, beneficiary, token, amount, expiryLedger, .active⟩
  transfer env token depositor me amount
  emit paymentEscrowCreated
    [.u64 escrowId, .address depositor, .address beneficiary, .i128 amount, .u32 expiryLedger]
  pure escrowId

/-- Model of `release_escrow` (shared/src/payments.rs:422–459): pays in the token of the
    argument. -/
def releaseEscrow (env : Env me) (token : Address) (escrowId : ℕ) : Invocation S Error Unit := do
  let stored ← readShared fun s => s.escrows.lookup escrowId
  let record ← okOr stored .paymentEscrowNotFound
  failIf (record.state = .released) .paymentEscrowAlreadyReleased
  failIf (record.state = .refunded) .paymentEscrowAlreadyRefunded
  failIf (env.sequence > record.expiryLedger) .paymentEscrowExpired
  writeShared fun s =>
    { s with escrows := s.escrows.insert escrowId { record with state := .released } }
  removeFromActive escrowId
  transfer env token me record.beneficiary record.amount
  emit paymentEscrowReleased [.u64 escrowId, .address record.beneficiary, .i128 record.amount]

/-- Model of `refund_escrow` (shared/src/payments.rs:474–505): pays in the token of the argument,
    at any ledger sequence. -/
def refundEscrow (env : Env me) (token : Address) (escrowId : ℕ) : Invocation S Error Unit := do
  let stored ← readShared fun s => s.escrows.lookup escrowId
  let record ← okOr stored .paymentEscrowNotFound
  failIf (record.state = .released) .paymentEscrowAlreadyReleased
  failIf (record.state = .refunded) .paymentEscrowAlreadyRefunded
  writeShared fun s =>
    { s with escrows := s.escrows.insert escrowId { record with state := .refunded } }
  removeFromActive escrowId
  transfer env token me record.depositor record.amount
  emit paymentEscrowRefunded [.u64 escrowId, .address record.depositor, .i128 record.amount]

/-! ## When the operations succeed -/

@[simp] theorem safeTransferFromContract_ok {env : Env me} {token dst : Address} {amount : ℤ}
    {w w' : World S} {u : Unit} :
    safeTransferFromContract env token dst amount w = .ok u w' ↔
      0 < amount ∧ env.Allows w.tokens ⟨token, me, dst, amount⟩ ∧ w' = { w with
        tokens := w.tokens.move ⟨token, me, dst, amount⟩
        events := w.events ++
          [⟨[paymentTransfer], [.address me, .address dst, .i128 amount]⟩] } := by
  simp [safeTransferFromContract, validateAmount_ok, and_assoc]

/-- A payment from the contract that is left out when the amount is not positive. -/
theorem onlyIf_safeTransfer_ok {env : Env me} {token dst : Address} {amount : ℤ} {w w' : World S}
    {u : Unit}
    (h : onlyIf (amount > 0) (safeTransferFromContract env token dst amount) w = .ok u w') :
    ∃ events, w' = { w with
      tokens := w.tokens.moveAll (Transfer.ifPos ⟨token, me, dst, amount⟩)
      events := events } := by
  rw [onlyIf_ok, safeTransferFromContract_ok] at h
  rcases h with ⟨hpos, -, -, rfl⟩ | ⟨hnot, rfl⟩
  · exact ⟨_, by rw [Transfer.ifPos, if_pos hpos]; rfl⟩
  · exact ⟨w'.events, by rw [Transfer.ifPos, if_neg hnot]; rfl⟩

theorem active_of_not {s : EscrowState} (h₁ : ¬ s = .released) (h₂ : ¬ s = .refunded) :
    s = .active := by
  cases s
  · rfl
  · exact absurd rfl h₁
  · exact absurd rfl h₂

/-- The id that `next_escrow_id` gives out next. -/
def SharedStore.nextEscrow (s : SharedStore) : ℕ := s.escrowIdSeq.getD 0 + 1

/-- When all records have ids that were given out, there is none under the next one. -/
theorem SharedStore.lookup_nextEscrow {s : SharedStore}
    (h : s.escrows.Forall fun id _ => id < s.nextEscrow) :
    s.escrows.lookup s.nextEscrow = none := by
  cases hr : s.escrows.lookup s.nextEscrow with
  | none => rfl
  | some r => exact absurd (h _ r hr) (lt_irrefl _)

theorem createEscrow_ok {env : Env me} {token depositor beneficiary : Address} {amount : ℤ}
    {expiryLedger escrowId : ℕ} {w w' : World S}
    (h : createEscrow env token depositor beneficiary amount expiryLedger w = .ok escrowId w') :
    0 < amount ∧ env.sequence < expiryLedger ∧ escrowId = w.shared.nextEscrow ∧
      env.Allows w.tokens ⟨token, depositor, me, amount⟩ ∧
      ∃ events, w' = { w with
        shared := { w.shared with
          escrowIdSeq := some escrowId
          escrows := w.shared.escrows.insert escrowId
            ⟨escrowId, depositor, beneficiary, token, amount, expiryLedger, .active⟩
          escrowActive := some (w.shared.escrowActive.getD [] ++ [escrowId]) }
        tokens := w.tokens.move ⟨token, depositor, me, amount⟩
        events := events } := by
  simp [createEscrow, nextEscrowId, storeEscrow, validateAmount_ok] at h
  obtain ⟨hpos, hexpiry, -, hallows, rfl, rfl⟩ := h
  exact ⟨hpos, hexpiry, rfl, hallows, _, rfl⟩

theorem releaseEscrow_ok {env : Env me} {token : Address} {escrowId : ℕ} {w w' : World S}
    {u : Unit} (h : releaseEscrow env token escrowId w = .ok u w') :
    ∃ r, w.shared.escrows.lookup escrowId = some r ∧ r.state = .active ∧
      env.sequence ≤ r.expiryLedger ∧
      env.Allows w.tokens ⟨token, me, r.beneficiary, r.amount⟩ ∧
      ∃ events, w' = { w with
        shared := { w.shared with
          escrows := w.shared.escrows.insert escrowId { r with state := .released }
          escrowActive := some (withoutId (w.shared.escrowActive.getD []) escrowId) }
        tokens := w.tokens.move ⟨token, me, r.beneficiary, r.amount⟩
        events := events } := by
  simp [releaseEscrow, removeFromActive] at h
  obtain ⟨r, hr, hnr, hnf, hdue, hallows, rfl⟩ := h
  exact ⟨r, hr, active_of_not hnr hnf, hdue, hallows, _, rfl⟩

theorem refundEscrow_ok {env : Env me} {token : Address} {escrowId : ℕ} {w w' : World S}
    {u : Unit} (h : refundEscrow env token escrowId w = .ok u w') :
    ∃ r, w.shared.escrows.lookup escrowId = some r ∧ r.state = .active ∧
      env.Allows w.tokens ⟨token, me, r.depositor, r.amount⟩ ∧
      ∃ events, w' = { w with
        shared := { w.shared with
          escrows := w.shared.escrows.insert escrowId { r with state := .refunded }
          escrowActive := some (withoutId (w.shared.escrowActive.getD []) escrowId) }
        tokens := w.tokens.move ⟨token, me, r.depositor, r.amount⟩
        events := events } := by
  simp [refundEscrow, removeFromActive] at h
  obtain ⟨r, hr, hnr, hnf, hallows, rfl⟩ := h
  exact ⟨r, hr, active_of_not hnr hnf, hallows, _, rfl⟩

end Trellis
