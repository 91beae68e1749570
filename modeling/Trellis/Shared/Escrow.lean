import Trellis.Lib.Custody
import Trellis.Shared.Payments

/-!
# Escrows of the payment primitives

The escrow records of `shared::payments`, for a contract that lets anyone call `create_escrow`,
`release_escrow` and `refund_escrow` with any token. A record names the token that was deposited,
but `release_escrow` and `refund_escrow` pay in the token of their argument.

Results:
* `releaseEscrow_succeeds`, `refundEscrow_succeeds`: when an escrow can be settled.
* `evolves_escrowStep`: a record changes at most once, and only its state.
* `faithful_solvent_iff`: a call settles in the token of the record, and leaves every token covered,
  exactly when it is matched.
* `escrow_tokens_iff`: the same over runs.
-/

namespace Trellis

open Exec

variable {me : Address} {S : Type}

/-! ## Records -/

/-- `r'` is the record `r`, or `r` was active and `r'` is `r` after one of its two exits. -/
def EscrowRecord.Later (r r' : EscrowRecord) : Prop :=
  r' = r ∨ r.state = .active ∧
    (r' = { r with state := .released } ∨ r' = { r with state := .refunded })

theorem EscrowRecord.Later.refl (r : EscrowRecord) : r.Later r := .inl rfl

theorem EscrowRecord.Later.trans {r r' r'' : EscrowRecord} (h : r.Later r') (h' : r'.Later r'') :
    r.Later r'' := by
  rcases h with rfl | ⟨hactive, hexit⟩
  · exact h'
  · rcases h' with rfl | ⟨hactive', -⟩
    · exact .inr ⟨hactive, hexit⟩
    · -- a record that took an exit is no longer active
      rcases hexit with rfl | rfl <;> cases hactive'

theorem EscrowRecord.Later.deposit {r r' : EscrowRecord} (h : r.Later r') :
    r'.token = r.token ∧ r'.amount = r.amount ∧ r'.depositor = r.depositor ∧
      r'.beneficiary = r.beneficiary := by
  rcases h with rfl | ⟨-, rfl | rfl⟩ <;> exact ⟨rfl, rfl, rfl, rfl⟩

/-- An active record stands for its amount of its token. -/
def escrowHolding : Holding EscrowRecord Address where
  live r := decide (r.state = .active)
  kind := EscrowRecord.token
  amount := EscrowRecord.amount

/-- The balances of the contract against its active records. -/
def escrowCustody (me : Address) (S : Type) : Custody (World S) Address where
  held w t := w.tokens.balance t me
  owed w t := escrowHolding.owed w.shared.escrows t

/-! ## When the calls succeed -/

/-- The conditions under which `create_escrow` succeeds. -/
structure CanCreate (env : Env me) (w : World S) (token depositor : Address) (amount : ℤ)
    (expiryLedger : ℕ) : Prop where
  pos : 0 < amount
  expiry : env.sequence < expiryLedger
  room : w.shared.nextEscrow < 2 ^ 64
  allows : env.Allows w.tokens ⟨token, depositor, me, amount⟩

/-- The conditions under which an escrow can be paid to `dst` in the token. -/
structure CanSettle (env : Env me) (w : World S) (token dst : Address) (escrowId : ℕ)
    (r : EscrowRecord) : Prop where
  stored : w.shared.escrows.lookup escrowId = some r
  active : r.state = .active
  allows : env.Allows w.tokens ⟨token, me, dst, r.amount⟩

theorem createEscrow_succeeds {env : Env me} {token depositor beneficiary : Address} {amount : ℤ}
    {expiryLedger : ℕ} {w : World S} :
    (createEscrow env token depositor beneficiary amount expiryLedger).Succeeds w ↔
      CanCreate env w token depositor amount expiryLedger := by
  constructor
  · rintro ⟨id, w', h⟩
    simp [createEscrow, nextEscrowId, storeEscrow, validateAmount_ok] at h
    obtain ⟨hpos, hexpiry, hroom, hallows, -⟩ := h
    exact ⟨hpos, hexpiry, hroom, hallows⟩
  · rintro ⟨hpos, hexpiry, hroom, hallows⟩
    simp [Exec.Succeeds, createEscrow, nextEscrowId, storeEscrow, validateAmount_ok, hpos, hexpiry,
      hallows]
    exact hroom

theorem releaseEscrow_succeeds {env : Env me} {token : Address} {escrowId : ℕ} {w : World S} :
    (releaseEscrow env token escrowId).Succeeds w ↔
      ∃ r, CanSettle env w token r.beneficiary escrowId r ∧ env.sequence ≤ r.expiryLedger := by
  constructor
  · rintro ⟨u, w', h⟩
    obtain ⟨r, hr, hactive, hdue, hallows, -⟩ := releaseEscrow_ok h
    exact ⟨r, ⟨hr, hactive, hallows⟩, hdue⟩
  · rintro ⟨r, ⟨hr, hactive, hallows⟩, hdue⟩
    simp [Exec.Succeeds, releaseEscrow, removeFromActive, hr, hactive, hallows, hdue]

theorem refundEscrow_succeeds {env : Env me} {token : Address} {escrowId : ℕ} {w : World S} :
    (refundEscrow env token escrowId).Succeeds w ↔
      ∃ r, CanSettle env w token r.depositor escrowId r := by
  constructor
  · rintro ⟨u, w', h⟩
    obtain ⟨r, hr, hactive, hallows, -⟩ := refundEscrow_ok h
    exact ⟨r, hr, hactive, hallows⟩
  · rintro ⟨r, hr, hactive, hallows⟩
    simp [Exec.Succeeds, refundEscrow, removeFromActive, hr, hactive, hallows]

/-! ## Calls -/

/-- A call of an escrow operation, with any token. -/
inductive EscrowEntry where
  | createEscrow (token depositor beneficiary : Address) (amount : ℤ) (expiryLedger : ℕ)
  | releaseEscrow (token : Address) (escrowId : ℕ)
  | refundEscrow (token : Address) (escrowId : ℕ)

/-- The state after a call: committed on `Ok`, rolled back otherwise. -/
def execEscrow (env : Env me) : EscrowEntry → World S → World S
  | .createEscrow token depositor beneficiary amount expiryLedger =>
    (createEscrow env token depositor beneficiary amount expiryLedger).commit
  | .releaseEscrow token escrowId => (releaseEscrow env token escrowId).commit
  | .refundEscrow token escrowId => (refundEscrow env token escrowId).commit

/-- The call returns `Ok`. -/
def EscrowReturns (env : Env me) (w : World S) : EscrowEntry → Prop
  | .createEscrow token depositor beneficiary amount expiryLedger =>
    (createEscrow env token depositor beneficiary amount expiryLedger).Succeeds w
  | .releaseEscrow token escrowId => (releaseEscrow env token escrowId).Succeeds w
  | .refundEscrow token escrowId => (refundEscrow env token escrowId).Succeeds w

/-- A step of the chain as a contract with these operations sees it. -/
def escrowStep : Step me EscrowEntry → World S → World S := Step.apply execEscrow

/-- What a successful call has checked, and what it does to records and balances. -/
inductive EscrowDone (env : Env me) (w : World S) : EscrowEntry → World S → Prop where
  | createEscrow {token depositor beneficiary : Address} {amount : ℤ} {expiryLedger : ℕ}
      {w' : World S} (hcan : CanCreate env w token depositor amount expiryLedger)
      (hseq : w'.shared.escrowIdSeq = some w.shared.nextEscrow)
      (hescrows : w'.shared.escrows = w.shared.escrows.insert w.shared.nextEscrow
        ⟨w.shared.nextEscrow, depositor, beneficiary, token, amount, expiryLedger, .active⟩)
      (htokens : w'.tokens = w.tokens.move ⟨token, depositor, me, amount⟩) :
      EscrowDone env w (.createEscrow token depositor beneficiary amount expiryLedger) w'
  | releaseEscrow {token : Address} {escrowId : ℕ} {w' : World S} (r : EscrowRecord)
      (hcan : CanSettle env w token r.beneficiary escrowId r)
      (hdue : env.sequence ≤ r.expiryLedger) (hseq : w'.shared.escrowIdSeq = w.shared.escrowIdSeq)
      (hescrows : w'.shared.escrows =
        w.shared.escrows.insert escrowId { r with state := .released })
      (htokens : w'.tokens = w.tokens.move ⟨token, me, r.beneficiary, r.amount⟩) :
      EscrowDone env w (.releaseEscrow token escrowId) w'
  | refundEscrow {token : Address} {escrowId : ℕ} {w' : World S} (r : EscrowRecord)
      (hcan : CanSettle env w token r.depositor escrowId r)
      (hseq : w'.shared.escrowIdSeq = w.shared.escrowIdSeq)
      (hescrows : w'.shared.escrows =
        w.shared.escrows.insert escrowId { r with state := .refunded })
      (htokens : w'.tokens = w.tokens.move ⟨token, me, r.depositor, r.amount⟩) :
      EscrowDone env w (.refundEscrow token escrowId) w'

theorem createEscrow_done {env : Env me} {token depositor beneficiary : Address} {amount : ℤ}
    {expiryLedger escrowId : ℕ} {w w' : World S}
    (h : createEscrow env token depositor beneficiary amount expiryLedger w = .ok escrowId w') :
    EscrowDone env w (.createEscrow token depositor beneficiary amount expiryLedger) w' := by
  have hcan := createEscrow_succeeds.mp ⟨_, _, h⟩
  obtain ⟨-, -, rfl, -, events, rfl⟩ := createEscrow_ok h
  exact .createEscrow hcan rfl rfl rfl

theorem releaseEscrow_done {env : Env me} {token : Address} {escrowId : ℕ} {w w' : World S}
    {u : Unit} (h : releaseEscrow env token escrowId w = .ok u w') :
    EscrowDone env w (.releaseEscrow token escrowId) w' := by
  obtain ⟨r, hr, hactive, hdue, hallows, events, rfl⟩ := releaseEscrow_ok h
  exact .releaseEscrow r ⟨hr, hactive, hallows⟩ hdue rfl rfl rfl

theorem refundEscrow_done {env : Env me} {token : Address} {escrowId : ℕ} {w w' : World S}
    {u : Unit} (h : refundEscrow env token escrowId w = .ok u w') :
    EscrowDone env w (.refundEscrow token escrowId) w' := by
  obtain ⟨r, hr, hactive, hallows, events, rfl⟩ := refundEscrow_ok h
  exact .refundEscrow r ⟨hr, hactive, hallows⟩ rfl rfl rfl

/-- A call does not return and leaves the state alone, or it returns and does what `EscrowDone`
    says. -/
theorem execEscrow_returns (env : Env me) (c : EscrowEntry) (w : World S) :
    (¬ EscrowReturns env w c ∧ execEscrow env c w = w) ∨
      (EscrowReturns env w c ∧ EscrowDone env w c (execEscrow env c w)) := by
  cases c with
  | createEscrow => exact commit_returns fun _ _ => createEscrow_done
  | releaseEscrow => exact commit_returns fun _ _ => releaseEscrow_done
  | refundEscrow => exact commit_returns fun _ _ => refundEscrow_done

/-! ## What a call should do -/

/-- The transfer is made, and no balance of another token changes. -/
structure Moves (w w' : World S) (x : TokenTransfer) : Prop where
  made : w'.tokens = w.tokens.move x
  others : ∀ t, t ≠ x.token → w'.tokens.balance t = w.tokens.balance t

theorem Moves.of_eq {w w' : World S} {x : TokenTransfer} (h : w'.tokens = w.tokens.move x) :
    Moves w w' x where
  made := h
  others := by
    intro t ht
    funext a
    rw [h, Ledger.balance_move]
    unfold Transfer.net
    rw [if_neg (Ne.symm ht), add_zero]

/-- A call that settles an escrow moves the amount of the record in the token of the record. -/
def Faithful (w : World S) : Step me EscrowEntry → Prop
  | .call env (.releaseEscrow token escrowId) => (releaseEscrow env token escrowId).Succeeds w →
    ∃ r, w.shared.escrows.lookup escrowId = some r ∧
      Moves w (escrowStep (.call env (.releaseEscrow token escrowId)) w)
        ⟨r.token, me, r.beneficiary, r.amount⟩
  | .call env (.refundEscrow token escrowId) => (refundEscrow env token escrowId).Succeeds w →
    ∃ r, w.shared.escrows.lookup escrowId = some r ∧
      Moves w (escrowStep (.call env (.refundEscrow token escrowId)) w)
        ⟨r.token, me, r.depositor, r.amount⟩
  | _ => True

/-- A call that settles an escrow is given the token of its record. An escrow that the contract
    itself deposits brings nothing in, and is covered by what the contract holds beyond its
    escrows. -/
def Matched (w : World S) : Step me EscrowEntry → Prop
  | .call env (.createEscrow token depositor _ amount expiryLedger) => depositor = me →
    CanCreate env w token depositor amount expiryLedger →
      amount ≤ (escrowCustody me S).surplus w token
  | .call env (.releaseEscrow token escrowId) =>
    ∀ r, CanSettle env w token r.beneficiary escrowId r →
    env.sequence ≤ r.expiryLedger → token = r.token
  | .call env (.refundEscrow token escrowId) => ∀ r, CanSettle env w token r.depositor escrowId r →
    token = r.token
  | .outside _ _ => True

/-- The records have ids that were given out. -/
def EscrowIds (w : World S) : Prop := w.shared.escrows.Forall fun id _ => id < w.shared.nextEscrow

theorem EscrowIds.step {w : World S} (h : EscrowIds w) (s : Step me EscrowEntry) :
    EscrowIds (escrowStep s w) := by
  -- a record is written under an id that was given out
  have hset : ∀ {w' : World S} {id : ℕ} {r r' : EscrowRecord},
      w.shared.escrows.lookup id = some r → w'.shared.escrowIdSeq = w.shared.escrowIdSeq →
      w'.shared.escrows = w.shared.escrows.insert id r' → EscrowIds w' := by
    intro w' id r r' hr hseq hescrows
    unfold EscrowIds SharedStore.nextEscrow
    rw [hescrows, hseq]
    exact Table.Forall.set h (h id r hr)
  cases s with
  | outside env x =>
    unfold EscrowIds
    rw [escrowStep, Step.apply, shared_outsideTransfer]
    exact h
  | call env c =>
    show EscrowIds (execEscrow env c w)
    rcases execEscrow_returns env c w with ⟨-, hsame⟩ | ⟨-, hdone⟩
    · rw [hsame]
      exact h
    · generalize execEscrow env c w = w' at hdone ⊢
      cases hdone with
      | createEscrow hcan hseq hescrows =>
        have hnext : w'.shared.nextEscrow = w.shared.nextEscrow + 1 := by
          rw [SharedStore.nextEscrow, hseq]
          rfl
        unfold EscrowIds
        rw [hescrows, hnext]
        refine Table.Forall.set (fun id r hr => ?_) (Nat.lt_succ_self _)
        exact (h id r hr).trans (Nat.lt_succ_self _)
      | releaseEscrow r hcan hdue hseq hescrows => exact hset hcan.stored hseq hescrows
      | refundEscrow r hcan hseq hescrows => exact hset hcan.stored hseq hescrows

/-- A record only evolves. -/
theorem evolves_escrowStep {w : World S} (h : EscrowIds w) (s : Step me EscrowEntry) :
    Table.Evolves EscrowRecord.Later w.shared.escrows (escrowStep s w).shared.escrows := by
  cases s with
  | outside env x =>
    rw [escrowStep, Step.apply, shared_outsideTransfer]
    exact Table.Evolves.refl EscrowRecord.Later.refl _
  | call env c =>
    show Table.Evolves _ _ (execEscrow env c w).shared.escrows
    rcases execEscrow_returns env c w with ⟨-, hsame⟩ | ⟨-, hdone⟩
    · rw [hsame]
      exact Table.Evolves.refl EscrowRecord.Later.refl _
    · generalize execEscrow env c w = w' at hdone ⊢
      cases hdone with
      | createEscrow hcan hseq hescrows =>
        rw [hescrows]
        exact Table.Evolves.set_new EscrowRecord.Later.refl (SharedStore.lookup_nextEscrow h) _
      | releaseEscrow r hcan hdue hseq hescrows =>
        rw [hescrows]
        exact Table.Evolves.set_old EscrowRecord.Later.refl hcan.stored
          (.inr ⟨hcan.active, .inl rfl⟩)
      | refundEscrow r hcan hseq hescrows =>
        rw [hescrows]
        exact Table.Evolves.set_old EscrowRecord.Later.refl hcan.stored
          (.inr ⟨hcan.active, .inr rfl⟩)

/-! ## One step -/

/-- A transfer in another token is another transfer. -/
theorem token_eq_of_move {l : TokenLedger} {token token' src dst : Address} {amount : ℤ}
    (h : l.move ⟨token, src, dst, amount⟩ = l.move ⟨token', src, dst, amount⟩) :
    token = token' := by
  have hlog := congrArg Ledger.log h
  rw [Ledger.log_move, Ledger.log_move] at hlog
  have hlast := List.append_cancel_left hlog
  exact congrArg Transfer.token (List.head_eq_of_cons_eq hlast)

/-- Settling an escrow in the token of its record lowers no surplus. -/
theorem backed_settle {w w' : World S} {dst : Address} {id : ℕ} {r r' : EscrowRecord}
    (hr : w.shared.escrows.lookup id = some r) (hactive : r.state = .active)
    (hclosed : r'.state ≠ .active) (hpos : 0 ≤ r.amount)
    (hescrows : w'.shared.escrows = w.shared.escrows.insert id r')
    (htokens : w'.tokens = w.tokens.move ⟨r.token, me, dst, r.amount⟩) :
    (escrowCustody me S).Backed w w' := by
  intro t
  have hpaid : - amountIn r.token t r.amount ≤ Transfer.net t me ⟨r.token, me, dst, r.amount⟩ :=
    Transfer.neg_amountIn_le_net hpos
  have hlive : escrowHolding.worth r t = amountIn r.token t r.amount :=
    Holding.worth_of_live (decide_eq_true hactive) t
  have hdead : escrowHolding.worth r' t = 0 := Holding.worth_dead (decide_eq_false hclosed) t
  simp only [Custody.surplus, escrowCustody]
  rw [hescrows, htokens, Holding.owed_change hr, Ledger.balance_move, hlive, hdead]
  omega

/-- Opening an escrow leaves the surplus as it is, unless the contract deposits it itself. -/
theorem surplus_create {w w' : World S} {token depositor : Address} {amount : ℤ} {id : ℕ}
    {r : EscrowRecord} (hnew : w.shared.escrows.lookup id = none) (hactive : r.state = .active)
    (htoken : r.token = token) (hamount : r.amount = amount)
    (hescrows : w'.shared.escrows = w.shared.escrows.insert id r)
    (htokens : w'.tokens = w.tokens.move ⟨token, depositor, me, amount⟩) (t : Address) :
    (escrowCustody me S).surplus w' t = (escrowCustody me S).surplus w t -
      if token = t then (if depositor = me then amount else 0) else 0 := by
  have hlive : escrowHolding.worth r t = amountIn token t amount := by
    rw [Holding.worth_of_live (decide_eq_true hactive), ← htoken, ← hamount]
    rfl
  have hnet : Transfer.net t me ⟨token, depositor, me, amount⟩ =
      amountIn token t amount - if token = t then (if depositor = me then amount else 0)
        else 0 := by
    by_cases hself : depositor = me
    · rw [if_pos hself, hself]
      unfold Transfer.net amountIn
      split_ifs <;> omega
    · rw [if_neg hself, Transfer.net_deposit hself, ite_self, sub_zero]
  simp only [Custody.surplus, escrowCustody]
  rw [hescrows, htokens, Holding.owed_open hnew, Ledger.balance_move, hlive, hnet]
  omega

/-- Opening an escrow leaves every token covered exactly when it is covered where the contract
    deposits it itself. -/
theorem solvent_create_iff {env : Env me} {token depositor beneficiary : Address} {amount : ℤ}
    {expiryLedger : ℕ} {w : World S} (h : EscrowIds w) (hsol : (escrowCustody me S).Solvent w) :
    (escrowCustody me S).Solvent
        (execEscrow env (.createEscrow token depositor beneficiary amount expiryLedger) w) ↔
      (depositor = me → CanCreate env w token depositor amount expiryLedger →
        amount ≤ (escrowCustody me S).surplus w token) := by
  rcases execEscrow_returns env
    (.createEscrow token depositor beneficiary amount expiryLedger) w with
    ⟨hfails, hsame⟩ | ⟨-, hdone⟩
  · rw [hsame]
    refine iff_of_true hsol ?_
    intro _ hcan
    exact absurd (createEscrow_succeeds.mpr hcan) hfails
  · generalize execEscrow env _ w = w' at hdone ⊢
    cases hdone with
    | createEscrow hcan hseq hescrows htokens =>
      have hnew := SharedStore.lookup_nextEscrow h
      have hsurplus := surplus_create hnew rfl rfl rfl hescrows htokens
      rw [Custody.solvent_spend_iff hsol hsurplus]
      have hnonneg := Custody.solvent_iff.mp hsol token
      constructor
      · intro hle hself _
        rwa [if_pos hself] at hle
      · intro hcovered
        split_ifs with hself
        · exact hcovered hself hcan
        · exact hnonneg

/-- Settling an escrow moves the amount of the record in its token, and leaves every token covered,
    exactly when it is paid in that token. -/
theorem settle_iff {env : Env me} {token dst : Address} {id : ℕ} {r r' : EscrowRecord}
    {w w' : World S} (hsol : (escrowCustody me S).Solvent w) (hcan : CanSettle env w token dst id r)
    (hclosed : r'.state ≠ .active) (hescrows : w'.shared.escrows = w.shared.escrows.insert id r')
    (htokens : w'.tokens = w.tokens.move ⟨token, me, dst, r.amount⟩) :
    (Moves w w' ⟨r.token, me, dst, r.amount⟩ ∧ (escrowCustody me S).Solvent w') ↔
      token = r.token := by
  constructor
  · rintro ⟨hmoves, -⟩
    exact token_eq_of_move (htokens.symm.trans hmoves.made)
  · intro htoken
    rw [htoken] at htokens
    have hbacked := backed_settle hcan.stored hcan.active hclosed hcan.allows.1 hescrows htokens
    exact ⟨.of_eq htokens, hbacked.solvent hsol⟩

/-- A call that pays the escrow to `payee`, if it can and `due` holds, moves the amount of the
    record in its token, and leaves every token covered, exactly when it pays in that token. -/
theorem settle_call_iff (payee : EscrowRecord → Address) (due : EscrowRecord → Prop)
    (succeeds : Prop) {env : Env me} {token : Address} {id : ℕ} {w w' : World S}
    (hsol : (escrowCustody me S).Solvent w)
    (hsucceeds : succeeds ↔ ∃ r, CanSettle env w token (payee r) id r ∧ due r)
    (hcall : (¬ succeeds ∧ w' = w) ∨ ∃ r r', CanSettle env w token (payee r) id r ∧ due r ∧
      r'.state ≠ .active ∧ w'.shared.escrows = w.shared.escrows.insert id r' ∧
      w'.tokens = w.tokens.move ⟨token, me, payee r, r.amount⟩) :
    ((succeeds → ∃ r, w.shared.escrows.lookup id = some r ∧
        Moves w w' ⟨r.token, me, payee r, r.amount⟩) ∧ (escrowCustody me S).Solvent w') ↔
      ∀ r, CanSettle env w token (payee r) id r → due r → token = r.token := by
  rcases hcall with ⟨hfails, rfl⟩ | ⟨r, r', hcan, hdue, hclosed, hescrows, htokens⟩
  · refine iff_of_true ⟨fun hyes => absurd hyes hfails, hsol⟩ ?_
    intro r hcan hdue
    exact absurd (hsucceeds.mpr ⟨r, hcan, hdue⟩) hfails
  · have hiff := settle_iff hsol hcan hclosed hescrows htokens
    constructor
    · rintro ⟨hfaithful, hsol'⟩ r₀ hcan₀ -
      obtain ⟨r₁, hr₁, hmoves⟩ := hfaithful (hsucceeds.mpr ⟨r, hcan, hdue⟩)
      obtain rfl := Option.some.inj (hcan.stored.symm.trans hr₁)
      obtain rfl := Option.some.inj (hcan.stored.symm.trans hcan₀.stored)
      exact hiff.mp ⟨hmoves, hsol'⟩
    · intro hmatched
      obtain ⟨hmoves, hsol'⟩ := hiff.mpr (hmatched r hcan hdue)
      exact ⟨fun _ => ⟨r, hcan.stored, hmoves⟩, hsol'⟩

/-- A release is faithful and leaves every token covered exactly when it is matched. -/
theorem faithful_release_iff {env : Env me} {token : Address} {id : ℕ} {w : World S}
    (hsol : (escrowCustody me S).Solvent w) :
    (Faithful w (.call env (.releaseEscrow token id)) ∧
        (escrowCustody me S).Solvent (execEscrow env (.releaseEscrow token id) w)) ↔
      Matched w (.call env (.releaseEscrow token id)) := by
  refine settle_call_iff EscrowRecord.beneficiary (fun r => env.sequence ≤ r.expiryLedger)
    ((releaseEscrow env token id).Succeeds w) hsol releaseEscrow_succeeds ?_
  rcases execEscrow_returns env (.releaseEscrow token id) w with hfails | ⟨-, hdone⟩
  · exact .inl hfails
  · show _ ∨ ∃ r r', _ ∧ _ ∧ _ ∧ (execEscrow env (.releaseEscrow token id) w).shared.escrows = _ ∧
      (execEscrow env (.releaseEscrow token id) w).tokens = _
    generalize execEscrow env _ w = w' at hdone ⊢
    cases hdone with
    | releaseEscrow r hcan hdue hseq hescrows htokens =>
      exact .inr ⟨r, _, hcan, hdue, by simp, hescrows, htokens⟩

/-- A refund is faithful and leaves every token covered exactly when it is matched. -/
theorem faithful_refund_iff {env : Env me} {token : Address} {id : ℕ} {w : World S}
    (hsol : (escrowCustody me S).Solvent w) :
    (Faithful w (.call env (.refundEscrow token id)) ∧
        (escrowCustody me S).Solvent (execEscrow env (.refundEscrow token id) w)) ↔
      Matched w (.call env (.refundEscrow token id)) := by
  have hsucceeds : (refundEscrow env token id).Succeeds w ↔
      ∃ r, CanSettle env w token r.depositor id r ∧ True := by
    rw [refundEscrow_succeeds]
    exact exists_congr fun _ => (and_iff_left trivial).symm
  refine Iff.trans (settle_call_iff EscrowRecord.depositor (fun _ => True)
    ((refundEscrow env token id).Succeeds w) hsol hsucceeds ?_) ?_
  · rcases execEscrow_returns env (.refundEscrow token id) w with hfails | ⟨-, hdone⟩
    · exact .inl hfails
    · show _ ∨ ∃ r r', _ ∧ _ ∧ _ ∧ (execEscrow env (.refundEscrow token id) w).shared.escrows = _ ∧
        (execEscrow env (.refundEscrow token id) w).tokens = _
      generalize execEscrow env _ w = w' at hdone ⊢
      cases hdone with
      | refundEscrow r hcan hseq hescrows htokens =>
        exact .inr ⟨r, _, hcan, trivial, by simp, hescrows, htokens⟩
  · exact ⟨fun h r hcan => h r hcan trivial, fun h r hcan _ => h r hcan⟩

/-- A call settles in the token of the record, and leaves every token covered, exactly when it is
    matched. -/
theorem faithful_solvent_iff {w : World S} (h : EscrowIds w) (hsol : (escrowCustody me S).Solvent w)
    (s : Step me EscrowEntry) :
    (Faithful w s ∧ (escrowCustody me S).Solvent (escrowStep s w)) ↔ Matched w s := by
  cases s with
  | outside env x =>
    refine iff_of_true ⟨trivial, ?_⟩ trivial
    have hbacked : (escrowCustody me S).Backed w (outsideTransfer env x w) := by
      intro t
      have hheld := balance_outsideTransfer (C := EscrowEntry) env x w t
      have hreceived := Step.received_nonneg t w (.outside env x : Step me EscrowEntry)
      simp only [Custody.surplus, escrowCustody, shared_outsideTransfer]
      omega
    exact hbacked.solvent hsol
  | call env c =>
    cases c with
    | createEscrow token depositor beneficiary amount expiryLedger =>
      exact (and_iff_right trivial).trans (solvent_create_iff h hsol)
    | releaseEscrow token escrowId => exact faithful_release_iff hsol
    | refundEscrow token escrowId => exact faithful_refund_iff hsol

/-! ## Runs -/

theorem escrowIds_deployed (store : S) (tokens : TokenLedger) :
    EscrowIds (World.deployed store tokens) :=
  Table.Forall.empty _

theorem escrowIds_run {w : World S} (h : EscrowIds w) (steps : List (Step me EscrowEntry)) :
    EscrowIds (run escrowStep w steps) :=
  run_induct (fun _ s h => h.step s) h steps

theorem evolves_escrowRun {w : World S} (h : EscrowIds w) (steps : List (Step me EscrowEntry)) :
    Table.Evolves EscrowRecord.Later w.shared.escrows (run escrowStep w steps).shared.escrows :=
  Table.Evolves.run (P := EscrowIds) (fun v : World S => v.shared.escrows) EscrowRecord.Later.refl
    (fun _ _ _ => EscrowRecord.Later.trans) (fun _ s h => h.step s)
    (fun _ s h => evolves_escrowStep h s) h steps

/-- The record of an escrow names, at the end of the run from `w`, the token, the amount and the
    parties of the deposit that was taken in when it was created. -/
def NamesDeposits (w : World S) (steps : List (Step me EscrowEntry)) : Prop :=
  ∀ pre post env token depositor beneficiary amount expiryLedger id,
    steps = pre ++
      .call env (.createEscrow token depositor beneficiary amount expiryLedger) :: post →
    (createEscrow env token depositor beneficiary amount expiryLedger).value
      (run escrowStep w pre) = some id →
    Moves (run escrowStep w pre) (escrowStep
        (.call env (.createEscrow token depositor beneficiary amount expiryLedger))
        (run escrowStep w pre)) ⟨token, depositor, me, amount⟩ ∧
      ∃ r, (run escrowStep w steps).shared.escrows.lookup id = some r ∧ r.token = token ∧
        r.amount = amount ∧ r.depositor = depositor ∧ r.beneficiary = beneficiary

theorem namesDeposits {w : World S} (h : EscrowIds w) (steps : List (Step me EscrowEntry)) :
    NamesDeposits w steps := by
  rintro pre post env token depositor beneficiary amount expiryLedger id rfl hvalue
  have hpre := escrowIds_run h pre
  rw [run_append, run_cons]
  have hids := hpre.step (.call env (.createEscrow token depositor beneficiary amount expiryLedger))
  have hlater := evolves_escrowRun hids post
  have hok := value_eq_some.mp hvalue
  obtain ⟨-, -, -, -, events, hstate⟩ := createEscrow_ok hok
  have hstep :
    escrowStep (.call env (.createEscrow token depositor beneficiary amount expiryLedger))
      (run escrowStep w pre) = _ := hstate
  rw [hstep] at hlater ⊢
  refine ⟨.of_eq rfl, ?_⟩
  obtain ⟨r, hr, hfields⟩ := hlater id _ ((Table.lookup_set _ _ _ _).trans (if_pos rfl))
  exact ⟨r, hr, hfields.deposit⟩

/-- In a run from a fresh contract, every call that settles an escrow moves the amount of its record
    in the token of its record, and every token stays covered, exactly when every step is matched;
    the token of a record is the one that was taken in. -/
theorem escrow_tokens_iff (store : S) (tokens : TokenLedger)
    (hfunds : ∀ t a, 0 ≤ tokens.balance t a) (steps : List (Step me EscrowEntry)) :
    ((∀ x ∈ trace escrowStep (World.deployed store tokens) steps, Faithful x.1 x.2 ∧
        ∀ t, escrowHolding.owed (escrowStep x.2 x.1).shared.escrows t ≤
          (escrowStep x.2 x.1).tokens.balance t me) ↔
      ∀ x ∈ trace escrowStep (World.deployed store tokens) steps, Matched x.1 x.2) ∧
    NamesDeposits (World.deployed store tokens) steps := by
  have hsol : (escrowCustody me S).Solvent (World.deployed store tokens) := by
    intro t
    show escrowHolding.owed (∅ : Table ℕ EscrowRecord) t ≤ tokens.balance t me
    rw [Holding.owed_empty]
    exact hfunds t me
  have hids := escrowIds_deployed store tokens
  refine ⟨?_, namesDeposits hids steps⟩
  exact trace_forall_and_iff (P := EscrowIds) (G := (escrowCustody me S).Solvent)
    (N := fun _ _ => True) (A := Faithful) (Q := Matched) (fun _ s h _ => h.step s)
    (fun _ s h _ hg => faithful_solvent_iff h hg s) hids hsol fun _ _ => trivial

/-- `⟨2⟩` holds 40 of the token `⟨8⟩` and `⟨3⟩` holds 40 of the token `⟨9⟩`. -/
def twoTokens : TokenLedger := .ofList [(⟨8⟩, ⟨2⟩, 40), (⟨9⟩, ⟨3⟩, 40)]

/-- Both are put in escrow, for `⟨4⟩` and `⟨5⟩`. -/
def twoEscrows : List (Step ⟨0⟩ EscrowEntry) :=
  [.call (.signedBy ⟨0⟩ 1 1 [⟨2⟩]) (.createEscrow ⟨8⟩ ⟨2⟩ ⟨4⟩ 40 10),
    .call (.signedBy ⟨0⟩ 2 2 [⟨3⟩]) (.createEscrow ⟨9⟩ ⟨3⟩ ⟨5⟩ 40 10)]

/-- The first is released in its token and the second is refunded in its token. -/
def matchedRun : List (Step ⟨0⟩ EscrowEntry) :=
  twoEscrows ++ [.call (.signedBy ⟨0⟩ 3 3 []) (.releaseEscrow ⟨8⟩ 1),
    .call (.signedBy ⟨0⟩ 4 4 []) (.refundEscrow ⟨9⟩ 2)]

/-- The first is released in the token of the second. -/
def mismatchedRun : List (Step ⟨0⟩ EscrowEntry) :=
  twoEscrows ++ [.call (.signedBy ⟨0⟩ 3 3 []) (.releaseEscrow ⟨9⟩ 1)]

theorem twoTokens_nonneg (t a : Address) : 0 ≤ twoTokens.balance t a :=
  Ledger.ofList_nonneg (by decide) t a

theorem lookup_twoEscrows :
    (run escrowStep (World.deployed () twoTokens) twoEscrows).shared.escrows.lookup 1 =
        some ⟨1, ⟨2⟩, ⟨4⟩, ⟨8⟩, 40, 10, .active⟩ ∧
      (run escrowStep (World.deployed () twoTokens) (twoEscrows ++
        [.call (.signedBy ⟨0⟩ 3 3 []) (.releaseEscrow ⟨8⟩ 1)])).shared.escrows.lookup 2 =
        some ⟨2, ⟨3⟩, ⟨5⟩, ⟨9⟩, 40, 10, .active⟩ := by
  decide

/-- Two tokens, each paid out for its own escrow. -/
theorem escrow_tokens_matched :
    (∀ x ∈ trace escrowStep (World.deployed () twoTokens) matchedRun, Faithful x.1 x.2 ∧
        ∀ t, escrowHolding.owed (escrowStep x.2 x.1).shared.escrows t ≤
          (escrowStep x.2 x.1).tokens.balance t ⟨0⟩) ∧
      NamesDeposits (World.deployed () twoTokens) matchedRun := by
  obtain ⟨hiff, hnames⟩ := escrow_tokens_iff () twoTokens twoTokens_nonneg matchedRun
  refine ⟨hiff.mpr ?_, hnames⟩
  intro x hx
  fin_cases hx
  · intro hself
    exact absurd hself (by decide)
  · intro hself
    exact absurd hself (by decide)
  · intro r hcan _
    obtain rfl := Option.some.inj (lookup_twoEscrows.1.symm.trans hcan.stored)
    rfl
  · intro r hcan
    obtain rfl := Option.some.inj (lookup_twoEscrows.2.symm.trans hcan.stored)
    rfl

/-- A release in the other token goes through: `⟨4⟩` gets 40 of the token that `⟨3⟩` deposited, and
    the contract has nothing left for the escrow of `⟨3⟩`. -/
theorem mismatched_pays :
    (releaseEscrow (Env.signedBy ⟨0⟩ 3 3 []) ⟨9⟩ 1).Succeeds
        (run escrowStep (World.deployed () twoTokens) twoEscrows) ∧
      (¬ ∀ x ∈ trace escrowStep (World.deployed () twoTokens) mismatchedRun, Faithful x.1 x.2) ∧
      ¬ ∀ x ∈ trace escrowStep (World.deployed () twoTokens) mismatchedRun, ∀ t,
        escrowHolding.owed (escrowStep x.2 x.1).shared.escrows t ≤
          (escrowStep x.2 x.1).tokens.balance t ⟨0⟩ := by
  have hmem : (run escrowStep (World.deployed () twoTokens) twoEscrows,
      Step.call (.signedBy ⟨0⟩ 3 3 []) (.releaseEscrow ⟨9⟩ 1)) ∈
        trace escrowStep (World.deployed () twoTokens) mismatchedRun :=
    mem_trace_iff.mpr ⟨twoEscrows, [], rfl, rfl⟩
  have hsucceeds : (releaseEscrow (Env.signedBy ⟨0⟩ 3 3 []) ⟨9⟩ 1).Succeeds
      (run escrowStep (World.deployed () twoTokens) twoEscrows) := ⟨_, _, rfl⟩
  refine ⟨hsucceeds, ?_, ?_⟩
  · intro hfaithful
    obtain ⟨r, hr, hmoves⟩ := hfaithful _ hmem hsucceeds
    obtain rfl := Option.some.inj (lookup_twoEscrows.1.symm.trans hr)
    have hbalance := congrFun (hmoves.others ⟨9⟩ (by decide)) ⟨4⟩
    exact absurd hbalance (by decide)
  · intro hcovered
    exact absurd (hcovered _ hmem ⟨9⟩) (by decide)

end Trellis
