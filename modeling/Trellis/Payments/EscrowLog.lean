import Trellis.Lib.Deal
import Trellis.Payments.Journal
import Trellis.Shared.EventLog

/-!
# The events of the escrows

An escrow is a deal: `create_escrow` opens it, and `release_escrow` or `refund_escrow` closes it.
The event of a settlement names the party that was paid and the amount.

Results:
* `exec_tells`: what a call publishes leads from the escrows before it to the escrows after it.
* `escrows_from_events`: the escrows can be rebuilt from the events, and the events about an id are
  exactly the life of its escrow.
-/

namespace Trellis.Payments

open Exec

variable {me : Address}

/-! ## Reading the events -/

/-- What a `pay_esc_c` event says of the new escrow. -/
structure EscrowTerms where
  depositor : Address
  beneficiary : Address
  amount : ℤ
  expiryLedger : ℕ
  deriving DecidableEq, Repr

/-- What the event of a settlement says: how the escrow stands now, and who was paid what. -/
structure EscrowExit where
  state : EscrowState
  payee : Address
  amount : ℤ
  deriving DecidableEq, Repr

/-- What an event says of the escrow that it names. -/
def escrowDecode (e : Event) : Option (DealEvent ℕ EscrowTerms EscrowExit) :=
  if e.topics = [paymentEscrowCreated] then
    match e.data with
    | [.u64 id, .address depositor, .address beneficiary, .i128 amount, .u32 expiry] =>
      some (.opened id ⟨depositor, beneficiary, amount, expiry⟩)
    | _ => none
  else if e.topics = [paymentEscrowReleased] then
    match e.data with
    | [.u64 id, .address payee, .i128 amount] => some (.closed id ⟨.released, payee, amount⟩)
    | _ => none
  else if e.topics = [paymentEscrowRefunded] then
    match e.data with
    | [.u64 id, .address payee, .i128 amount] => some (.closed id ⟨.refunded, payee, amount⟩)
    | _ => none
  else none

theorem escrowDecode_other {topics : List Symbol} (data : List Val)
    (hcreated : topics ≠ [paymentEscrowCreated]) (hreleased : topics ≠ [paymentEscrowReleased])
    (hrefunded : topics ≠ [paymentEscrowRefunded]) : escrowDecode ⟨topics, data⟩ = none := by
  unfold escrowDecode
  rw [if_neg hcreated, if_neg hreleased, if_neg hrefunded]

/-- How an escrow was settled: to the beneficiary when it was released, to the depositor when it was
    refunded. -/
def escrowExit (r : EscrowRecord) : Option EscrowExit :=
  match r.state with
  | .active => none
  | .released => some ⟨.released, r.beneficiary, r.amount⟩
  | .refunded => some ⟨.refunded, r.depositor, r.amount⟩

/-- The deal that an escrow stands for. -/
def escrowDeal (r : EscrowRecord) : EscrowTerms × Option EscrowExit :=
  (⟨r.depositor, r.beneficiary, r.amount, r.expiryLedger⟩, escrowExit r)

theorem escrowDeal_of_active {r : EscrowRecord} (h : r.state = .active) :
    escrowDeal r = (⟨r.depositor, r.beneficiary, r.amount, r.expiryLedger⟩, none) := by
  rw [escrowDeal, escrowExit, h]

/-- The deals of the contract. -/
def escrowDeals (w : World Store) : Deals ℕ EscrowTerms EscrowExit :=
  dealsOf escrowDeal w.shared.escrows

/-- What the events so far say of the escrows. -/
def escrowLog (w : World Store) : List (DealEvent ℕ EscrowTerms EscrowExit) :=
  w.events.filterMap escrowDecode

/-! ## What a call publishes -/

/-- What the events grew by leads from the escrows of `w` to those of `w'`. -/
abbrev EventsTell (w w' : World Store) : Prop :=
  Recorded (recordIfAny escrowDecode Deals.record) World.events escrowDeals w w'

section

variable {env : Env me} {w w' : World Store}

theorem init_tells {admin token recipient : Address} {rate : ℤ} {u : Unit}
    (h : init env admin token rate recipient w = .ok u w') : EventsTell w w' := by
  simp [init] at h
  obtain ⟨-, rfl⟩ := h
  exact .quiet _ rfl rfl rfl

theorem setFeeRate_tells {caller : Address} {rate : ℤ} {u : Unit}
    (h : setFeeRate env caller rate w = .ok u w') : EventsTell w w' := by
  simp [setFeeRate] at h
  obtain ⟨-, -, rfl⟩ := h
  exact .quiet _ rfl rfl rfl

theorem deposit_tells {who : Address} {amount : ℤ} {u : Unit}
    (h : deposit env who amount w = .ok u w') : EventsTell w w' := by
  simp [deposit] at h
  obtain ⟨-, t, -, -, -, -, -, rfl⟩ := h
  exact .quiet _ rfl rfl rfl

theorem decode_transferEvents (xs : List TokenTransfer) :
    (xs.map transferEvent).filterMap escrowDecode = [] := by
  rw [List.filterMap_eq_nil_iff]
  intro e he
  obtain ⟨x, -, rfl⟩ := List.mem_map.mp he
  exact escrowDecode_other _ (by decide) (by decide) (by decide)

theorem withdraw_tells {who : Address} {net : ℤ} (h : withdraw env who w = .ok net w') :
    EventsTell w w' := by
  simp only [withdraw, bind_ok, failIf_ok, requireAuth_ok, read_ok, write_ok, payOut_iff, emit,
    publish_ok, pure_ok] at h
  obtain ⟨_, _, ⟨-, rfl⟩, _, _, ⟨rfl, rfl⟩, _, _, ⟨-, rfl⟩, net, _,
    ⟨t, recipient, fee, -, -, -, -, rfl⟩,
    _, _, rfl, _, _, ⟨rfl, rfl⟩, _, _, rfl, _, _, rfl, rfl, rfl⟩ := h
  refine .quiet _ (List.append_assoc _ _ _) ?_ rfl
  rw [List.filterMap_append, decode_transferEvents]
  rfl

theorem withdrawAmount_tells {who : Address} {amount net : ℤ}
    (h : withdrawAmount env who amount w = .ok net w') : EventsTell w w' := by
  simp only [withdrawAmount, bind_ok, failIf_ok, requireAuth_ok, read_ok, write_ok,
    payOut_iff, expect_ok, pure_ok] at h
  obtain ⟨_, _, ⟨-, rfl⟩, _, _, ⟨-, rfl⟩, _, _, ⟨rfl, rfl⟩, _, _, ⟨-, rfl⟩, net, _,
    ⟨t, recipient, fee, -, -, -, -, rfl⟩, _, _, ⟨-, rfl⟩, _, _, rfl, _, _, ⟨rfl, rfl⟩, _, _, rfl, -,
    rfl⟩ := h
  exact .quiet _ rfl (decode_transferEvents _) rfl

theorem createEscrowEntry_tells (hnew : w.shared.escrows.lookup w.shared.nextEscrow = none)
    {depositor beneficiary : Address} {amount : ℤ} {expiry id : ℕ}
    (h : createEscrowEntry env depositor beneficiary amount expiry w = .ok id w') :
    EventsTell w w' := by
  simp [createEscrowEntry, createEscrow, nextEscrowId, storeEscrow, validateAmount_ok] at h
  obtain ⟨-, token, -, -, -, -, -, -, rfl⟩ := h
  exact .one _ rfl rfl (record_set_new hnew rfl)

theorem releaseEscrowEntry_tells {caller : Address} {id : ℕ} {u : Unit}
    (h : releaseEscrowEntry env caller id w = .ok u w') : EventsTell w w' := by
  simp [releaseEscrowEntry, releaseEscrow, removeFromActive] at h
  obtain ⟨-, token, -, r, hr, hnr, hnf, -, -, rfl⟩ := h
  exact .one _ rfl rfl (record_set_old hr (escrowDeal_of_active (active_of_not hnr hnf)) rfl)

theorem refundEscrowEntry_tells {caller : Address} {id : ℕ} {u : Unit}
    (h : refundEscrowEntry env caller id w = .ok u w') : EventsTell w w' := by
  simp [refundEscrowEntry, refundEscrow, removeFromActive] at h
  obtain ⟨-, token, -, r, hr, hnr, hnf, -, rfl⟩ := h
  exact .one _ rfl rfl (record_set_old hr (escrowDeal_of_active (active_of_not hnr hnf)) rfl)

theorem batchPayout_tells {caller : Address} {recipients : List (Address × ℤ)}
    {result : BatchResult} (h : batchPayout env caller recipients w = .ok result w') :
    EventsTell w w' := by
  simp [batchPayout, multiTransferAll,
    executeMultiTransfer_atomic_ok BatchConfig.atomicDefault_mode]
    at h
  obtain ⟨-, token, -, -, -, -, -, rfl⟩ := h
  refine .quiet _ rfl ?_ rfl
  unfold batchDoneEvent
  split_ifs <;> rfl

end

/-! ## Runs from deployment -/

/-- All escrows have ids that were given out. -/
def GivenOut (w : World Store) : Prop :=
  w.shared.escrows.Forall fun id _ => id < w.shared.nextEscrow

theorem GivenOut.step {w : World Store} (h : GivenOut w) (s : Step me Entry) :
    GivenOut (step s w) := by
  rcases step_cases s w with ⟨env, x, hs⟩ | hs | ⟨env, c, w', rfl, hs, hdone⟩
  · rw [hs, GivenOut, shared_outsideTransfer]
    exact h
  · rwa [hs]
  · rw [hs]
    have hnext : ∀ id, id < w.shared.nextEscrow → id < w.shared.nextEscrow + 1 :=
      fun _ => Nat.lt_succ_of_lt
    cases hdone with
    | createEscrowEntry => exact (h.imp fun id _ hid => hnext id hid).set (Nat.lt_succ_self _)
    | releaseEscrowEntry events t r htoken hadmin hsigned hr => exact h.set (h _ r hr)
    | refundEscrowEntry events t r htoken hadmin hsigned hr => exact h.set (h _ r hr)
    | _ => exact h

/-- What a call publishes leads from the escrows before it to the escrows after it. -/
theorem exec_tells (env : Env me) (c : Entry) (w : World Store) (h : GivenOut w) :
    EventsTell w (exec env c w) := by
  cases c with
  | init => exact commit_induct (.same rfl rfl) fun _ _ => init_tells
  | setFeeRate => exact commit_induct (.same rfl rfl) fun _ _ => setFeeRate_tells
  | deposit => exact commit_induct (.same rfl rfl) fun _ _ => deposit_tells
  | withdraw => exact commit_induct (.same rfl rfl) fun _ _ => withdraw_tells
  | withdrawAmount => exact commit_induct (.same rfl rfl) fun _ _ => withdrawAmount_tells
  | createEscrowEntry =>
    exact commit_induct (.same rfl rfl) fun _ _ =>
      createEscrowEntry_tells (SharedStore.lookup_nextEscrow h)
  | releaseEscrowEntry => exact commit_induct (.same rfl rfl) fun _ _ => releaseEscrowEntry_tells
  | refundEscrowEntry => exact commit_induct (.same rfl rfl) fun _ _ => refundEscrowEntry_tells
  | batchPayout => exact commit_induct (.same rfl rfl) fun _ _ => batchPayout_tells

theorem replay_escrowLog (tokens : TokenLedger) (steps : List (Step me Entry)) :
    replay Deals.record (fun _ => none)
        (escrowLog (run step (World.deployed Store.empty tokens) steps)) =
      some (escrowDeals (run step (World.deployed Store.empty tokens) steps)) := by
  rw [escrowLog, ← replay_filterMap]
  refine replay_reached (P := GivenOut) (fun w s h => h.step s) (fun env x w => ?_) exec_tells
    Store.empty tokens (Table.Forall.empty _) steps
  rw [escrowDeals, shared_outsideTransfer]
  rfl

/-- In every state that a run from deployment reaches, whatever was called and however often the
    contract was initialised: the escrows can be rebuilt from the events, with their terms and how
    they were settled. The events about an id are none, its creation, or its creation and then its
    one settlement, which names the party that was paid and the amount that was deposited; and how
    the events about different ids are interleaved makes no difference. -/
theorem escrows_from_events (tokens : TokenLedger) (steps : List (Step me Entry)) :
    replay Deals.record (fun _ => none)
        (escrowLog (run step (World.deployed Store.empty tokens) steps)) =
      some (escrowDeals (run step (World.deployed Store.empty tokens) steps)) ∧
    (∀ id, ((escrowLog (run step (World.deployed Store.empty tokens) steps)).filter
        fun e => e.key = id) =
      life id (escrowDeals (run step (World.deployed Store.empty tokens) steps) id)) ∧
    ∀ log, (∀ id, (log.filter fun e => e.key = id) =
        (escrowLog (run step (World.deployed Store.empty tokens) steps)).filter
          fun e => e.key = id) →
      replay Deals.record (fun _ => none) log =
        some (escrowDeals (run step (World.deployed Store.empty tokens) steps)) := by
  have hreplay := replay_escrowLog tokens steps
  refine ⟨hreplay, fun id => ?_, fun log hsame => replay_of_sublogs hreplay hsame⟩
  have hlife := replay_iff.mp hreplay id
  rw [hlife, life, List.nil_append]

end Trellis.Payments
