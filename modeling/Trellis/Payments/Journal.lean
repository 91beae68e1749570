import Trellis.Lib.Journal
import Trellis.Payments.Deposits

/-!
# The events of the deposits

An indexer follows the balances of the users by the events `TREASURY_DEPOSIT` and
`TREASURY_WITHDRAW`, which `deposit` and `withdraw` publish. `withdraw_amount` lowers a balance too,
and publishes neither.

Results:
* `payOut_iff`, `withdrawAmount_succeeds`: when a withdrawal goes through, and the events of its
  payments.
* `quiet_exec`: the other calls touch no balance and book nothing.
* `reconstructed_step_iff`: a step keeps the events and the balances in agreement exactly when it is
  no `withdraw_amount` that goes through.
* `reconstructed_iff`: the same over every run.
-/

namespace Trellis.Payments

open Exec

variable {me : Address}

/-! ## Reading the events -/

/-- The change of a balance that an event stands for: a deposit, or the gross amount of a
    withdrawal. -/
def booking (e : Event) : Option (Booking Address) :=
  if e.topics = ["t_dep"] then
    match e.data with
    | [.symbol _, .address src, .i128 amount, .i128 newBalance] =>
      some ⟨src, amount, some newBalance⟩
    | _ => none
  else if e.topics = ["t_wdw"] then
    match e.data with
    | [.symbol _, .address who, .i128 deposited, .i128 _] => some ⟨who, -deposited, none⟩
    | _ => none
  else none

/-- Events of other topics book nothing. -/
theorem booking_other {topics : List Symbol} (data : List Val) (hdeposit : topics ≠ ["t_dep"])
    (hwithdraw : topics ≠ ["t_wdw"]) : booking ⟨topics, data⟩ = none := by
  unfold booking
  rw [if_neg hdeposit, if_neg hwithdraw]

theorem booking_deposit (src : Address) (amount newBalance : ℤ) :
    booking ⟨["t_dep"], [.symbol "default", .address src, .i128 amount, .i128 newBalance]⟩ =
      some ⟨src, amount, some newBalance⟩ := by
  unfold booking
  rw [if_pos rfl]

theorem booking_withdraw (who : Address) (deposited net : ℤ) :
    booking ⟨["t_wdw"], [.symbol "default", .address who, .i128 deposited, .i128 net]⟩ =
      some ⟨who, -deposited, none⟩ := by
  unfold booking
  rw [if_neg (by simp), if_pos rfl]

/-- The balances are what the events book. -/
def Reconstructed (w : World Store) : Prop :=
  ∀ a, folded booking w.events a = w.store.balanceOf a

/-- The state has changed no balance, and published only what books nothing. -/
def Quiet (w w' : World Store) : Prop :=
  w'.store.deposited = w.store.deposited ∧
    ∃ notes, w'.events = w.events ++ notes ∧ ∀ e ∈ notes, booking e = none

theorem Quiet.refl (w : World Store) : Quiet w w :=
  ⟨rfl, [], (List.append_nil _).symm, fun _ he => absurd he List.not_mem_nil⟩

theorem quiet_of_event {w w' : World Store} {topics : List Symbol} {data : List Val}
    (hstore : w'.store.deposited = w.store.deposited)
    (hevents : w'.events = w.events ++ [⟨topics, data⟩]) (hdeposit : topics ≠ ["t_dep"])
    (hwithdraw : topics ≠ ["t_wdw"]) : Quiet w w' := by
  refine ⟨hstore, _, hevents, fun e he => ?_⟩
  rw [List.mem_singleton.mp he]
  exact booking_other data hdeposit hwithdraw

theorem Quiet.reconstructed {w w' : World Store} (h : Quiet w w') (hrec : Reconstructed w) :
    Reconstructed w' := by
  obtain ⟨hstore, notes, hevents, hnotes⟩ := h
  intro a
  have hsame : w'.store.balanceOf a = w.store.balanceOf a := by
    unfold Store.balanceOf
    rw [hstore]
  rw [hevents, folded_notes hnotes, hrec a, hsame]

/-! ## The calls that touch no balance -/

section

variable {env : Env me} {w w' : World Store}

theorem quiet_init {admin token recipient : Address} {rate : ℤ} {u : Unit}
    (h : init env admin token rate recipient w = .ok u w') : Quiet w w' := by
  simp [init] at h
  obtain ⟨-, rfl⟩ := h
  exact quiet_of_event rfl rfl (by decide) (by decide)

theorem quiet_setFeeRate {caller : Address} {rate : ℤ} {u : Unit}
    (h : setFeeRate env caller rate w = .ok u w') : Quiet w w' := by
  simp [setFeeRate] at h
  obtain ⟨-, -, rfl⟩ := h
  exact quiet_of_event rfl rfl (by decide) (by decide)

theorem quiet_createEscrowEntry {depositor beneficiary : Address} {amount : ℤ} {expiry id : ℕ}
    (h : createEscrowEntry env depositor beneficiary amount expiry w = .ok id w') : Quiet w w' := by
  simp [createEscrowEntry, createEscrow, nextEscrowId, storeEscrow, validateAmount_ok] at h
  obtain ⟨-, token, -, -, -, -, -, -, rfl⟩ := h
  exact quiet_of_event rfl rfl (by decide) (by decide)

theorem quiet_releaseEscrowEntry {caller : Address} {id : ℕ} {u : Unit}
    (h : releaseEscrowEntry env caller id w = .ok u w') : Quiet w w' := by
  simp [releaseEscrowEntry, releaseEscrow, removeFromActive] at h
  obtain ⟨-, token, -, r, -, -, -, -, -, rfl⟩ := h
  exact quiet_of_event rfl rfl (by decide) (by decide)

theorem quiet_refundEscrowEntry {caller : Address} {id : ℕ} {u : Unit}
    (h : refundEscrowEntry env caller id w = .ok u w') : Quiet w w' := by
  simp [refundEscrowEntry, refundEscrow, removeFromActive] at h
  obtain ⟨-, token, -, r, -, -, -, -, rfl⟩ := h
  exact quiet_of_event rfl rfl (by decide) (by decide)

theorem quiet_batchPayout {caller : Address} {recipients : List (Address × ℤ)}
    {result : BatchResult} (h : batchPayout env caller recipients w = .ok result w') :
    Quiet w w' := by
  simp [batchPayout, multiTransferAll,
    executeMultiTransfer_atomic_ok BatchConfig.atomicDefault_mode]
    at h
  obtain ⟨-, token, -, -, -, -, -, rfl⟩ := h
  refine ⟨rfl, _, rfl, fun e he => ?_⟩
  rw [List.mem_singleton.mp he]
  unfold batchDoneEvent
  split_ifs
  · exact booking_other _ (by decide) (by decide)
  · exact booking_other _ (by decide) (by decide)
  · exact booking_other _ (by decide) (by decide)

/-- A call that is no deposit and no withdrawal touches no balance and books nothing. -/
theorem quiet_exec (env : Env me) (c : Entry) (w : World Store) (h : c.user = none) :
    Quiet w (exec env c w) := by
  have hcommit : ∀ {α : Type} (x : Invocation Store Error α),
      (∀ a w', x w = .ok a w' → Quiet w w') → Quiet w (x.commit w) :=
    fun x hx => commit_induct (P := Quiet w) (Quiet.refl w) hx
  cases c with
  | init => exact hcommit _ fun _ _ => quiet_init
  | setFeeRate => exact hcommit _ fun _ _ => quiet_setFeeRate
  | createEscrowEntry => exact hcommit _ fun _ _ => quiet_createEscrowEntry
  | releaseEscrowEntry => exact hcommit _ fun _ _ => quiet_releaseEscrowEntry
  | refundEscrowEntry => exact hcommit _ fun _ _ => quiet_refundEscrowEntry
  | batchPayout => exact hcommit _ fun _ _ => quiet_batchPayout
  | deposit | withdraw | withdrawAmount => cases h

end

/-! ## Withdrawals -/

/-- The event of a payment from the contract. -/
def transferEvent (x : TokenTransfer) : Event :=
  ⟨[paymentTransfer], [.address x.src, .address x.dst, .i128 x.amount]⟩

theorem booking_transferEvent (x : TokenTransfer) : booking (transferEvent x) = none :=
  booking_other _ (by decide) (by decide)

/-- A payment that is left out when the amount is not positive. -/
theorem onlyIf_safeTransfer_iff {env : Env me} {token dst : Address} {amount : ℤ}
    {w w' : World Store} {u : Unit} :
    onlyIf (amount > 0) (safeTransferFromContract env token dst amount) w = .ok u w' ↔
      env.AllowsAll w.tokens (Transfer.ifPos ⟨token, me, dst, amount⟩) ∧ w' = { w with
        tokens := w.tokens.moveAll (Transfer.ifPos ⟨token, me, dst, amount⟩)
        events := w.events ++ (Transfer.ifPos ⟨token, me, dst, amount⟩).map transferEvent } := by
  rw [onlyIf_ok, safeTransferFromContract_ok]
  by_cases hpos : amount > 0
  · simp [Transfer.ifPos, hpos, Env.AllowsAll, transferEvent]
  · simp [Transfer.ifPos, hpos, Env.AllowsAll]

/-- When a withdrawal is paid, and what that leaves. -/
theorem payOut_iff {env : Env me} {who : Address} {amount net : ℤ} {w w' : World Store} :
    payOut env who amount w = .ok net w' ↔
      ∃ token feeRecipient fee, w.store.token = some token ∧
        w.store.feeRecipient = some feeRecipient ∧
        calculateFeeSplit amount (w.store.feeRate.getD 0) = .ok (fee, net) ∧
        env.AllowsAll w.tokens (payouts me token feeRecipient who fee net) ∧ w' = { w with
          tokens := w.tokens.moveAll (payouts me token feeRecipient who fee net)
          events :=
            w.events ++ (payouts me token feeRecipient who fee net).map transferEvent } := by
  simp only [payOut, bind_ok, read_ok, okOr_ok, ofExcept_ok, pure_ok, onlyIf_safeTransfer_iff]
  constructor
  · rintro ⟨_, _, ⟨rfl, rfl⟩, token, _, ⟨htoken, rfl⟩, _, _, ⟨rfl, rfl⟩, _, _, ⟨rfl, rfl⟩,
      feeRecipient, _, ⟨hrecipient, rfl⟩, ⟨fee, rest⟩, _, ⟨hsplit, rfl⟩, _, _, ⟨hfee, rfl⟩, _, _,
      ⟨hnet, rfl⟩, rfl, rfl⟩
    refine ⟨token, feeRecipient, fee, htoken, hrecipient, hsplit,
      Env.allowsAll_append.mpr ⟨hfee, hnet⟩, ?_⟩
    rw [payouts, Ledger.moveAll_append, List.map_append, List.append_assoc]
  · rintro ⟨token, feeRecipient, fee, htoken, hrecipient, hsplit, hallows, rfl⟩
    obtain ⟨hfee, hnet⟩ := Env.allowsAll_append.mp hallows
    refine ⟨_, w, ⟨rfl, rfl⟩, token, w, ⟨htoken, rfl⟩, _, w, ⟨rfl, rfl⟩, _, w, ⟨rfl, rfl⟩,
      feeRecipient, w, ⟨hrecipient, rfl⟩, (fee, net), w, ⟨hsplit, rfl⟩, (), _, ⟨hfee, rfl⟩, (), _,
      ⟨hnet, rfl⟩, rfl, ?_⟩
    rw [payouts, Ledger.moveAll_append, List.map_append, List.append_assoc]

/-- The checks of a withdrawal of the amount that come after those of the amount: the token and the
    recipient of the fees are set, the fee can be computed, and the payments are let through. -/
def Payable (env : Env me) (who : Address) (amount : ℤ) (w : World Store) : Prop :=
  ∃ token feeRecipient fee net, w.store.token = some token ∧
    w.store.feeRecipient = some feeRecipient ∧
    calculateFeeSplit amount (w.store.feeRate.getD 0) = .ok (fee, net) ∧
    env.AllowsAll w.tokens (payouts me token feeRecipient who fee net)

/-- The step is a call of `withdraw_amount` that passes its checks. -/
def WithdrawsAmount (w : World Store) : Step me Entry → Prop
  | .call env (.withdrawAmount who amount) =>
    0 < amount ∧ env.signed who = true ∧ amount ≤ w.store.balanceOf who ∧ Payable env who amount w
  | _ => False

section

variable {token : Address} {env : Env me} {who : Address} {amount net : ℤ} {w w' : World Store}

/-- When `withdraw_amount` goes through. -/
theorem withdrawAmount_succeeds (h : Inv token w) :
    (withdrawAmount env who amount).Succeeds w ↔
      WithdrawsAmount w (.call env (.withdrawAmount who amount)) := by
  unfold Succeeds WithdrawsAmount Payable
  simp only [withdrawAmount_eq_exact h]
  simp only [withdrawAmountExact, bind_ok, failIf_ok, requireAuth_ok, read_ok, write_ok, payOut_iff,
    pure_ok, not_le, not_lt]
  constructor
  · rintro ⟨_, _, _, _, ⟨hpos, rfl⟩, _, _, ⟨hsigned, rfl⟩, _, _, ⟨rfl, rfl⟩, _, _,
      ⟨hle, rfl⟩, net, _, ⟨t, recipient, fee, htoken, hrecipient, hsplit, hallows, -⟩, -⟩
    exact ⟨hpos, hsigned, hle, t, recipient, fee, net, htoken, hrecipient, hsplit, hallows⟩
  · rintro ⟨hpos, hsigned, hle, t, recipient, fee, net, htoken, hrecipient, hsplit, hallows⟩
    exact ⟨net, _, (), w, ⟨hpos, rfl⟩, (), w, ⟨hsigned, rfl⟩, _, w, ⟨rfl, rfl⟩, (), w,
      ⟨hle, rfl⟩, net, _,
      ⟨t, recipient, fee, htoken, hrecipient, hsplit, hallows, rfl⟩, (), _, rfl, _, _,
        ⟨rfl, rfl⟩, (), _, rfl, rfl, rfl⟩

/-- A `withdraw_amount` that goes through lowers the balance, and publishes its payments only. -/
theorem withdrawAmount_events (h : withdrawAmount env who amount w = .ok net w') :
    0 < amount ∧ w'.store.balanceOf who = w.store.balanceOf who - amount ∧
      ∃ notes, w'.events = w.events ++ notes ∧ ∀ e ∈ notes, booking e = none := by
  simp only [withdrawAmount, bind_ok, failIf_ok, requireAuth_ok, read_ok, write_ok,
    payOut_iff, expect_ok, checkedSub_eq_some, pure_ok, not_le] at h
  obtain ⟨_, _, ⟨hpos, rfl⟩, _, _, ⟨-, rfl⟩, _, _, ⟨rfl, rfl⟩, _, _, ⟨-, rfl⟩, net, _,
    ⟨t, recipient, fee, -, -, -, -, rfl⟩, _, _, ⟨⟨-, rfl⟩, rfl⟩, _, _, rfl, _, _,
      ⟨rfl, rfl⟩, _, _, rfl, -, rfl⟩ := h
  refine ⟨hpos, ?_, _, rfl, fun e he => ?_⟩
  · unfold Store.balanceOf
    dsimp only
    rw [Table.lookup_set, if_pos rfl, Option.getD_some]
  · obtain ⟨x, -, rfl⟩ := List.mem_map.mp he
    exact booking_transferEvent x

theorem deposit_events {u : Unit} (h : deposit env who amount w = .ok u w') :
    w'.store.deposited = w.store.deposited.insert who (w.store.balanceOf who + amount) ∧
      w'.events = w.events ++ [⟨["t_dep"], [.symbol "default", .address who, .i128 amount,
        .i128 (w.store.balanceOf who + amount)]⟩] := by
  simp [deposit] at h
  obtain ⟨-, t, -, -, -, -, -, rfl⟩ := h
  exact ⟨rfl, rfl⟩

theorem withdraw_events (h : withdraw env who w = .ok net w') :
    w'.store.deposited = w.store.deposited.insert who 0 ∧
      ∃ notes, w'.events = w.events ++ notes ++ [⟨["t_wdw"], [.symbol "default", .address who,
        .i128 (w.store.balanceOf who), .i128 net]⟩] ∧ ∀ e ∈ notes, booking e = none := by
  simp only [withdraw, bind_ok, failIf_ok, requireAuth_ok, read_ok, write_ok, payOut_iff,
    emit, publish_ok, pure_ok, not_le] at h
  obtain ⟨_, _, ⟨-, rfl⟩, _, _, ⟨rfl, rfl⟩, _, _, ⟨-, rfl⟩, net, _,
    ⟨t, recipient, fee, -, -, -, -, rfl⟩, _,
    _, rfl, _, _, ⟨rfl, rfl⟩, _, _, rfl, _, _, rfl, rfl, rfl⟩ := h
  refine ⟨rfl, _, rfl, fun e he => ?_⟩
  obtain ⟨x, -, rfl⟩ := List.mem_map.mp he
  exact booking_transferEvent x

end

/-! ## Every run -/

/-- The event that books the change of a balance is published with others that book nothing. -/
theorem Reconstructed.book {w w' : World Store} (h : Reconstructed w) {notes : List Event}
    {e : Event} {who : Address} {change : ℤ} {stated : Option ℤ}
    (he : booking e = some ⟨who, change, stated⟩) (hnotes : ∀ e ∈ notes, booking e = none)
    (hevents : w'.events = w.events ++ notes ++ [e])
    (hdeposited : w'.store.deposited =
      w.store.deposited.insert who (w.store.balanceOf who + change)) : Reconstructed w' := by
  intro a
  have hbalance : w'.store.balanceOf a =
      w.store.balanceOf a + if who = a then change else 0 := by
    have hadd := Table.getD_lookup_add w.store.deposited who a change
    unfold Store.balanceOf at hdeposited ⊢
    rw [hdeposited, hadd]
    simp only [eq_comm]
  rw [hevents, folded_concat, folded_notes hnotes, h a, posted_some he, hbalance]

section

variable {env : Env me} {w w' : World Store}

/-- A deposit is booked. -/
theorem Reconstructed.deposit {src : Address} {amount : ℤ} {u : Unit} (h : Reconstructed w)
    (hok : deposit env src amount w = .ok u w') : Reconstructed w' := by
  obtain ⟨hdeposited, hevents⟩ := deposit_events hok
  have hnone : ∀ e ∈ ([] : List Event), booking e = none := fun e he => absurd he List.not_mem_nil
  refine h.book (booking_deposit src amount (w.store.balanceOf src + amount)) hnone ?_ hdeposited
  rw [List.append_nil]
  exact hevents

/-- A `withdraw` is booked. -/
theorem Reconstructed.withdraw {who : Address} {net : ℤ} (h : Reconstructed w)
    (hok : withdraw env who w = .ok net w') : Reconstructed w' := by
  obtain ⟨hdeposited, notes, hevents, hnotes⟩ := withdraw_events hok
  refine h.book (booking_withdraw who _ net) hnotes hevents ?_
  rw [add_neg_cancel]
  exact hdeposited

/-- A `withdraw_amount` is not. -/
theorem not_reconstructed_withdrawAmount {who : Address} {amount net : ℤ} (h : Reconstructed w)
    (hok : withdrawAmount env who amount w = .ok net w') : ¬ Reconstructed w' := by
  intro hafter
  obtain ⟨hpos, hbalance, notes, hevents, hnotes⟩ := withdrawAmount_events hok
  have hagrees := hafter who
  rw [hevents, folded_notes hnotes, h who, hbalance] at hagrees
  omega

/-- A call that touches no balance books nothing. -/
theorem Reconstructed.other {c : Entry} (h : Reconstructed w) (hc : c.user = none) :
    Reconstructed (step (.call env c) w) :=
  (quiet_exec env c w hc).reconstructed h

theorem Reconstructed.outside {x : TokenTransfer} (h : Reconstructed w) :
    Reconstructed (outsideTransfer env x w) := by
  rcases outsideTransfer_cases env x w with hx | ⟨-, -, hx⟩
  · rwa [hx]
  · rw [hx]
    exact h

/-- A step keeps the events and the balances in agreement exactly when it is no `withdraw_amount`
    that goes through. -/
theorem reconstructed_step_iff {token : Address} (h : Inv token w) (hrec : Reconstructed w)
    (s : Step me Entry) : Reconstructed (step s w) ↔ ¬ WithdrawsAmount w s := by
  cases s with
  | outside env x => exact iff_of_true hrec.outside id
  | call env c =>
    cases c with
    | withdrawAmount who amount =>
      rw [← withdrawAmount_succeeds h]
      show Reconstructed ((withdrawAmount env who amount).commit w) ↔ _
      rcases commit_cases (withdrawAmount env who amount) w with ⟨net, hok⟩ | ⟨hfails, hsame⟩
      · exact iff_of_false (not_reconstructed_withdrawAmount hrec hok) (not_not.mpr ⟨net, _, hok⟩)
      · rw [hsame]
        exact iff_of_true hrec hfails
    | deposit src amount =>
      exact iff_of_true (commit_induct hrec fun _ _ => hrec.deposit) id
    | withdraw who =>
      exact iff_of_true (commit_induct hrec fun _ _ => hrec.withdraw) id
    | init | setFeeRate | createEscrowEntry | releaseEscrowEntry | refundEscrowEntry
    | batchPayout =>
      refine iff_of_true ?_ id
      exact hrec.other rfl

end

/-- After the first `initialize` and any steps without another one, the events reconstruct every
    balance after every step exactly when no `withdraw_amount` has gone through. -/
theorem reconstructed_iff {env₀ : Env me} {admin token recipient : Address} {rate : ℤ}
    {tokens : TokenLedger} {w : World Store} {u : Unit}
    (hinit : init env₀ admin token rate recipient (World.deployed Store.empty tokens) = .ok u w)
    (steps : List (Step me Entry)) (honce : ∀ s ∈ steps, ¬ Initializes s) :
    (∀ x ∈ trace step w steps, ∀ a,
      folded booking (step x.2 x.1).events a = (step x.2 x.1).store.balanceOf a) ↔
      ∀ x ∈ trace step w steps, ¬ WithdrawsAmount x.1 x.2 := by
  have hstart : Reconstructed w := by
    refine (quiet_init hinit).reconstructed fun a => ?_
    show folded booking [] a = Store.empty.balanceOf a
    rw [folded_nil, Store.balanceOf, Store.empty, Finmap.lookup_empty, Option.getD_none]
  exact trace_forall_iff (P := Inv token) (G := Reconstructed) (N := fun _ s => ¬ Initializes s)
    (Q := fun w s => ¬ WithdrawsAmount w s) (fun _ _ h hs => h.step hs)
    (fun _ s h _ hrec => reconstructed_step_iff h hrec s) (Inv.start hinit) hstart
    fun x hx => honce x.2 (mem_of_mem_trace hx)

/-- The user deposits 60 and withdraws all of it. -/
def wholeRun : List (Step ⟨0⟩ Entry) :=
  [.call (.signedBy ⟨0⟩ 2 2 [⟨2⟩]) (.deposit ⟨2⟩ 60),
    .call (.signedBy ⟨0⟩ 3 3 [⟨2⟩]) (.withdraw ⟨2⟩)]

/-- The events of this run reconstruct the balance. -/
theorem reconstructed_iff_whole : folded booking (run step opened wholeRun).events ⟨2⟩ =
    (run step opened wholeRun).store.balanceOf ⟨2⟩ := by
  have hall : ∀ x ∈ trace step opened wholeRun, ∀ a,
      folded booking (step x.2 x.1).events a = (step x.2 x.1).store.balanceOf a := by
    refine (reconstructed_iff init_opened wholeRun ?_).mpr ?_
    · intro s hs
      fin_cases hs <;> exact id
    · intro x hx
      fin_cases hx <;> exact id
  exact hall (run step opened (wholeRun.take 1), .call (.signedBy ⟨0⟩ 3 3 [⟨2⟩]) (.withdraw ⟨2⟩))
    (mem_trace_iff.mpr ⟨wholeRun.take 1, [], rfl, rfl⟩) ⟨2⟩

/-- After a withdrawal of 20 out of 60 the events still book 60, where the balance is 40. -/
theorem not_reconstructed :
    init (Env.signedBy ⟨0⟩ 1 1 [⟨1⟩]) ⟨1⟩ ⟨9⟩ 0 ⟨8⟩ (World.deployed Store.empty userFunds) =
        .ok () opened ∧
      (∀ s ∈ partialRun, ¬ Initializes s) ∧
      ¬ ∀ x ∈ trace step opened partialRun, ∀ a,
        folded booking (step x.2 x.1).events a = (step x.2 x.1).store.balanceOf a := by
  refine ⟨init_opened, partialRun_once, fun h => ?_⟩
  have hsame := h (run step opened (partialRun.take 1), .call (.signedBy ⟨0⟩ 3 3 [⟨2⟩])
    (.withdrawAmount ⟨2⟩ 20)) (mem_trace_iff.mpr ⟨partialRun.take 1, [], rfl, rfl⟩) ⟨2⟩
  have hbooked : folded booking (run step opened partialRun).events ⟨2⟩ = 60 := by decide
  have hbalance : (run step opened partialRun).store.balanceOf ⟨2⟩ = 40 := by decide
  exact absurd (hbooked.symm.trans (hsame.trans hbalance)) (by decide)

end Trellis.Payments
