import Trellis.Shared.Payments

/-!
# Deducting a fee

`deduct_fee` makes up to two transfers from one sender. The sender, the recipient of the fee and the
receiver may be any addresses, also equal ones.

Results:
* `deductFee_ok`: when a deduction succeeds, and the state it leaves.
* `netAll_deduction`: what the two transfers bring to an address.
* `deductFee_balances`: the balances after a deduction.
-/

namespace Trellis

open Exec

variable {me : Address} {S : Type}

/-- The transfers of a deduction. -/
def deduction (token src recipient dst : Address) (fee net : ℤ) : List TokenTransfer :=
  Transfer.ifPos ⟨token, src, recipient, fee⟩ ++ Transfer.ifPos ⟨token, src, dst, net⟩

/-- The event of a transfer. -/
def eventOf (topic : Symbol) (x : TokenTransfer) : Event :=
  ⟨[topic], [.address x.src, .address x.dst, .i128 x.amount]⟩

/-- A transfer and its event, left out when the amount is not positive. -/
theorem onlyIf_transfer_emit {env : Env me} {token src dst : Address} {amount : ℤ} {topic : Symbol}
    {w w' : World S} {u : Unit} :
    (onlyIf (amount > 0) (do
      transfer env token src dst amount
      emit topic [.address src, .address dst, .i128 amount]) :
        Invocation S Error Unit) w = .ok u w' ↔
      env.AllowsAll w.tokens (Transfer.ifPos ⟨token, src, dst, amount⟩) ∧ w' = { w with
        tokens := w.tokens.moveAll (Transfer.ifPos ⟨token, src, dst, amount⟩)
        events := w.events ++ (Transfer.ifPos ⟨token, src, dst, amount⟩).map (eventOf topic) } := by
  rw [onlyIf_ok]
  by_cases hpos : amount > 0
  · simp [Transfer.ifPos, hpos, Env.AllowsAll, eventOf]
  · simp [Transfer.ifPos, hpos, Env.AllowsAll]

/-- A deduction succeeds when the amount is split and the token lets both transfers through, one
    after the other. -/
theorem deductFee_ok {env : Env me} {token src dst : Address} {feeCfg : FeeConfig} {amount net : ℤ}
    {w w' : World S} :
    deductFee env token src feeCfg amount dst w = .ok net w' ↔
      ∃ fee, calculateFeeSplit amount feeCfg.rateBps = .ok (fee, net) ∧
        env.AllowsAll w.tokens (deduction token src feeCfg.recipient dst fee net) ∧ w' = { w with
          tokens := w.tokens.moveAll (deduction token src feeCfg.recipient dst fee net)
          events := w.events ++
            ((Transfer.ifPos ⟨token, src, feeCfg.recipient, fee⟩).map (eventOf paymentFee) ++
              (Transfer.ifPos ⟨token, src, dst, net⟩).map (eventOf paymentTransfer)) } := by
  unfold deductFee
  simp only [bind_ok, ofExcept_ok, onlyIf_transfer_emit, pure_ok]
  constructor
  · rintro ⟨⟨fee, rest⟩, _, ⟨hsplit, rfl⟩, _, _, ⟨hfee, rfl⟩, _, _, ⟨hnet, rfl⟩, rfl, rfl⟩
    refine ⟨fee, hsplit, Env.allowsAll_append.mpr ⟨hfee, hnet⟩, ?_⟩
    rw [deduction, Ledger.moveAll_append, ← List.append_assoc]
  · rintro ⟨fee, hsplit, hallows, rfl⟩
    obtain ⟨hfee, hnet⟩ := Env.allowsAll_append.mp hallows
    refine ⟨(fee, net), w, ⟨hsplit, rfl⟩, (), _, ⟨hfee, rfl⟩, (), _, ⟨hnet, rfl⟩, rfl, ?_⟩
    rw [deduction, Ledger.moveAll_append, ← List.append_assoc]

/-- What the two transfers bring to an address: the sender loses both parts, and what goes to the
    sender itself comes back. -/
theorem netAll_deduction (token src recipient dst : Address) {fee net : ℤ} (hfee : 0 ≤ fee)
    (hnet : 0 ≤ net) (t a : Address) :
    netAll t a (deduction token src recipient dst fee net) = amountIn token t
      ((if a = src then - (fee + net) else 0) + (if a = recipient then fee else 0) +
        if a = dst then net else 0) := by
  rw [deduction, netAll_append, netAll_ifPos hfee, netAll_ifPos hnet]
  simp only [Transfer.net, amountIn, eq_comm (a := a)]
  split_ifs <;> omega

/-- An error is returned before anything is transferred. -/
theorem deductFee_err {env : Env me} {token src dst : Address} {feeCfg : FeeConfig} {amount : ℤ}
    {e : Error} {w w' : World S}
    (h : deductFee env token src feeCfg amount dst w = .fail (.err e) w') : w' = w := by
  simp [deductFee, transfer_ne_err] at h
  exact h.2

/-- A deduction takes the amount from the sender and gives the exact fee, rounded down, to its
    recipient and the rest to the receiver, whichever of the three coincide; it moves nothing else.
    A deduction that fails moves nothing. -/
theorem deductFee_balances (env : Env me) (token src dst : Address) (feeCfg : FeeConfig)
    (amount : ℤ) (w : World S) :
    (∀ net w', deductFee env token src feeCfg amount dst w = .ok net w' →
      ∃ fee, fee = amount * feeCfg.rateBps / 10000 ∧ fee + net = amount ∧
        (∀ a, w'.tokens.balance token a = w.tokens.balance token a +
          ((if a = src then - amount else 0) +
          (if a = feeCfg.recipient then fee else 0) + if a = dst then net else 0)) ∧
        (∀ t, t ≠ token → ∀ a, w'.tokens.balance t a = w.tokens.balance t a) ∧
        ∀ holders : Finset Address, src ∈ holders → feeCfg.recipient ∈ holders → dst ∈ holders →
          ∑ a ∈ holders, w'.tokens.balance token a = ∑ a ∈ holders, w.tokens.balance token a) ∧
    (∀ e w', deductFee env token src feeCfg amount dst w = .fail (.err e) w' → w' = w) ∧
    (¬ (deductFee env token src feeCfg amount dst).Succeeds w →
      (deductFee env token src feeCfg amount dst).commit w = w) := by
  refine ⟨?_, fun e w' => deductFee_err, commit_of_fails⟩
  intro net w' h
  obtain ⟨fee, hsplit, -, rfl⟩ := deductFee_ok.mp h
  obtain ⟨-, hfee, hnet, hsum⟩ := calculateFeeSplit_ok hsplit
  have hvalue := (calculateFee_ok.mp (calculateFeeSplit_iff.mp hsplit).1).2.2.2.2
  have hbalance :
    ∀ t a, (w.tokens.moveAll (deduction token src feeCfg.recipient dst fee net)).balance t a =
      w.tokens.balance t a + amountIn token t ((if a = src then - amount else 0) +
        (if a = feeCfg.recipient then fee else 0) + if a = dst then net else 0) := by
    intro t a
    rw [Ledger.balance_moveAll, netAll_deduction token src feeCfg.recipient dst hfee hnet, hsum]
  refine ⟨fee, hvalue, hsum, fun a => ?_, fun t hother a => ?_,
    fun holders hsrc hrecipient hdst => ?_⟩
  · rw [hbalance token a, amountIn, if_pos rfl]
  · rw [hbalance t a, amountIn, if_neg (Ne.symm hother), add_zero]
  · apply Ledger.sum_moveAll
    intro x hx
    rcases List.mem_append.mp hx with hx | hx
    · rw [(Transfer.mem_ifPos.mp hx).1]
      exact ⟨hsrc, hrecipient⟩
    · rw [(Transfer.mem_ifPos.mp hx).1]
      exact ⟨hsrc, hdst⟩

end Trellis
