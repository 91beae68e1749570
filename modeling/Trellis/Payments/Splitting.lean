import Trellis.Payments.Contract

/-!
# Splitting a withdrawal

A fee is rounded down, so that a balance that is withdrawn in parts pays a little less in fees than
one that is withdrawn at once.

Results:
* `sum_floors`: ten thousandths of the parts of a sum, and of the sum.
* `fees_of_parts`: the fee of a sum exceeds the fees of its parts by less than one for each part.
* `paid_withdrawAmount`, `paid_withdraw`: what a withdrawal pays.
* `nets_of_withdrawals`: what the withdrawals of a run pay, beside one withdrawal of the whole
  balance.
* `splitting_gains_less_than_one_each`: the three together.
-/

namespace Trellis.Payments

open Exec

variable {me : Address}

/-! ## The fees of the parts -/

/-- Each part is short of its exact fee by less than one. -/
theorem sum_floors (rateBps : ℤ) (amounts : List ℤ) :
    10000 * (amounts.map fun a => a * rateBps / 10000).sum ≤ amounts.sum * rateBps ∧
      amounts.sum * rateBps ≤
        10000 * (amounts.map fun a => a * rateBps / 10000).sum + 9999 * amounts.length := by
  induction amounts with
  | nil => simp
  | cons a rest ih =>
    obtain ⟨hle, hge⟩ := ih
    have hproduct : (a :: rest).sum * rateBps = a * rateBps + rest.sum * rateBps := by
      rw [List.sum_cons, add_mul]
    rw [hproduct, List.map_cons, List.sum_cons, List.length_cons]
    push_cast
    omega

/-- The rounded fees of the parts, and of the sum. -/
theorem sum_floors_lt (rateBps : ℤ) {amounts : List ℤ} (hne : amounts ≠ []) :
    (amounts.map fun a => a * rateBps / 10000).sum ≤ amounts.sum * rateBps / 10000 ∧
      amounts.sum * rateBps / 10000 <
        (amounts.map fun a => a * rateBps / 10000).sum + amounts.length := by
  obtain ⟨hle, hge⟩ := sum_floors rateBps amounts
  have hsome : 0 < amounts.length := List.length_pos_iff.mpr hne
  omega

theorem le_sum_of_mem {amounts : List ℤ} (hpos : ∀ a ∈ amounts, 0 < a) {a : ℤ} (ha : a ∈ amounts) :
    a ≤ amounts.sum :=
  List.single_le_sum (fun b hb => (hpos b hb).le) a ha

/-- When the product of the sum with the rate fits, the fees of the sum and of every part are
    computed. The parts pay together at most the fee of the sum, and less than one for each part
    below it. -/
theorem fees_of_parts {rateBps : ℤ} {amounts : List ℤ} (hne : amounts ≠ [])
    (hpos : ∀ a ∈ amounts, 0 < a) (h₀ : 0 ≤ rateBps) (h₁ : rateBps ≤ 10000)
    (hfits : amounts.sum * rateBps ≤ 2 ^ 127 - 1) :
    ∃ fee fees, calculateFee amounts.sum rateBps = .ok fee ∧
      List.Forall₂ (fun a f => calculateFee a rateBps = .ok f) amounts fees ∧
      fees.sum ≤ fee ∧ fee < fees.sum + amounts.length := by
  obtain ⟨hle, hlt⟩ := sum_floors_lt rateBps hne
  obtain ⟨a, ha⟩ := List.exists_mem_of_ne_nil amounts hne
  have hsum : 0 < amounts.sum := (hpos a ha).trans_le (le_sum_of_mem hpos ha)
  refine ⟨_, amounts.map fun a => a * rateBps / 10000,
    calculateFee_of_fits hsum h₀ h₁ (by omega), ?_, hle, hlt⟩
  rw [List.forall₂_map_right_iff, List.forall₂_same]
  intro b hb
  have hpart : b * rateBps ≤ amounts.sum * rateBps :=
    mul_le_mul_of_nonneg_right (le_sum_of_mem hpos hb) h₀
  exact calculateFee_of_fits (hpos b hb) h₀ h₁ (by omega)

/-! ## What a withdrawal pays -/

/-- From the state `w` the amount is paid out to `who`: the fee to its recipient and `net` to `who`,
    which add up to the amount. -/
def Paid (me who : Address) (amount net : ℤ) (w w' : World Store) : Prop :=
  ∃ token feeRecipient fee, w.store.token = some token ∧ w.store.feeRecipient = some feeRecipient ∧
    calculateFee amount (w.store.feeRate.getD 0) = .ok fee ∧ fee + net = amount ∧
    w'.tokens = w.tokens.moveAll (payouts me token feeRecipient who fee net)

section

variable {env : Env me} {who : Address} {amount net : ℤ} {w w' : World Store}

theorem paid_payOut (h : payOut env who amount w = .ok net w') : Paid me who amount net w w' := by
  obtain ⟨token, feeRecipient, fee, htoken, hrecipient, hsplit, events, rfl⟩ := payOut_ok h
  have hfee := (calculateFeeSplit_iff.mp hsplit).1
  obtain ⟨-, -, -, hsum⟩ := calculateFeeSplit_ok hsplit
  exact ⟨token, feeRecipient, fee, htoken, hrecipient, hfee, hsum, rfl⟩

/-- A withdrawal of an amount pays it out. -/
theorem paid_withdrawAmount (h : withdrawAmount env who amount w = .ok net w') :
    Paid me who amount net w w' := by
  simp [withdrawAmount] at h
  obtain ⟨-, -, -, w₁, hpay, -, rfl⟩ := h
  have hpaid := paid_payOut hpay
  exact hpaid

/-- A withdrawal of everything pays out the balance. -/
theorem paid_withdraw (h : withdraw env who w = .ok net w') :
    Paid me who (w.store.balanceOf who) net w w' := by
  simp [withdraw] at h
  obtain ⟨-, -, w₁, hpay, rfl⟩ := h
  have hpaid := paid_payOut hpay
  exact hpaid

/-- What is paid out is the amount less its exact fee, rounded down. -/
theorem Paid.net_eq (h : Paid me who amount net w w') :
    0 < amount ∧ net = amount - amount * w.store.feeRate.getD 0 / 10000 := by
  obtain ⟨token, feeRecipient, fee, -, -, hfee, hsum, -⟩ := h
  obtain ⟨hpos, -, -, -, rfl⟩ := calculateFee_ok.mp hfee
  exact ⟨hpos, by omega⟩

end

/-! ## Every run -/

/-- The amount that the step withdraws for `who` and what it pays to `who`, when it is a call of
    `withdraw_amount` that goes through. -/
def withdrawal (who : Address) (w : World Store) : Step me Entry → Option (ℤ × ℤ)
  | .call env (.withdrawAmount user amount) =>
    if user = who then ((withdrawAmount env user amount).value w).map fun net =>
      (amount, net) else none
  | _ => none

theorem paid_withdrawal {who : Address} {w : World Store} {s : Step me Entry} {amount net : ℤ}
    (h : withdrawal who w s = some (amount, net)) : Paid me who amount net w (step s w) := by
  unfold withdrawal at h
  split at h
  case h_1 env user part =>
    by_cases huser : user = who
    · subst huser
      rw [if_pos rfl] at h
      obtain ⟨net', hvalue, heq⟩ := Option.map_eq_some_iff.mp h
      cases heq
      exact paid_withdrawAmount (value_eq_some.mp hvalue)
    · rw [if_neg huser] at h
      cases h
  case h_2 => cases h

/-- The withdrawals of `who` in a run. -/
def withdrawals (who : Address) (w : World Store) (steps : List (Step me Entry)) : List (ℤ × ℤ) :=
  yields step (withdrawal who) w steps

/-- What the withdrawals pay, at one rate, is what they withdraw less the rounded fees. -/
theorem sum_nets (rateBps : ℤ) {parts : List (ℤ × ℤ)}
    (h : ∀ p ∈ parts, p.2 = p.1 - p.1 * rateBps / 10000) :
    (parts.map Prod.snd).sum = (parts.map Prod.fst).sum -
      ((parts.map Prod.fst).map fun a => a * rateBps / 10000).sum := by
  induction parts with
  | nil => simp
  | cons p parts ih =>
    rw [List.forall_mem_cons] at h
    simp only [List.map_cons, List.sum_cons]
    rw [ih h.2, h.1]
    omega

/-- Withdrawals at one rate that take the whole balance pay at least what one withdrawal of it does,
    and less than one more for each of them. -/
theorem nets_of_withdrawals {who : Address} {w : World Store} {steps : List (Step me Entry)}
    (hrate : ∀ x ∈ trace step w steps, withdrawal who x.1 x.2 ≠ none →
      x.1.store.feeRate.getD 0 = w.store.feeRate.getD 0)
    (hwhole : ((withdrawals who w steps).map Prod.fst).sum = w.store.balanceOf who) {env : Env me}
    {net : ℤ} {w' : World Store} (h : withdraw env who w = .ok net w') :
    net ≤ ((withdrawals who w steps).map Prod.snd).sum ∧
      ((withdrawals who w steps).map Prod.snd).sum < net + (withdrawals who w steps).length := by
  have hparts : ∀ p ∈ withdrawals who w steps,
      p.2 = p.1 - p.1 * w.store.feeRate.getD 0 / 10000 := by
    intro p hp
    obtain ⟨x, hx, hp⟩ := List.mem_filterMap.mp hp
    have hpaid : Paid me who p.1 p.2 x.1 (step x.2 x.1) := paid_withdrawal hp
    have hsame := hrate x hx (by rw [hp]; exact Option.some_ne_none p)
    rw [← hsame]
    exact hpaid.net_eq.2
  obtain ⟨hpos, hnet⟩ := (paid_withdraw h).net_eq
  have hne : (withdrawals who w steps).map Prod.fst ≠ [] := by
    intro hnone
    rw [hnone, List.sum_nil] at hwhole
    omega
  have hsum := sum_nets (w.store.feeRate.getD 0) hparts
  obtain ⟨hle, hlt⟩ := sum_floors_lt (w.store.feeRate.getD 0) hne
  rw [List.length_map] at hlt
  rw [hwhole] at hle hlt hsum
  omega

/-- The fees of the parts of a sum are computed when that of the sum can be; they come to at most
    the fee of the sum, and to less than one for each part below it. So the withdrawals of a run at
    one rate that take a balance pay at least what one withdrawal of it does, and less than one more
    for each of them. Every withdrawal of a run pays the fee and the rest of its amount. -/
theorem splitting_gains_less_than_one_each :
    (∀ (rateBps : ℤ) (amounts : List ℤ), amounts ≠ [] → (∀ a ∈ amounts, 0 < a) → 0 ≤ rateBps →
      rateBps ≤ 10000 → amounts.sum * rateBps ≤ 2 ^ 127 - 1 →
        ∃ fee fees, calculateFee amounts.sum rateBps = .ok fee ∧
          List.Forall₂ (fun a f => calculateFee a rateBps = .ok f) amounts fees ∧
          fees.sum ≤ fee ∧ fee < fees.sum + amounts.length) ∧
    (∀ (me who : Address) (w : World Store) (steps : List (Step me Entry)),
      (∀ x ∈ trace step w steps, withdrawal who x.1 x.2 ≠ none →
        x.1.store.feeRate.getD 0 = w.store.feeRate.getD 0) →
      ((withdrawals who w steps).map Prod.fst).sum = w.store.balanceOf who →
        ∀ (env : Env me) (net : ℤ) (w' : World Store), withdraw env who w = .ok net w' →
          Paid me who (w.store.balanceOf who) net w w' ∧
            net ≤ ((withdrawals who w steps).map Prod.snd).sum ∧
            ((withdrawals who w steps).map Prod.snd).sum < net + (withdrawals who w steps).length) ∧
    ∀ (me who : Address) (w : World Store) (steps : List (Step me Entry)), ∀ x ∈ trace step w steps,
      ∀ amount net, withdrawal who x.1 x.2 = some (amount, net) →
        Paid me who amount net x.1 (step x.2 x.1) := by
  refine ⟨?_, ?_, ?_⟩
  · intro rateBps amounts hne hpos h₀ h₁ hfits
    exact fees_of_parts hne hpos h₀ h₁ hfits
  · intro me who w steps hrate hwhole env net w' h
    exact ⟨paid_withdraw h, nets_of_withdrawals hrate hwhole h⟩
  · intro me who w steps x hx amount net h
    exact paid_withdrawal h

/-- The user deposits 60 in a contract with a fee of 250 basis points. -/
def chargedDeposit : World Store :=
  run step ((init (Env.signedBy ⟨0⟩ 1 1 [⟨1⟩]) ⟨1⟩ ⟨9⟩ 250 ⟨8⟩).commit
    (World.deployed Store.empty (.ofList [(⟨9⟩, ⟨2⟩, 100)])))
    [(.call (.signedBy ⟨0⟩ 2 2 [⟨2⟩]) (.deposit ⟨2⟩ 60) : Step ⟨0⟩ Entry)]

/-- Two withdrawals of 30. -/
def twoParts : List (Step ⟨0⟩ Entry) :=
  [.call (.signedBy ⟨0⟩ 3 3 [⟨2⟩]) (.withdrawAmount ⟨2⟩ 30),
    .call (.signedBy ⟨0⟩ 4 4 [⟨2⟩]) (.withdrawAmount ⟨2⟩ 30)]

/-- One withdrawal of the 60 pays 59, the two of 30 pay all of it: the fee of each is rounded to
    nothing. -/
theorem splitting_gains_two_parts :
    (∃ fee fees, calculateFee 60 250 = .ok fee ∧
      List.Forall₂ (fun a f => calculateFee a 250 = .ok f) [30, 30] fees ∧
      fees.sum ≤ fee ∧ fee < fees.sum + 2) ∧
    withdrawals ⟨2⟩ chargedDeposit twoParts = [(30, 30), (30, 30)] ∧
    (59 : ℤ) ≤ ((withdrawals ⟨2⟩ chargedDeposit twoParts).map Prod.snd).sum ∧
    ((withdrawals ⟨2⟩ chargedDeposit twoParts).map Prod.snd).sum < 59 + 2 ∧
    Paid ⟨0⟩ ⟨2⟩ 30 30 chargedDeposit (run step chargedDeposit (twoParts.take 1)) := by
  obtain ⟨hfees, hwithdraw, hpart⟩ := splitting_gains_less_than_one_each
  have hok : withdraw (Env.signedBy ⟨0⟩ 3 3 [⟨2⟩]) ⟨2⟩ chargedDeposit =
      .ok 59 (exec (Env.signedBy ⟨0⟩ 3 3 [⟨2⟩]) (.withdraw ⟨2⟩) chargedDeposit) := rfl
  have hrate : ∀ x ∈ trace step chargedDeposit twoParts, withdrawal ⟨2⟩ x.1 x.2 ≠ none →
      x.1.store.feeRate.getD 0 = chargedDeposit.store.feeRate.getD 0 := by
    intro x hx _
    fin_cases hx <;> rfl
  obtain ⟨-, hle, hlt⟩ := hwithdraw ⟨0⟩ ⟨2⟩ chargedDeposit twoParts hrate (by decide) _ _ _ hok
  have hfirst := hpart ⟨0⟩ ⟨2⟩ chargedDeposit twoParts
    (chargedDeposit, .call (.signedBy ⟨0⟩ 3 3 [⟨2⟩]) (.withdrawAmount ⟨2⟩ 30))
    (mem_trace_iff.mpr ⟨[], twoParts.drop 1, rfl, rfl⟩) 30 30 rfl
  exact ⟨hfees 250 [30, 30]
    (by simp) (by decide) (by decide) (by decide) (by decide), rfl, hle, hlt,
    hfirst⟩

end Trellis.Payments
