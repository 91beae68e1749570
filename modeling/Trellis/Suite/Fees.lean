import Trellis.Market.Sales
import Trellis.Shared.Math
import Trellis.Shared.Payments

/-!
# The fee formulas of the suite

`calculate_fee` of the payment primitives and `compute_platform_fee` of the marketplace multiply
first and give up when the product does not fit in an `i128`. `apply_bps` of the shared arithmetic
never has to.

Results:
* `rate_of_whole`: a fee that is the whole amount has the whole rate.
* `fees_agree`: the three formulas on every positive amount and every rate.
-/

namespace Trellis

/-- How the three formulas behave on an amount and a rate, and how the amount is split. -/
structure FeesAgree (amount rateBps : ℤ) : Prop where
  payments : (∃ fee, calculateFee amount rateBps = .ok fee) ↔ amount * rateBps ≤ 2 ^ 127 - 1
  market : (∃ fee, Market.computePlatformFee amount rateBps = .ok fee) ↔
    amount * rateBps ≤ 2 ^ 127 - 1
  payments_eq (fee : ℤ) :
    calculateFee amount rateBps = .ok fee → Math.applyBps amount rateBps = .ok fee
  market_eq (fee : ℤ) : Market.computePlatformFee amount rateBps = .ok fee →
    Math.applyBps amount rateBps = .ok fee
  exact : Math.applyBps amount rateBps = .ok (amount * rateBps / 10000)
  split : (∃ fee net, calculateFeeSplit amount rateBps = .ok (fee, net)) ↔
    amount * rateBps ≤ 2 ^ 127 - 1
  parts (fee net : ℤ) : calculateFeeSplit amount rateBps = .ok (fee, net) →
    calculateFee amount rateBps = .ok fee ∧ fee + net = amount ∧ 0 ≤ fee ∧ fee ≤ amount ∧
      (net = 0 → rateBps = 10000)

/-- Only the whole rate takes the whole amount. -/
theorem rate_of_whole {amount rateBps : ℤ} (hpos : 0 < amount) (h₁ : rateBps ≤ 10000)
    (hwhole : amount * rateBps / 10000 = amount) : rateBps = 10000 := by
  have hle : amount * 10000 ≤ amount * rateBps := by omega
  have hrate : 10000 ≤ rateBps := le_of_mul_le_mul_left hle hpos
  omega

/-- The formulas that multiply first agree with `apply_bps` wherever the product fits, and give up
    exactly where it does not. -/
theorem fees_agree {amount rateBps : ℤ} (hpos : 0 < amount) (hfits : InI128 amount)
    (h₀ : 0 ≤ rateBps) (h₁ : rateBps ≤ 10000) : FeesAgree amount rateBps := by
  obtain ⟨hfee₀, hfee₁⟩ := bps_bounds hpos.le h₀ h₁
  have hexact : Math.applyBps amount rateBps = .ok (amount * rateBps / 10000) :=
    Math.applyBps_eq hpos hfits h₀ h₁
  have hmarket : ∀ fee, Market.computePlatformFee amount rateBps = .ok fee ↔
      amount * rateBps < 2 ^ 127 ∧ fee = amount * rateBps / 10000 :=
    fun fee => Market.computePlatformFee_ok hpos.le h₀
  constructor
  · constructor
    · rintro ⟨fee, hfee⟩
      have hproduct := (calculateFee_ok.mp hfee).2.2.2.1
      omega
    · intro hproduct
      exact ⟨_, calculateFee_of_fits hpos h₀ h₁ (by omega)⟩
  · constructor
    · rintro ⟨fee, hfee⟩
      have hproduct := ((hmarket fee).mp hfee).1
      omega
    · intro hproduct
      exact ⟨_, (hmarket _).mpr ⟨by omega, rfl⟩⟩
  · intro fee hfee
    rw [(calculateFee_ok.mp hfee).2.2.2.2]
    exact hexact
  · intro fee hfee
    rw [((hmarket fee).mp hfee).2]
    exact hexact
  · exact hexact
  · constructor
    · rintro ⟨fee, net, hsplit⟩
      have hproduct := (calculateFee_ok.mp (calculateFeeSplit_iff.mp hsplit).1).2.2.2.1
      omega
    · intro hproduct
      refine ⟨_, _, calculateFeeSplit_iff.mpr ⟨calculateFee_of_fits hpos h₀ h₁ (by omega), ?_, rfl⟩⟩
      unfold InI128 at *
      omega
  · intro fee net hsplit
    obtain ⟨hfee, -, rfl⟩ := calculateFeeSplit_iff.mp hsplit
    have hvalue := (calculateFee_ok.mp hfee).2.2.2.2
    rw [← hvalue] at hfee₀ hfee₁
    refine ⟨hfee, by omega, hfee₀, hfee₁, fun hnone => rate_of_whole hpos h₁ ?_⟩
    omega

/-- At a rate of 1.5 percent the largest amount has an exact fee, which only `apply_bps`
    computes. -/
theorem fees_agree_largest : FeesAgree (2 ^ 127 - 1) 150 :=
  fees_agree (by decide) (by decide) (by decide) (by decide)

end Trellis
