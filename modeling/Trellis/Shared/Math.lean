import Trellis.Shared.Errors

/-!
# Checked arithmetic

Model of `shared::math` (shared/src/math.rs): arithmetic on `i128` that reports an overflow as an
error, and shares in basis points.

Results:
* `applyBps_eq`: a share of a positive amount is its exact value, rounded down, over the whole
  range.
* `applyBps_exact`: `apply_bps` and `bps_of` on all pairs of an amount and a rate.
-/

namespace Trellis.Math

/-- `BPS_DENOMINATOR`. -/
def bpsDenominator : ℤ := 10000

/-- `o.ok_or(Error::Overflow)`. -/
def orOverflow (o : Option ℤ) : Except Error ℤ := o.elim (.error .overflow) .ok

/-- Model of `safe_add` (shared/src/math.rs:11–13). -/
def safeAdd (a b : ℤ) : Option ℤ := Trellis.checkedAdd a b

/-- Model of `safe_sub` (shared/src/math.rs:17–19). -/
def safeSub (a b : ℤ) : Option ℤ := Trellis.checkedSub a b

/-- Model of `checked_add` (shared/src/math.rs:31–33). -/
def checkedAdd (a b : ℤ) : Except Error ℤ := orOverflow (Trellis.checkedAdd a b)

/-- Model of `checked_mul` (shared/src/math.rs:43–45). -/
def checkedMul (a b : ℤ) : Except Error ℤ := orOverflow (Trellis.checkedMul a b)

/-- Model of `checked_div` (shared/src/math.rs:51–57). -/
def checkedDiv (a b : ℤ) : Except Error ℤ :=
  if b = 0 then .error .invalidAmount else orOverflow (Trellis.checkedDiv a b)

/-- Model of `apply_bps` (shared/src/math.rs:66–75). The product is taken of the quotient and of the
    remainder, so that it does not overflow. -/
def applyBps (amount bps : ℤ) : Except Error ℤ :=
  if amount ≤ 0 ∨ ¬ (0 ≤ bps ∧ bps ≤ bpsDenominator) then .error .invalidAmount
  else do
    let quotient ← checkedDiv amount bpsDenominator
    let whole ← checkedMul quotient bps
    let product ← checkedMul (amount.tmod bpsDenominator) bps
    let remainder ← checkedDiv product bpsDenominator
    checkedAdd whole remainder

/-- Model of `bps_of` (shared/src/math.rs:26–28). -/
def bpsOf (amount bps : ℤ) : Option ℤ := (applyBps amount bps).toOption

theorem checkedAdd_eq_ok {a b : ℤ} (h : InI128 (a + b)) : checkedAdd a b = .ok (a + b) := by
  rw [checkedAdd, checkedAdd_eq_some.mpr ⟨h, rfl⟩]
  rfl

theorem checkedMul_eq_ok {a b : ℤ} (h : InI128 (a * b)) : checkedMul a b = .ok (a * b) := by
  rw [checkedMul, checkedMul_eq_some.mpr ⟨h, rfl⟩]
  rfl

theorem checkedDiv_eq_ok {a : ℤ} (hnonneg : 0 ≤ a) (h : InI128 a) :
    checkedDiv a bpsDenominator = .ok (a / bpsDenominator) := by
  have hfloor : a.tdiv bpsDenominator = a / bpsDenominator := Int.tdiv_eq_ediv_of_nonneg hnonneg
  have hrange : InI128 (a.tdiv bpsDenominator) := by
    rw [hfloor]
    unfold InI128 bpsDenominator at *
    omega
  have hsome := checkedDiv_eq_some.mpr ⟨show bpsDenominator ≠ 0 by decide, hrange, rfl⟩
  rw [checkedDiv, if_neg (show bpsDenominator ≠ 0 by decide), hsome, hfloor]
  rfl

/-- A share of a positive amount is rounded down, and no intermediate value overflows. -/
theorem applyBps_eq {amount bps : ℤ} (hpos : 0 < amount) (hamount : InI128 amount) (hbps : 0 ≤ bps)
    (hle : bps ≤ bpsDenominator) :
    applyBps amount bps = .ok (amount * bps / bpsDenominator) := by
  have hsplit := Int.mul_ediv_add_emod amount bpsDenominator
  have hremainder : amount.tmod bpsDenominator = amount % bpsDenominator :=
    Int.tmod_eq_emod_of_nonneg hpos.le
  have hquotient : 0 ≤ amount / bpsDenominator := Int.ediv_nonneg hpos.le (by decide)
  have hrest : 0 ≤ amount % bpsDenominator := Int.emod_nonneg _ (by decide)
  have hless : amount % bpsDenominator < bpsDenominator := Int.emod_lt_of_pos _ (by decide)
  have hwhole : 0 ≤ amount / bpsDenominator * bps := mul_nonneg hquotient hbps
  have hwhole' : amount / bpsDenominator * bps ≤ amount / bpsDenominator * bpsDenominator :=
    mul_le_mul_of_nonneg_left hle hquotient
  have hproduct : 0 ≤ amount % bpsDenominator * bps := mul_nonneg hrest hbps
  have hproduct' : amount % bpsDenominator * bps ≤ amount % bpsDenominator * bpsDenominator :=
    mul_le_mul_of_nonneg_left hle hrest
  have hvalue : amount * bps =
      bpsDenominator * (amount / bpsDenominator * bps) + amount % bpsDenominator * bps := by
    calc amount * bps
        = (bpsDenominator * (amount / bpsDenominator) + amount % bpsDenominator) * bps := by
          rw [hsplit]
      _ = bpsDenominator * (amount / bpsDenominator * bps) + amount % bpsDenominator * bps := by
          ring
  have hfloor : amount * bps / bpsDenominator =
      amount / bpsDenominator * bps + amount % bpsDenominator * bps / bpsDenominator := by
    rw [hvalue, Int.add_comm, Int.add_mul_ediv_left _ _ (by decide), Int.add_comm]
  obtain ⟨hwholeFits, hproductFits, hsumFits⟩ : InI128 (amount / bpsDenominator * bps) ∧
      InI128 (amount % bpsDenominator * bps) ∧ InI128
        (amount / bpsDenominator * bps + amount % bpsDenominator * bps / bpsDenominator) := by
    unfold InI128 bpsDenominator at *
    omega
  rw [hfloor]
  unfold applyBps
  rw [if_neg (not_or.mpr ⟨not_le.mpr hpos, not_not.mpr ⟨hbps, hle⟩⟩),
    checkedDiv_eq_ok hpos.le hamount, hremainder]
  show (do
    let whole ← checkedMul (amount / bpsDenominator) bps
    let product ← checkedMul (amount % bpsDenominator) bps
    let remainder ← checkedDiv product bpsDenominator
    checkedAdd whole remainder) = _
  rw [checkedMul_eq_ok hwholeFits, checkedMul_eq_ok hproductFits]
  show (do
    let remainder ← checkedDiv (amount % bpsDenominator * bps) bpsDenominator
    checkedAdd (amount / bpsDenominator * bps) remainder) = _
  rw [checkedDiv_eq_ok hproduct hproductFits]
  exact checkedAdd_eq_ok hsumFits

/-- A share in basis points is the floor of its exact value. -/
theorem bpsOf_eq {amount bps : ℤ} (hpos : 0 < amount) (hamount : InI128 amount) (hbps : 0 ≤ bps)
    (hle : bps ≤ bpsDenominator) : bpsOf amount bps = some (amount * bps / bpsDenominator) := by
  rw [bpsOf, applyBps_eq hpos hamount hbps hle]
  rfl

/-- Anything else than a positive amount and a rate up to the denominator is refused. -/
theorem applyBps_eq_error {amount bps : ℤ} (h : ¬ (0 < amount ∧ 0 ≤ bps ∧ bps ≤ bpsDenominator)) :
    applyBps amount bps = .error .invalidAmount := by
  unfold applyBps
  rw [if_pos]
  omega

theorem share_mono {amount amount' bps bps' : ℤ} (hpos : 0 < amount) (hbps : 0 ≤ bps)
    (hamount : amount ≤ amount') (hrate : bps ≤ bps') :
    amount * bps / bpsDenominator ≤ amount' * bps' / bpsDenominator := by
  have hproduct : amount * bps ≤ amount' * bps' :=
    mul_le_mul hamount hrate hbps (hpos.le.trans hamount)
  exact Int.ediv_le_ediv (by decide) hproduct

/-- On a positive amount and a rate up to 10000, `apply_bps` is the exact share, rounded down; it
    lies between zero and the amount, and grows with both. On every other pair it is an invalid
    amount. `bps_of` agrees with it. -/
theorem applyBps_exact :
    (∀ amount bps : ℤ, 0 < amount → InI128 amount → 0 ≤ bps → bps ≤ bpsDenominator →
      applyBps amount bps = .ok (amount * bps / bpsDenominator) ∧
        bpsOf amount bps = some (amount * bps / bpsDenominator) ∧
        0 ≤ amount * bps / bpsDenominator ∧ amount * bps / bpsDenominator ≤ amount) ∧
    (∀ amount amount' bps bps' : ℤ, 0 < amount → amount ≤ amount' → InI128 amount' → 0 ≤ bps →
      bps ≤ bps' → bps' ≤ bpsDenominator → ∃ v v', applyBps amount bps = .ok v ∧
        applyBps amount' bps' = .ok v' ∧ v ≤ v') ∧
    ∀ amount bps : ℤ, ¬ (0 < amount ∧ 0 ≤ bps ∧ bps ≤ bpsDenominator) →
      applyBps amount bps = .error .invalidAmount ∧ bpsOf amount bps = none := by
  refine ⟨?_, ?_, ?_⟩
  · intro amount bps hpos hfits hbps hle
    exact ⟨applyBps_eq hpos hfits hbps hle, bpsOf_eq hpos hfits hbps hle,
      bps_bounds hpos.le hbps hle⟩
  · intro amount amount' bps bps' hpos hamount hfits hbps hrate hle
    have hsmaller : InI128 amount := by
      unfold InI128 at hfits ⊢
      omega
    exact ⟨_, _, applyBps_eq hpos hsmaller hbps (hrate.trans hle),
      applyBps_eq (hpos.trans_le hamount) hfits (hbps.trans hrate) hle,
        share_mono hpos hbps hamount hrate⟩
  · intro amount bps h
    rw [bpsOf, applyBps_eq_error h]
    exact ⟨rfl, rfl⟩

end Trellis.Math
