import Trellis.Market.Bulk
import Trellis.Market.Records
import Trellis.Market.Sales

/-!
# The price of a Dutch auction

The price falls from the start price to the floor price between the start and the end of the
auction, in proportion to the time that has passed, rounded up.

Results:
* `dutchAuctionPrice_between`: the price while it falls, and when it cannot be computed.
* `price_law`: the price at all times, and how it falls.
* `declining_of_create`: `create_dutch_auction` stores auctions whose price falls.
* `dutch_price_law`: the two together.
-/

namespace Trellis.Market

open Exec

variable {me : Address}

/-! ## The price while it falls -/

/-- The price of the auction falls: its prices are positive and its times in order. -/
structure Declining (a : Auction) : Prop where
  floor_pos : 0 < a.floorPrice
  lower : a.floorPrice < a.startPrice
  fits : InI128 a.startPrice
  later : a.startTime < a.endTime

/-- The share of the range that has passed after `elapsed` of the `duration` lies between nothing
    and the whole. -/
theorem decay_bounds (range elapsed duration : ℤ) (hrange : 0 ≤ range) (helapsed : 0 ≤ elapsed)
    (hwithin : elapsed ≤ duration) (hpos : 0 < duration) :
    0 ≤ range * elapsed / duration ∧ range * elapsed / duration ≤ range := by
  have hproduct : 0 ≤ range * elapsed := mul_nonneg hrange helapsed
  have hle : range * elapsed ≤ range * duration := mul_le_mul_of_nonneg_left hwithin hrange
  exact ⟨Int.ediv_nonneg hproduct hpos.le, Int.ediv_le_of_le_mul hpos hle⟩

theorem decay_mono (range elapsed elapsed' duration : ℤ) (hrange : 0 ≤ range)
    (hle : elapsed ≤ elapsed') (hpos : 0 < duration) :
    range * elapsed / duration ≤ range * elapsed' / duration :=
  Int.ediv_le_ediv hpos (mul_le_mul_of_nonneg_left hle hrange)

/-- What the price has lost at the time `t`, before it is divided by the duration. -/
def Auction.lost (a : Auction) (t : ℕ) : ℤ :=
  (a.startPrice - a.floorPrice) * ((t - a.startTime : ℕ) : ℤ)

/-- The price at a time between the start and the end. -/
def Auction.linear (a : Auction) (t : ℕ) : ℤ :=
  a.startPrice - a.lost t / ((a.endTime - a.startTime : ℕ) : ℤ)

theorem Declining.linear_bounds {a : Auction} (h : Declining a) {t : ℕ} (hend : t ≤ a.endTime) :
    a.floorPrice ≤ a.linear t ∧ a.linear t ≤ a.startPrice := by
  obtain ⟨-, hlower, -, hlater⟩ := h
  have hdecay := decay_bounds (a.startPrice - a.floorPrice) ((t - a.startTime : ℕ) : ℤ)
    ((a.endTime - a.startTime : ℕ) : ℤ) (by omega) (by omega) (by omega) (by omega)
  unfold Auction.linear Auction.lost
  omega

theorem Declining.linear_anti {a : Auction} (h : Declining a) {t₁ t₂ : ℕ} (hle : t₁ ≤ t₂) :
    a.linear t₂ ≤ a.linear t₁ := by
  obtain ⟨-, hlower, -, hlater⟩ := h
  have hdecay := decay_mono (a.startPrice - a.floorPrice) ((t₁ - a.startTime : ℕ) : ℤ)
    ((t₂ - a.startTime : ℕ) : ℤ) ((a.endTime - a.startTime : ℕ) : ℤ)
      (by omega) (by omega) (by omega)
  unfold Auction.linear Auction.lost
  omega

theorem Declining.checked_range {a : Auction} (h : Declining a) :
    checkedSub a.startPrice a.floorPrice = some (a.startPrice - a.floorPrice) := by
  obtain ⟨hpos, hlower, hfits, -⟩ := h
  rw [checkedSub_eq_some]
  refine ⟨?_, rfl⟩
  unfold InI128 at hfits ⊢
  omega

/-- When the product fits, so do the quotient and the difference. -/
theorem Declining.checked_decay {a : Auction} (h : Declining a) {t : ℕ} (hend : t < a.endTime) :
    checkedDiv (a.lost t) ((a.endTime - a.startTime : ℕ) : ℤ) =
        some (a.lost t / ((a.endTime - a.startTime : ℕ) : ℤ)) ∧
      checkedSub a.startPrice (a.lost t / ((a.endTime - a.startTime : ℕ) : ℤ)) =
        some (a.linear t) := by
  have hbounds := h.linear_bounds hend.le
  obtain ⟨hpos, hlower, hfits, hlater⟩ := h
  have hlost : 0 ≤ a.lost t := mul_nonneg (by omega) (by omega)
  have hduration : ((a.endTime - a.startTime : ℕ) : ℤ) ≠ 0 := by omega
  rw [checkedDiv_eq_some, checkedSub_eq_some, Int.tdiv_eq_ediv_of_nonneg hlost]
  unfold Auction.linear at hbounds ⊢
  unfold InI128 at hfits ⊢
  refine ⟨⟨hduration, ?_, rfl⟩, ?_, rfl⟩
  · omega
  · omega

/-- Between the start and the end the price is the linear one, unless the product overflows. -/
theorem dutchAuctionPrice_between {a : Auction} (h : Declining a) {t : ℕ} (hstart : a.startTime < t)
    (hend : t < a.endTime) :
    dutchAuctionPrice t a = if a.lost t < 2 ^ 127 then .ok (a.linear t) else .error .overflow := by
  have hlow := (h.linear_bounds hend.le).1
  have hrange := h.checked_range
  obtain ⟨hdiv, hsub⟩ := h.checked_decay hend
  obtain ⟨hpos, hlower, -, -⟩ := h
  have hlost : 0 ≤ a.lost t := mul_nonneg (by omega) (by omega)
  unfold dutchAuctionPrice
  rw [if_neg (not_le.mpr hend), if_neg (not_le.mpr hstart)]
  split_ifs with hproduct
  · have hmul : checkedMul (a.startPrice - a.floorPrice) ((t - a.startTime : ℕ) : ℤ) =
        some (a.lost t) := by
      rw [checkedMul_eq_some]
      refine ⟨?_, rfl⟩
      show InI128 (a.lost t)
      exact ⟨by omega, hproduct⟩
    refine except_bind_ok.mpr
      ⟨_, orOverflow_ok.mpr hrange, except_bind_ok.mpr ⟨_, orOverflow_ok.mpr hmul,
      except_bind_ok.mpr
        ⟨_, orOverflow_ok.mpr hdiv, except_bind_ok.mpr ⟨_, orOverflow_ok.mpr hsub, ?_⟩⟩⟩⟩
    show Except.ok (max (a.linear t) 0) = _
    rw [max_eq_left (by omega)]
  · have hmul : checkedMul (a.startPrice - a.floorPrice) ((t - a.startTime : ℕ) : ℤ) = none := by
      rw [checkedMul, toI128, if_neg fun hproduct' => hproduct hproduct'.2]
    rw [hrange]
    show (orOverflow (checkedMul (a.startPrice - a.floorPrice) ((t - a.startTime : ℕ) : ℤ)) >>= _) =
      _
    rw [hmul]
    rfl

/-! ## The price law -/

theorem dutchAuctionPrice_end {a : Auction} {t : ℕ} (h : a.endTime ≤ t) :
    dutchAuctionPrice t a = .ok a.floorPrice := by
  rw [dutchAuctionPrice, if_pos h]

theorem dutchAuctionPrice_start {a : Auction} (h : Declining a) {t : ℕ} (hstart : t ≤ a.startTime) :
    dutchAuctionPrice t a = .ok a.startPrice := by
  have hopen : ¬ t ≥ a.endTime := not_le.mpr (hstart.trans_lt h.later)
  rw [dutchAuctionPrice, if_neg hopen, if_pos hstart]

/-- Until the start nothing is lost, and at the end the whole range. -/
theorem Declining.linear_ends {a : Auction} (h : Declining a) :
    (∀ t, t ≤ a.startTime → a.linear t = a.startPrice) ∧ a.linear a.endTime = a.floorPrice := by
  have hduration : ((a.endTime - a.startTime : ℕ) : ℤ) ≠ 0 := by
    have hlater := h.later
    omega
  constructor
  · intro t ht
    have hzero : t - a.startTime = 0 := Nat.sub_eq_zero_of_le ht
    unfold Auction.linear Auction.lost
    rw [hzero, Nat.cast_zero, mul_zero, Int.zero_ediv, sub_zero]
  · unfold Auction.linear Auction.lost
    rw [Int.mul_ediv_cancel _ hduration]
    omega

/-- The price at any time, if it is computed, is the linear price, which stops falling at the
    end. -/
theorem dutchAuctionPrice_ok {a : Auction} (h : Declining a) {t : ℕ} {p : ℤ}
    (hp : dutchAuctionPrice t a = .ok p) : p = a.linear (min t a.endTime) := by
  obtain ⟨hbefore, hafter⟩ := h.linear_ends
  by_cases hend : a.endTime ≤ t
  · rw [dutchAuctionPrice_end hend] at hp
    rw [min_eq_right hend, hafter]
    exact (Except.ok.inj hp).symm
  · rw [min_eq_left (not_le.mp hend).le]
    by_cases hstart : t ≤ a.startTime
    · rw [dutchAuctionPrice_start h hstart] at hp
      rw [hbefore t hstart]
      exact (Except.ok.inj hp).symm
    · rw [dutchAuctionPrice_between h (not_le.mp hstart) (not_le.mp hend)] at hp
      split_ifs at hp
      exact (Except.ok.inj hp).symm

/-- The price of an auction at all times. -/
structure PriceLaw (a : Auction) : Prop where
  at_start (t : ℕ) : t ≤ a.startTime → dutchAuctionPrice t a = .ok a.startPrice
  at_end (t : ℕ) : a.endTime ≤ t → dutchAuctionPrice t a = .ok a.floorPrice
  between (t : ℕ) (p : ℤ) : a.startTime < t → t < a.endTime → dutchAuctionPrice t a = .ok p →
    p = a.startPrice -
      (a.startPrice - a.floorPrice) * ((t : ℤ) - a.startTime) / ((a.endTime : ℤ) - a.startTime)
  fails (t : ℕ) (e : MarketError) : dutchAuctionPrice t a = .error e ↔ e = .overflow ∧
    a.startTime < t ∧ t < a.endTime ∧
      2 ^ 127 - 1 < (a.startPrice - a.floorPrice) * ((t : ℤ) - a.startTime)
  divisor (t : ℕ) : a.startTime < t → t < a.endTime → ((a.endTime - a.startTime : ℕ) : ℤ) ≠ 0
  falls (t₁ t₂ : ℕ) (p₁ p₂ : ℤ) : t₁ ≤ t₂ → dutchAuctionPrice t₁ a = .ok p₁ →
    dutchAuctionPrice t₂ a = .ok p₂ → a.floorPrice ≤ p₂ ∧ p₂ ≤ p₁ ∧ p₁ ≤ a.startPrice

theorem price_law {a : Auction} (h : Declining a) : PriceLaw a := by
  have hlinear : ∀ t, a.startTime < t → t < a.endTime →
      a.lost t = (a.startPrice - a.floorPrice) * ((t : ℤ) - a.startTime) ∧
        ((a.endTime - a.startTime : ℕ) : ℤ) = (a.endTime : ℤ) - a.startTime := by
    intro t hstart hend
    unfold Auction.lost
    rw [Nat.cast_sub hstart.le, Nat.cast_sub h.later.le]
    exact ⟨rfl, rfl⟩
  constructor
  · exact fun t ht => dutchAuctionPrice_start h ht
  · exact fun t ht => dutchAuctionPrice_end ht
  · intro t p hstart hend hp
    obtain ⟨hlost, hduration⟩ := hlinear t hstart hend
    rw [dutchAuctionPrice_ok h hp, min_eq_left hend.le, Auction.linear, hlost, hduration]
  · intro t e
    by_cases hend : a.endTime ≤ t
    · rw [dutchAuctionPrice_end hend]
      refine iff_of_false (fun he => by cases he) ?_
      omega
    · by_cases hstart : t ≤ a.startTime
      · rw [dutchAuctionPrice_start h hstart]
        refine iff_of_false (fun he => by cases he) ?_
        omega
      · obtain ⟨hlost, -⟩ := hlinear t (not_le.mp hstart) (not_le.mp hend)
        rw [dutchAuctionPrice_between h (not_le.mp hstart) (not_le.mp hend), ← hlost]
        split_ifs with hproduct
        · refine iff_of_false (fun he => by cases he) ?_
          omega
        · constructor
          · intro he
            exact ⟨(Except.error.inj he).symm, by omega, by omega, by omega⟩
          · intro he
            rw [he.1]
  · intro t hstart hend
    omega
  · intro t₁ t₂ p₁ p₂ hle h₁ h₂
    rw [dutchAuctionPrice_ok h h₁, dutchAuctionPrice_ok h h₂]
    have hlow := h.linear_bounds (min_le_right t₂ a.endTime)
    have hhigh := h.linear_bounds (min_le_right t₁ a.endTime)
    exact ⟨hlow.1, h.linear_anti (min_le_min_right a.endTime hle), hhigh.2⟩

/-! ## The auctions that are stored -/

/-- A Dutch auction that is created is stored with the prices of the call, and from now for the
    duration; its price falls. -/
theorem declining_of_create {env : Env me} {seller collection : Address} {tokenId amount : ℕ}
    {start floor : ℤ} {currency : Address} {duration : ℕ} {hash : Bytes} {id : ℕ}
    {w w' : World Store} (hfits : InI128 start)
    (h : createDutchAuction env seller collection tokenId amount start floor currency duration hash
      w = .ok id w') :
    ∃ a, w'.store.auctions.lookup id = some a ∧ Declining a ∧ a.auctionType = .dutch ∧
      a.startPrice = start ∧ a.floorPrice = floor ∧ a.startTime = env.timestamp ∧
      a.endTime = env.timestamp + duration := by
  have hid := (createDutchAuction_id h).1
  cases createDutchAuction_done h with
  | createDutchAuction w₁ e events hactive hsigned hstart hfloor hcurrency hhash hcollection hprices
      hduration hend hauctioned =>
    obtain ⟨hauctions, -, -⟩ := hauctioned.spec
    have hlater := (checkedAddU64_eq_some.mp hend).2
    rw [hid]
    refine ⟨w.store.newAuction me env.timestamp seller ⟨collection, tokenId, amount, .dutch,
      start, floor,
      currency, duration, hash⟩ e, ?_, ⟨hfloor, hprices, hfits, ?_⟩, rfl, rfl, rfl, rfl, hlater⟩
    · show w₁.store.auctions.lookup w.store.nextAuction = _
      rw [hauctions, Table.lookup_set, if_pos rfl]
    · show env.timestamp < e
      omega

/-- The auctions that `create_dutch_auction` stores have a falling price, and every auction with a
    falling price follows the law. -/
theorem dutch_price_law :
    (∀ (me : Address) (env : Env me) (seller collection : Address) (tokenId amount : ℕ)
      (start floor : ℤ)
      (currency : Address) (duration : ℕ) (hash : Bytes) (id : ℕ) (w w' : World Store),
        InI128 start →
      createDutchAuction env seller collection tokenId amount start floor currency duration hash w =
        .ok id w' → ∃ a, w'.store.auctions.lookup id = some a ∧ Declining a ∧ a.startPrice = start ∧
          a.floorPrice = floor ∧ a.startTime = env.timestamp ∧
            a.endTime = env.timestamp + duration) ∧
    ∀ a, Declining a → PriceLaw a := by
  refine ⟨?_, fun a => price_law⟩
  intro me env seller collection tokenId amount start floor currency duration hash id w w' hfits h
  obtain ⟨a, ha, hdeclining, -, hrest⟩ := declining_of_create hfits h
  exact ⟨a, ha, hdeclining, hrest⟩

/-- The seller offers the item for 10, falling to 4 within 100. -/
def fallingRun : List (Step ⟨0⟩ Entry) :=
  openedWith 1 ++
    [.call (.signedBy ⟨0⟩ 1 1 [⟨2⟩]) (.createDutchAuction ⟨2⟩ ⟨7⟩ 1 1 10 4 ⟨9⟩ 100 someHash)]

/-- The price starts at 10 and ends at 4; it can be computed in between, where it never rises. -/
theorem dutch_price_law_falling :
    ∃ a, (run step opened fallingRun).store.auctions.lookup 1 = some a ∧ Declining a ∧
      dutchAuctionPrice 1 a = .ok 10 ∧ dutchAuctionPrice 101 a = .ok 4 ∧
      ∀ t p, 51 ≤ t → dutchAuctionPrice t a = .ok p → 4 ≤ p ∧ p ≤ 7 := by
  obtain ⟨a, ha, hdeclining, hstart, hfloor, htime, hend⟩ := dutch_price_law.1 ⟨0⟩
    (.signedBy ⟨0⟩ 1 1 [⟨2⟩]) ⟨2⟩ ⟨7⟩ 1 1 10 4 ⟨9⟩ 100 someHash 1 (run step opened (openedWith 1))
    (run step opened fallingRun) (by decide) rfl
  have hlaw := dutch_price_law.2 a hdeclining
  refine ⟨a, ha, hdeclining, ?_, ?_, fun t p ht hp => ?_⟩
  · rw [hlaw.at_start 1 (by rw [htime]; decide), hstart]
  · rw [hlaw.at_end 101 (by rw [hend]; decide), hfloor]
  · have hhalf : dutchAuctionPrice 51 a = .ok 7 := by
      obtain rfl := Option.some.inj ((rfl : _ = some _).symm.trans ha)
      rfl
    have hfalls := hlaw.falls 51 t 7 p ht hhalf hp
    rw [hfloor] at hfalls
    exact ⟨hfalls.1, hfalls.2.1⟩

end Trellis.Market
