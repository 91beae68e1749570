import Trellis.Market.Bulk
import Trellis.Market.Effects

/-!
# Settling an auction with a bid

`settle_english_auction` splits the bid before it pays anything. The product of the bid and the fee
rate has to be an `i128`, or it returns `Overflow`; the sum of the royalties has to be one, or it
traps. `place_bid` checks neither.

Results:
* `paySale_eq`: a sale is the split of its price, and then the transfers.
* `sumI128_succeeds`: amounts that are not negative have a sum exactly when it fits.
* `splitPrice_succeeds`: when the split of a price completes.
* `auction_kept`: from its end on an English auction is left alone by every other call.
* `settlement_computes_iff`: when the bid of an auction can be split, in every state from the first
  `initialize` on.
-/

namespace Trellis.Market

open Exec

variable {me : Address}

/-! ## The split of a price -/

/-- The fee, the royalties and the proceeds of the seller, as the sales compute them before they
    transfer anything (contracts/nft-marketplace/src/lib.rs:1080–1097). -/
def splitPrice (sale : Sale) : Invocation Store MarketError (ℤ × List (Address × ℤ) × ℤ) := do
  let platformFeeBps ← read Store.getPlatformFeeBps
  let platformFee ← ofExcept (computePlatformFee sale.price platformFeeBps)
  let royaltyAmounts ← read fun s => s.royaltyAmounts sale.collection sale.price
  let totalRoyalties ← expect (sumI128 (royaltyAmounts.map Prod.snd)) .overflow
  let afterFee ← okOr (checkedSub sale.price platformFee) .overflow
  let sellerProceeds ← okOr (checkedSub afterFee totalRoyalties) .overflow
  pure (platformFee, royaltyAmounts, sellerProceeds)

/-- A sale reads the fee recipient, splits the price, and makes the transfers. -/
theorem paySale_eq (env : Env me) (sale : Sale) :
    paySale env sale = (do
      let recipient ← read Store.feeRecipient
      let feeRecipient ← expect recipient .missing
      let split ← splitPrice sale
      onlyIf (split.1 > 0) (transfer env sale.currency sale.payer feeRecipient split.1)
      distributeRoyalties env sale.currency sale.payer split.2.1 sale.tokenId
      onlyIf (split.2.2 > 0) (transfer env sale.currency sale.payer sale.seller split.2.2)
      transfer env sale.collection me sale.receiver sale.amount) := by
  simp only [splitPrice, bind_bind]
  rfl

/-- A sale that goes through has split its price. -/
theorem splitPrice_of_paySale {env : Env me} {sale : Sale} {w w' : World Store} {u : Unit}
    (h : paySale env sale w = .ok u w') : (splitPrice sale).Succeeds w := by
  rw [paySale_eq] at h
  simp only [bind_ok, read_ok, expect_ok] at h
  obtain ⟨_, _, ⟨rfl, hw₁⟩, feeRecipient, _, ⟨-, hw₂⟩, split, w₃, hsplit, -⟩ := h
  rw [hw₂, hw₁] at hsplit
  exact ⟨split, w₃, hsplit⟩

/-- Amounts that are not negative have a sum exactly when it is an `i128`. -/
theorem sumI128_succeeds {xs : List ℤ} (h : ∀ x ∈ xs, 0 ≤ x) :
    (∃ total, sumI128 xs = some total) ↔ xs.sum < 2 ^ 127 := by
  have hfold : ∀ {start : ℤ}, 0 ≤ start → start < 2 ^ 127 →
      ((∃ total, xs.foldlM checkedAdd start = some total) ↔ start + xs.sum < 2 ^ 127) := by
    induction xs with
    | nil =>
      intro start h₀ h₁
      rw [List.sum_nil, add_zero]
      exact iff_of_true ⟨start, rfl⟩ h₁
    | cons x xs ih =>
      intro start h₀ h₁
      rw [List.forall_mem_cons] at h
      have hrest : 0 ≤ xs.sum := List.sum_nonneg h.2
      have hx := h.1
      simp only [List.foldlM_cons, Option.bind_eq_bind, Option.bind_eq_some_iff, checkedAdd_eq_some]
      rw [List.sum_cons, ← add_assoc]
      constructor
      · rintro ⟨total, _, ⟨hfits, rfl⟩, hloop⟩
        exact (ih h.2 (by omega) hfits.2).mp ⟨total, hloop⟩
      · intro hsum
        have hnext : start + x < 2 ^ 127 := by omega
        obtain ⟨total, hloop⟩ := (ih h.2 (by omega) hnext).mpr hsum
        exact ⟨total, start + x, ⟨⟨by omega, hnext⟩, rfl⟩, hloop⟩
  have hzero := hfold le_rfl (by norm_num)
  rwa [zero_add] at hzero

/-- The split of a positive price completes exactly when the price, its product with the fee rate
    and the sum of the royalties are `i128` values. -/
theorem splitPrice_succeeds {sale : Sale} {w : World Store} (h : Inv me w.store)
    (hprice : 0 < sale.price) :
    (splitPrice sale).Succeeds w ↔ sale.price < 2 ^ 127 ∧
      sale.price * w.store.getPlatformFeeBps < 2 ^ 127 ∧ sale.totalDue w.store < 2 ^ 127 := by
  have hfee : ∀ fee, computePlatformFee sale.price w.store.getPlatformFeeBps = .ok fee ↔
      sale.price * w.store.getPlatformFeeBps < 2 ^ 127 ∧
        fee = sale.price * w.store.getPlatformFeeBps / bpsDenom :=
    fun fee => computePlatformFee_ok hprice.le h.fee.1
  have hrate : w.store.getPlatformFeeBps ≤ 10000 := h.fee.2.trans (by decide)
  have hbounds : 0 ≤ sale.price * w.store.getPlatformFeeBps / bpsDenom ∧
      sale.price * w.store.getPlatformFeeBps / bpsDenom ≤ sale.price :=
    bps_bounds hprice.le h.fee.1 hrate
  have hpos : ∀ x ∈ (w.store.royaltyAmounts sale.collection sale.price).map Prod.snd, 0 ≤ x := by
    intro x hx
    obtain ⟨y, hy, rfl⟩ := List.mem_map.mp hx
    exact (royaltyAmounts_pos hy).le
  have hsum := sumI128_succeeds hpos
  have htotal := h.sum_royaltyAmounts sale hprice.le
  have hdue := List.sum_nonneg hpos
  constructor
  · rintro ⟨split, w', hok⟩
    simp only [splitPrice, bind_ok, read_ok, ofExcept_ok, expect_ok, okOr_ok, checkedSub_eq_some,
      pure_ok] at hok
    obtain ⟨_, _, ⟨rfl, rfl⟩, fee, _, ⟨hok, rfl⟩, _, _, ⟨rfl, rfl⟩, total, _, ⟨hloop, rfl⟩, _, v,
      ⟨⟨hfits, rfl⟩, rfl⟩, -⟩ := hok
    obtain ⟨hproduct, rfl⟩ := (hfee fee).mp hok
    refine ⟨?_, hproduct, htotal ▸ hsum.mp ⟨total, hloop⟩⟩
    -- without a fee the price itself is what is left
    by_cases hzero : v.store.getPlatformFeeBps = 0
    · have hleft := hfits.2
      rwa [hzero, mul_zero, Int.zero_ediv, sub_zero] at hleft
    · have hone : 1 ≤ v.store.getPlatformFeeBps := by
        have hnonneg := h.fee.1
        omega
      have hle : sale.price * 1 ≤ sale.price * v.store.getPlatformFeeBps :=
        mul_le_mul_of_nonneg_left hone hprice.le
      omega
  · rintro ⟨hfits, hproduct, hroyalties⟩
    obtain ⟨total, hloop⟩ := hsum.mpr (htotal ▸ hroyalties)
    have heq := sumI128_eq hloop
    refine ⟨(sale.price * w.store.getPlatformFeeBps / bpsDenom,
      w.store.royaltyAmounts sale.collection sale.price,
      sale.price - sale.price * w.store.getPlatformFeeBps / bpsDenom - total), w, ?_⟩
    simp only [splitPrice, bind_ok, read_ok, ofExcept_ok, expect_ok, okOr_ok, checkedSub_eq_some,
      pure_ok]
    refine ⟨_, w, ⟨rfl, rfl⟩, _, w, ⟨(hfee _).mpr ⟨hproduct, rfl⟩, rfl⟩, _, w, ⟨rfl, rfl⟩, total, w,
      ⟨hloop, rfl⟩, _, w, ⟨⟨?_, rfl⟩, rfl⟩, _, w, ⟨⟨?_, rfl⟩, rfl⟩, rfl, rfl⟩
    · unfold InI128
      omega
    · unfold InI128
      omega

/-! ## The other calls -/

theorem lookup_bumpStats {s s' : Store} {collection : Address} {dl da : ℤ}
    (h : s.bumpStats collection dl da = some s') (id : ℕ) :
    s'.auctions.lookup id = s.auctions.lookup id := by
  obtain ⟨-, hauctions⟩ := same_bumpStats h
  rw [hauctions.table]

/-- From its end on an English auction is left alone by every call but its settlement. -/
theorem auction_kept {env : Env me} {c : Entry} {w : World Store} (h : Inv me w.store) {id : ℕ}
    {a : Auction} (ha : w.store.auctions.lookup id = some a) (htype : a.auctionType = .english)
    (htime : a.endTime ≤ env.timestamp) (hinit : ¬ Initializes (.call env c))
    (hother : c ≠ .settleEnglishAuction id) :
    (exec env c w).store.auctions.lookup id = some a := by
  have hstored : id < w.store.nextAuction ∧ w.store.auctions.lookup id = some a :=
    ⟨h.auctionIds id a ha, ha⟩
  have hdutch : ∀ {id' : ℕ} {a' : Auction}, w.store.auctions.lookup id' = some a' →
      a'.auctionType = .dutch → id ≠ id' := by
    rintro id' a' ha' htype' rfl
    rw [ha] at ha'
    cases ha'
    rw [htype] at htype'
    cases htype'
  rcases exec_cases env c w with hsame | hdone
  · rw [hsame]
    exact ha
  · generalize exec env c w = w' at hdone
    cases hdone with
    | init => exact absurd trivial hinit
    | setPlatformFee | setFeeRecipient | setBidIncrement | setAutoExtension
    | setCurrency | setOracle
    | registerCollection | setCollectionRoyalties | makeOffer | acceptOffer
    | cancelOffer => exact ha
    | listNft w₁ events hactive hsigned hprice hcurrency hhash hcollection hlisted =>
      exact (lookup_bumpStats hlisted.store id).trans ha
    | buyNft l feeRecipient fee w₁ s events hactive hsigned hl hopen hsold hstats =>
      rw [hsold.store] at hstats
      exact (lookup_bumpStats hstats id).trans ha
    | cancelListing l s hsigned hl hopen hseller hstats =>
      exact (lookup_bumpStats hstats id).trans ha
    | createEnglishAuction w₁ e events hactive hsigned hstart hcurrency hhash hcollection hduration
        hend hauctioned => exact (hauctioned.keeps hstored).2
    | createDutchAuction w₁ e events hactive hsigned hstart hfloor hcurrency hhash hcollection
        hprices hduration hend hauctioned => exact (hauctioned.keeps hstored).2
    | @placeBid bidder id' bid a' least newEnd events hactive hsigned hbid ha' hopen htype' hlate =>
      -- a bid on this auction would have to come before its end
      have hne : id ≠ id' := by
        rintro rfl
        rw [ha] at ha'
        cases ha'
        omega
      dsimp only
      rw [Table.lookup_set, if_neg hne, ha]
    | @settleUnsold id' a' s hactive ha' hopen hend hbid hstats =>
      have hne : id ≠ id' := fun heq => hother (by rw [heq])
      refine (lookup_bumpStats hstats id).trans ?_
      dsimp only
      rw [Table.lookup_set, if_neg hne, ha]
    | @settleSold id' a' feeRecipient fee w₁ s events hactive ha' hopen hend hbid hsold hstats =>
      have hne : id ≠ id' := fun heq => hother (by rw [heq])
      rw [hsold.store] at hstats
      refine (lookup_bumpStats hstats id).trans ?_
      dsimp only
      rw [Table.lookup_set, if_neg hne, ha]
    | buyDutchAuction a' price feeRecipient fee w₁ s events hactive hsigned ha' hopen htype' hprice
        hpos hsold hstats =>
      rw [hsold.store] at hstats
      refine (lookup_bumpStats hstats id).trans ?_
      dsimp only
      rw [Table.lookup_set, if_neg (hdutch ha' htype'), ha]
    | cancelDutchAuction a' s hsigned ha' hopen htype' hseller hstats =>
      refine (lookup_bumpStats hstats id).trans ?_
      dsimp only
      rw [Table.lookup_set, if_neg (hdutch ha' htype'), ha]
    | bulkList w' hactive hsigned hlength heach =>
      refine keeps_listed (P := fun s => s.auctions.lookup id = some a)
        (fun item w₁ w₂ h hitem => ?_) heach ha
      exact (lookup_bumpStats hitem.store id).trans h
    | bulkCreateAuctions w' hactive hsigned hlength heach =>
      exact (keeps_auctioned (P := fun s => id < s.nextAuction ∧ s.auctions.lookup id = some a)
        (fun item e w₁ w₂ h hitem => hitem.keeps h) heach hstored).2

/-! ## Every reachable state -/

/-- In every state from the first `initialize` on, without another one, the bid of an open English
    auction can be split exactly when the bid, its product with the fee rate and the sum of the
    royalties are `i128` values. Otherwise the auction is not settled, and from its end on no other
    call touches it. -/
theorem settlement_computes_iff {env₀ : Env me} {admin recipient : Address} {fee increment : ℤ}
    {extension : ℕ} {tokens : TokenLedger} {w : World Store} {u : Unit}
    (hinit : init env₀ admin fee recipient increment extension
      (World.deployed Store.empty tokens) = .ok u w)
    (steps : List (Step me Entry)) (honce : ∀ s ∈ steps, ¬ Initializes s) {id : ℕ} {a : Auction}
    (ha : (run step w steps).store.auctions.lookup id = some a) (htype : a.auctionType = .english)
    (hbid : 0 < a.currentBid) :
    ((splitPrice (a.settlement me)).Succeeds (run step w steps) ↔ a.currentBid < 2 ^ 127 ∧
      a.currentBid * (run step w steps).store.getPlatformFeeBps < 2 ^ 127 ∧
      (a.settlement me).totalDue (run step w steps).store < 2 ^ 127) ∧
    ((∃ env : Env me, (settleEnglishAuction env id).Succeeds (run step w steps)) →
      (splitPrice (a.settlement me)).Succeeds (run step w steps)) ∧
    ∀ (env : Env me) c, a.endTime ≤ env.timestamp → ¬ Initializes (.call env c) →
      c ≠ .settleEnglishAuction id →
      (exec env c (run step w steps)).store.auctions.lookup id = some a := by
  have hinv : Inv me (run step w steps).store := (Inv.start hinit).run honce
  refine ⟨splitPrice_succeeds hinv hbid, ?_, ?_⟩
  · rintro ⟨env, u, w', hok⟩
    simp [settleEnglishAuction] at hok
    obtain ⟨-, a', ha', -, -, -, ⟨hzero, -⟩ | ⟨-, _, w₁, hpay, -⟩⟩ := hok
    · rw [ha] at ha'
      cases ha'
      omega
    · rw [ha] at ha'
      cases ha'
      -- the status that is written first does not matter to the split
      have hclosed := (splitPrice_succeeds (hinv.closeAuction ha .settled) hbid).mp
        (splitPrice_of_paySale hpay)
      exact (splitPrice_succeeds hinv hbid).mpr hclosed
  · intro env c htime hnot hother
    exact auction_kept hinv ha htype htime hnot hother

/-- The bid of 10 can be split. -/
theorem settlement_computes_iff_bidden :
    (splitPrice (biddenAuction.settlement ⟨0⟩)).Succeeds (run step opened (biddenWith 1)) :=
  (settlement_computes_iff init_opened (biddenWith 1)
    (fun s hs => settledWith_once 1 s (List.mem_append_left _ hs)) lookup_bidden rfl
    (by decide)).1.mpr (by decide)

/-- The buyer `⟨3⟩` holds 2^126 of the currency. -/
def richFunds : TokenLedger := .ofList [(⟨7⟩, ⟨2⟩, 1), (⟨9⟩, ⟨3⟩, 2 ^ 126)]

/-- The state after `initialize` with a fee of 1000 basis points. -/
def richOpened : World Store :=
  (init (Env.signedBy ⟨0⟩ 1 1 []) ⟨1⟩ 1000 ⟨8⟩ 500 300).commit
    (World.deployed Store.empty richFunds)

/-- The seller auctions the item, and the buyer bids everything. -/
def richBidden : List (Step ⟨0⟩ Entry) :=
  openedWith 1 ++
    [.call (.signedBy ⟨0⟩ 1 1 [⟨2⟩]) (.createEnglishAuction ⟨2⟩ ⟨7⟩ 1 1 10 ⟨9⟩ 10 someHash),
      .call (.signedBy ⟨0⟩ 2 2 [⟨3⟩]) (.placeBid ⟨3⟩ 1 (2 ^ 126))]

theorem richBidden_once : ∀ s ∈ richBidden, ¬ Initializes s := by
  intro s hs
  simp only [richBidden, openedWith, List.cons_append, List.nil_append, List.mem_cons,
    List.not_mem_nil, or_false] at hs
  rcases hs with rfl | rfl | rfl | rfl <;> exact id

/-- The product of the accepted bid and the fee rate is no `i128`: the settlement returns
    `Overflow`. -/
theorem bid_not_settled :
    init (Env.signedBy ⟨0⟩ 1 1 []) ⟨1⟩ 1000 ⟨8⟩ 500 300 (World.deployed Store.empty richFunds) =
      .ok () richOpened ∧
    (∀ s ∈ richBidden, ¬ Initializes s) ∧
    ∃ a v, (run step richOpened richBidden).store.auctions.lookup 1 = some a ∧
      a.auctionType = .english ∧ a.status = .active ∧ a.currentBid = 2 ^ 126 ∧ a.endTime ≤ 400 ∧
      (splitPrice (a.settlement ⟨0⟩)).value (run step richOpened richBidden) = none ∧
      settleEnglishAuction (Env.signedBy ⟨0⟩ 4 400 []) 1 (run step richOpened richBidden) =
        .fail (.err .overflow) v :=
  ⟨rfl, richBidden_once, _, _, rfl, rfl, rfl, rfl, by decide, rfl, rfl⟩

end Trellis.Market
