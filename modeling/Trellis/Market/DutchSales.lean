import Trellis.Lib.Origin
import Trellis.Market.DutchPrice
import Trellis.Market.Purchases
import Trellis.Market.Royalties

/-!
# Sales of Dutch auctions

Everybody can ask for the current price of a Dutch auction, and buy at the price of a later ledger.
`create_dutch_auction` asks for a positive floor price. `bulk_create_auctions` asks only for one
below the start price; after its end an auction with a negative one is sold at that price, and no
payment is made.

Results:
* `Auction.Descends.falls`: the price falls from the start price to the floor price, whatever its
  sign is.
* `payments_eq_nil_iff`: a sale takes nothing exactly at a negative price.
* `auctions_stem`: what a step can do to the terms of Dutch auctions, and which ones it can put in.
* `quotes_hold`: a price that was quoted bounds the price of every later purchase.
* `given_away_iff`: when a purchase takes nothing, and where such auctions come from.
-/

namespace Trellis.Market

open Exec

variable {me : Address}

/-! ## Prices that descend -/

/-- The start price is positive and above the floor price. -/
structure Auction.Descends (a : Auction) : Prop where
  start_pos : 0 < a.startPrice
  lower : a.floorPrice < a.startPrice

namespace Auction.Descends

variable {a : Auction} (h : a.Descends)

include h

theorem linear_bounds {t : ℕ} (hstart : a.startTime < t) (hend : t < a.endTime) :
    a.floorPrice ≤ a.linear t ∧ a.linear t ≤ a.startPrice := by
  have hlower := h.lower
  have hdecay := decay_bounds (a.startPrice - a.floorPrice) ((t - a.startTime : ℕ) : ℤ)
    ((a.endTime - a.startTime : ℕ) : ℤ) (by omega) (by omega) (by omega) (by omega)
  unfold Auction.linear Auction.lost
  omega

theorem linear_le {t₁ t₂ : ℕ} (hle : t₁ ≤ t₂) (hstart : a.startTime < t₁) (hend : t₂ < a.endTime) :
    a.linear t₂ ≤ a.linear t₁ := by
  have hlower := h.lower
  have hdecay := decay_mono (a.startPrice - a.floorPrice) ((t₁ - a.startTime : ℕ) : ℤ)
    ((t₂ - a.startTime : ℕ) : ℤ) ((a.endTime - a.startTime : ℕ) : ℤ)
      (by omega) (by omega) (by omega)
  unfold Auction.linear Auction.lost
  omega

/-- The price of a time, if it is computed: while it falls it is never negative. -/
theorem price_cases {t : ℕ} {p : ℤ} (hp : dutchAuctionPrice t a = .ok p) :
    a.endTime ≤ t ∧ p = a.floorPrice ∨ t < a.endTime ∧ t ≤ a.startTime ∧ p = a.startPrice ∨
      (a.startTime < t ∧ t < a.endTime) ∧ p = max (a.linear t) 0 := by
  by_cases hend : a.endTime ≤ t
  · rw [dutchAuctionPrice_end hend] at hp
    exact .inl ⟨hend, (Except.ok.inj hp).symm⟩
  · rw [dutchAuctionPrice, if_neg hend] at hp
    split_ifs at hp with hstart
    · exact .inr (.inl ⟨not_le.mp hend, hstart, (Except.ok.inj hp).symm⟩)
    · have hlost : 0 ≤ a.lost t := mul_nonneg (sub_nonneg.mpr h.lower.le) (Int.natCast_nonneg _)
      simp only [except_bind_ok, orOverflow_ok, checkedSub_eq_some, checkedMul_eq_some,
        checkedDiv_eq_some] at hp
      obtain ⟨_, ⟨-, rfl⟩, _, ⟨-, rfl⟩, _, ⟨-, -, rfl⟩, _, ⟨-, rfl⟩, hp⟩ := hp
      refine .inr (.inr ⟨⟨not_le.mp hstart, not_le.mp hend⟩, ?_⟩)
      rw [← Except.ok.inj hp]
      show max (a.startPrice - (a.lost t).tdiv ((a.endTime - a.startTime : ℕ) : ℤ)) 0 = _
      rw [Int.tdiv_eq_ediv_of_nonneg hlost, Auction.linear]

theorem falls {t₁ t₂ : ℕ} {p₁ p₂ : ℤ} (hle : t₁ ≤ t₂) (h₁ : dutchAuctionPrice t₁ a = .ok p₁)
    (h₂ : dutchAuctionPrice t₂ a = .ok p₂) : a.floorPrice ≤ p₂ ∧ p₂ ≤ p₁ ∧ p₁ ≤ a.startPrice := by
  have hpos := h.start_pos
  have hlower := h.lower
  rcases h.price_cases h₁ with ⟨hend₁, rfl⟩ | ⟨hend₁, hstart₁, rfl⟩ | ⟨⟨hstart₁, hend₁⟩, rfl⟩
  · rcases h.price_cases h₂ with ⟨-, rfl⟩ | ⟨hend₂, -⟩ | ⟨⟨-, hend₂⟩, -⟩
    · omega
    · omega
    · omega
  · rcases h.price_cases h₂ with ⟨-, rfl⟩ | ⟨-, -, rfl⟩ | ⟨⟨hstart₂, hend₂⟩, rfl⟩
    · omega
    · omega
    · have hbounds := h.linear_bounds hstart₂ hend₂
      omega
  · have hbounds₁ := h.linear_bounds hstart₁ hend₁
    rcases h.price_cases h₂ with ⟨-, rfl⟩ | ⟨-, hstart₂, -⟩ | ⟨⟨hstart₂, hend₂⟩, rfl⟩
    · omega
    · omega
    · have hbounds₂ := h.linear_bounds hstart₂ hend₂
      have hfalls := h.linear_le hle hstart₁ hend₂
      omega

/-- A price is negative exactly when the floor price is and the auction has ended. -/
theorem price_neg_iff {t : ℕ} {p : ℤ} (hp : dutchAuctionPrice t a = .ok p) :
    p < 0 ↔ a.floorPrice < 0 ∧ a.endTime ≤ t := by
  have hpos := h.start_pos
  rcases h.price_cases hp with ⟨hend, rfl⟩ | ⟨hend, -, rfl⟩ | ⟨⟨-, hend⟩, rfl⟩
  · omega
  · omega
  · omega

end Auction.Descends

/-! ## What a sale takes -/

theorem Inv.royaltyAmounts_eq_nil {s : Store} (h : Inv me s) (collection : Address) {price : ℤ}
    (hprice : price ≤ 0) : s.royaltyAmounts collection price = [] := by
  unfold Store.royaltyAmounts
  cases hinfo : s.collection? collection with
  | none => rfl
  | some info =>
    have hconfig : s.royaltyConfig? collection = some info.royaltyConfig := by
      rw [Store.royaltyConfig?, hinfo, Option.map_some]
    rw [Option.map_some, Option.getD_some, computeRoyaltyAmounts]
    split_ifs with hzero
    · rfl
    · rw [List.filter_eq_nil_iff]
      intro x hx
      obtain ⟨r, hr, rfl⟩ := List.mem_map.mp hx
      have hle := royaltyAmount_nonpos hprice ((h.royalties _ _ hconfig).bounds r hr).1
      simpa using hle

theorem Inv.platformFee_eq_zero {s : Store} (h : Inv me s) {price fee : ℤ} (hprice : price ≤ 0)
    (hfee : computePlatformFee price s.getPlatformFeeBps = .ok fee) : fee = 0 := by
  simp only [computePlatformFee, except_bind_ok, orOverflow_ok, checkedMul_eq_some,
    checkedDiv_eq_some] at hfee
  obtain ⟨_, ⟨-, rfl⟩, _, ⟨-, -, rfl⟩, hfee⟩ := hfee
  have hproduct : price * s.getPlatformFeeBps ≤ 0 := mul_nonpos_of_nonpos_of_nonneg hprice h.fee.1
  have hneg : 0 ≤ (-(price * s.getPlatformFeeBps)).tdiv bpsDenom :=
    Int.tdiv_nonneg (by omega) (by decide)
  rw [Int.neg_tdiv] at hneg
  rw [← Except.ok.inj hfee]
  exact max_eq_right (by omega)

theorem payments_pos {sale : Sale} {s : Store} {feeRecipient : Address} {fee : ℤ}
    {x : TokenTransfer}
    (hx : x ∈ sale.payments feeRecipient fee (s.royaltyAmounts sale.collection sale.price)) :
    0 < x.amount := by
  unfold Sale.payments at hx
  rw [List.mem_append, List.mem_append, Transfer.mem_ifPos, Transfer.mem_ifPos] at hx
  rcases hx with (⟨rfl, hpos⟩ | hx) | ⟨rfl, hpos⟩
  · exact hpos
  · obtain ⟨y, hy, rfl⟩ := List.mem_map.mp hx
    exact royaltyAmounts_pos hy
  · exact hpos

theorem price_le_sum_payments (sale : Sale) (feeRecipient : Address) (fee : ℤ)
    (royaltyAmounts : List (Address × ℤ)) :
    sale.price ≤ ((sale.payments feeRecipient fee royaltyAmounts).map Transfer.amount).sum := by
  rw [Sale.sum_payments, sellerProceeds]
  omega

/-- A sale at a price other than zero takes nothing exactly when the price is negative. -/
theorem payments_eq_nil_iff {s : Store} (h : Inv me s) {sale : Sale} (hne : sale.price ≠ 0)
    {fee : ℤ} (hfee : computePlatformFee sale.price s.getPlatformFeeBps = .ok fee)
    (feeRecipient : Address) :
    sale.payments feeRecipient fee (s.royaltyAmounts sale.collection sale.price) = [] ↔
      sale.price < 0 := by
  constructor
  · intro hnil
    have hle :=
      price_le_sum_payments sale feeRecipient fee (s.royaltyAmounts sale.collection sale.price)
    rw [hnil, List.map_nil, List.sum_nil] at hle
    omega
  · intro hneg
    have hroyalties := h.royaltyAmounts_eq_nil sale.collection hneg.le
    have hzero := h.platformFee_eq_zero hneg.le hfee
    have hproceeds : ¬ sellerProceeds sale.price 0 [] > 0 := by
      simp only [sellerProceeds, List.map_nil, List.sum_nil]
      omega
    rw [hroyalties, hzero]
    simp [Sale.payments, Transfer.ifPos, hproceeds]

/-! ## Where Dutch auctions come from -/

/-- The type of an auction stays, and of a Dutch auction all but the status. -/
structure Auction.Restated (a a' : Auction) : Prop where
  auctionType : a'.auctionType = a.auctionType
  terms : a.auctionType = .dutch → ∃ status, a' = { a with status := status }

theorem Auction.Restated.refl (a : Auction) : a.Restated a := ⟨rfl, fun _ => ⟨a.status, rfl⟩⟩

theorem Auction.Restated.trans (a a' a'' : Auction) (h : a.Restated a') (h' : a'.Restated a'') :
    a.Restated a'' := by
  refine ⟨h'.auctionType.trans h.auctionType, fun htype => ?_⟩
  obtain ⟨status, rfl⟩ := h.terms htype
  exact h'.terms htype

/-- The step is a `bulk_create_auctions` call with a Dutch auction of that floor price. -/
def InBulk (s : Step me Entry) (floor : ℤ) : Prop :=
  ∃ env seller items, s = .call env (.bulkCreateAuctions seller items) ∧
    ∃ item ∈ items, item.auctionType = .dutch ∧ item.floorPrice = floor

/-- What a step can put in: an auction that is not Dutch, or one that descends, with a positive
    floor price unless the step is a `bulk_create_auctions` call that asks for it. -/
def PutIn (s : Step me Entry) (_ : ℕ) (a : Auction) : Prop :=
  a.auctionType = .dutch → a.Descends ∧ (a.floorPrice ≤ 0 → InBulk s a.floorPrice)

theorem PutIn.restated (s : Step me Entry) (id : ℕ) (a a' : Auction) (h : PutIn s id a)
    (hsame : a.Restated a') : PutIn s id a' := by
  intro htype
  have hdutch := hsame.auctionType.symm.trans htype
  obtain ⟨status, rfl⟩ := hsame.terms hdutch
  obtain ⟨⟨hpos, hlower⟩, hbulk⟩ := h hdutch
  exact ⟨⟨hpos, hlower⟩, hbulk⟩

/-- The auctions of a step go back to those before it and to those that it put in. -/
def AuctionsStem (s : Step me Entry) (st st' : Store) : Prop :=
  Table.Stems Auction.Restated (PutIn s) st.auctions st'.auctions

section

variable {s : Step me Entry} {w w' : World Store}

theorem AuctionsStem.same {st st' : Store} (h : st'.auctions = st.auctions) :
    AuctionsStem s st st' := by
  rw [AuctionsStem, h]
  exact Table.Stems.refl Auction.Restated.refl _

theorem AuctionsStem.status {st st' : Store} {id : ℕ} {a : Auction} {status : AuctionStatus}
    (ha : st.auctions.lookup id = some a)
    (h : st'.auctions = st.auctions.insert id { a with status := status }) :
    AuctionsStem s st st' := by
  rw [AuctionsStem, h]
  exact Table.Stems.setOld Auction.Restated.refl ha ⟨rfl, fun _ => ⟨status, rfl⟩⟩

theorem AuctionsStem.auctioned {env : Env me} {seller : Address} {item : BulkAuctionItem}
    {endTime : ℕ} (h : Inv me w.store) (hitem : Auctioned env seller item endTime w w')
    (hput : item.auctionType = .dutch → (0 < item.startPrice ∧ item.floorPrice < item.startPrice) ∧
      (item.floorPrice ≤ 0 → InBulk s item.floorPrice)) :
    AuctionsStem s w.store w'.store := by
  rw [AuctionsStem, hitem.spec.1]
  refine Table.Stems.setNew Auction.Restated.refl (fresh_of_forall h.auctionIds) fun htype => ?_
  obtain ⟨⟨hpos, hlower⟩, hbulk⟩ := hput htype
  exact ⟨⟨hpos, hlower⟩, hbulk⟩

theorem AuctionsStem.bulk {env : Env me} {seller : Address} {items : List BulkAuctionItem}
    (hs : s = .call env (.bulkCreateAuctions seller items)) (hsigned : env.signed seller = true)
    (h : Inv me w.store) (heach : Each (AuctionedOrSkipped env seller) items w w') :
    AuctionsStem s w.store w'.store := by
  refine (Table.Stems.each (P := fun w : World Store => Inv me w.store) (fun w => w.store.auctions)
    Auction.Restated.refl Auction.Restated.trans (PutIn.restated s) heach ?_ h).2
  intro item hmem w w' hw hitem
  unfold AuctionedOrSkipped at hitem
  split_ifs at hitem with haccepts
  · refine ⟨hw.auctioned hsigned hitem, AuctionsStem.auctioned hw hitem fun htype => ?_⟩
    simp only [Store.acceptsAuction, Bool.and_eq_true, decide_eq_true_eq, not_and, not_le,
      htype] at haccepts
    exact ⟨⟨haccepts.1.1.2, haccepts.1.2 trivial⟩,
      fun _ => ⟨env, seller, items, hs, item, hmem, htype, rfl⟩⟩
  · rw [hitem]
    exact ⟨hw, Table.Stems.refl Auction.Restated.refl _⟩

theorem AuctionsStem.bid {st st' : Store} {id endTime : ℕ} {a : Auction} {bid : ℤ}
    {bidder : Address} (ha : st.auctions.lookup id = some a) (htype : a.auctionType = .english)
    (h : st'.auctions = st.auctions.insert id
      { a with currentBid := bid, currentBidder := bidder, endTime := endTime }) :
    AuctionsStem s st st' := by
  rw [AuctionsStem, h]
  refine Table.Stems.setOld Auction.Restated.refl ha ⟨rfl, fun hdutch => ?_⟩
  rw [htype] at hdutch
  cases hdutch

theorem auctionsStem_done {env : Env me} {c : Entry} (h : Inv me w.store)
    (hdone : Done env w c w') :
    AuctionsStem (.call env c) w.store w'.store := by
  cases hdone with
  | init | setFeeRecipient | setPlatformFee | setBidIncrement | setAutoExtension
  | setCurrency | setOracle
    | registerCollection | setCollectionRoyalties | makeOffer | acceptOffer | cancelOffer =>
      exact .same rfl
  | listNft w₁ events hactive hsigned hprice hcurrency hhash hcollection hitem =>
    exact .same hitem.sameAuctions.table
  | buyNft l feeRecipient fee w₁ s events hactive hsigned hl hopen hsold hstats =>
    rw [hsold.store] at hstats
    exact .same (same_bumpStats hstats).2.table
  | cancelListing l s hsigned hl hopen hseller hstats => exact .same (same_bumpStats hstats).2.table
  | createEnglishAuction w₁ e events hactive hsigned hstart hcurrency hhash hcollection hduration
      hend hitem =>
    show AuctionsStem _ w.store w₁.store
    refine AuctionsStem.auctioned h hitem fun htype => ?_
    cases htype
  | createDutchAuction w₁ e events hactive hsigned hstart hfloor hcurrency hhash hcollection hprices
      hduration hend hitem =>
    show AuctionsStem _ w.store w₁.store
    refine AuctionsStem.auctioned h hitem fun _ => ⟨⟨hstart, hprices⟩, fun hle => ?_⟩
    exact absurd hfloor (not_lt.mpr hle)
  | placeBid a least newEnd events hactive hsigned hbid ha hopen htype =>
    exact .bid ha htype rfl
  | settleUnsold a s hactive ha hopen htime hbid hstats =>
    exact .status ha (same_bumpStats hstats).2.table
  | settleSold a feeRecipient fee w₁ s events hactive ha hopen htime hbid hsold hstats =>
    rw [hsold.store] at hstats
    exact .status ha (same_bumpStats hstats).2.table
  | buyDutchAuction a price feeRecipient fee w₁ s events hactive hsigned ha hopen htype
      hprice hne hsold hstats =>
    rw [hsold.store] at hstats
    exact .status ha (same_bumpStats hstats).2.table
  | cancelDutchAuction a s hsigned ha hopen htype hseller hstats =>
    exact .status ha (same_bumpStats hstats).2.table
  | bulkList w' hactive hsigned hlength heach =>
    refine .same
      (keeps_listed (P := fun s => s.auctions = w.store.auctions) (fun item w₁ w₂ hw hitem => ?_)
      heach rfl)
    exact hitem.sameAuctions.table.trans hw
  | bulkCreateAuctions w' hactive hsigned hlength heach => exact .bulk rfl hsigned h heach

/-- What a step can do to the auctions. -/
theorem auctions_stem (h : Inv me w.store) (s : Step me Entry) :
    AuctionsStem s w.store (step s w).store := by
  rcases step_cases s w with ⟨env, x, hx⟩ | hx | ⟨env, c, w', rfl, hx, hdone⟩
  · rw [hx, store_outsideTransfer]
    exact .same rfl
  · rw [hx]
    exact .same rfl
  · rw [hx]
    exact auctionsStem_done h hdone

/-- Over a run all Dutch auctions keep their terms, and those at its end were there or are put in by
    a step. -/
theorem auctions_stem_run (h : Inv me w.store) {steps : List (Step me Entry)}
    (honce : ∀ s ∈ steps, ¬ Initializes s) :
    Table.Stems Auction.Restated (fun id a => ∃ s ∈ steps, PutIn s id a) w.store.auctions
      (run step w steps).store.auctions :=
  Table.Stems.run (P := fun w : World Store => Inv me w.store) (Q := fun _ s => ¬ Initializes s)
    (fun w : World Store => w.store.auctions) Auction.Restated.refl Auction.Restated.trans
      PutIn.restated
    (fun _ _ h hs => h.step hs) (fun _ s h _ => auctions_stem h s) h fun x hx =>
      honce x.2 (mem_of_mem_trace hx)

end

theorem dutchAuctionCurrentPrice_ok {env : Env me} {id : ℕ} {p : ℤ} {w w' : World Store} :
    dutchAuctionCurrentPrice env id w = .ok p w' ↔
      ∃ a, w.store.auctions.lookup id = some a ∧ dutchAuctionPrice env.timestamp a = .ok p ∧
        w' = w := by
  simp only [dutchAuctionCurrentPrice, bind_ok, read_ok, okOr_ok, ofExcept_ok]
  constructor
  · rintro ⟨_, _, ⟨rfl, rfl⟩, a, _, ⟨ha, rfl⟩, hp, hw⟩
    exact ⟨a, ha, hp, hw⟩
  · rintro ⟨a, ha, hp, hw⟩
    exact ⟨_, w, ⟨rfl, rfl⟩, a, w, ⟨ha, rfl⟩, hp, hw⟩

/-! ## Runs -/

section

variable {env₀ : Env me} {admin recipient : Address} {fee increment : ℤ} {extension : ℕ}
  {tokens : TokenLedger} {w₀ : World Store}
  (hinit : init env₀ admin fee recipient increment extension (World.deployed Store.empty tokens) =
    .ok () w₀)
  (steps : List (Step me Entry)) (honce : ∀ s ∈ steps, ¬ Initializes s)

include hinit honce

/-- From the first `initialize` on, without another one, all Dutch auctions descend, and those
    without a positive floor price were put in by `bulk_create_auctions`. -/
theorem dutch_auctions {id : ℕ} {a : Auction}
    (ha : (run step w₀ steps).store.auctions.lookup id = some a) (htype : a.auctionType = .dutch) :
    a.Descends ∧ (a.floorPrice ≤ 0 → ∃ s ∈ steps, InBulk s a.floorPrice) := by
  have hnone : w₀.store.auctions.lookup id = none := by
    cases init_done hinit with
    | init => rfl
  rcases (auctions_stem_run (Inv.start hinit) honce).origin id a ha with
    ⟨a₀, ha₀, -⟩ | ⟨s, hs, hput⟩
  · rw [hnone] at ha₀
    cases ha₀
  · obtain ⟨hdescends, hbulk⟩ := hput htype
    exact ⟨hdescends, fun hle => ⟨s, hs, hbulk hle⟩⟩

/-- From the first `initialize` on, without another one: when the current price of an auction was
    `p` once, then whatever happened since, a purchase at the same time or later is made at a price
    of the same auction that is at most `p`, and not below the floor price. The price is split as
    long as it holds the fee and the royalties. -/
theorem quotes_hold {w w₁ : World Store} (hw : run step w₀ steps = w) {env : Env me} {id : ℕ}
    {p : ℤ} (hquote : dutchAuctionCurrentPrice env id w = .ok p w₁) (later : List (Step me Entry))
    (hlater : ∀ s ∈ later, ¬ Initializes s) {env₁ : Env me} (htime : env.timestamp ≤ env₁.timestamp)
    {buyer : Address} {w' : World Store}
    (h : buyDutchAuction env₁ buyer id (run step w later) = .ok () w') :
    ∃ a price, w.store.auctions.lookup id = some a ∧
      dutchAuctionPrice env₁.timestamp a = .ok price ∧
      a.floorPrice ≤ price ∧ price ≤ p ∧ p ≤ a.startPrice ∧
      ((a.sale buyer price).Fits (run step w later).store →
        (a.sale buyer price).Conserves me (run step w later) w') := by
  have hinv : Inv me w.store := hw ▸ (Inv.start hinit).run honce
  obtain ⟨a, ha, hp, -⟩ := dutchAuctionCurrentPrice_ok.mp hquote
  obtain ⟨a', ha', hsame⟩ := (auctions_stem_run hinv hlater).kept id a ha
  have hlaterInv : Inv me (run step w later).store := hinv.run hlater
  cases buyDutchAuction_done h with
  | buyDutchAuction a₁ price feeRecipient fee w₂ s events hactive hsigned ha₁ hopen htype
      hprice hne hsold hstats =>
    obtain rfl := Option.some.inj (ha'.symm.trans ha₁)
    have hdutch : a.auctionType = .dutch := hsame.auctionType.symm.trans htype
    obtain ⟨status, rfl⟩ := hsame.terms hdutch
    have hdescends := (dutch_auctions hinit steps honce (hw ▸ ha) hdutch).1
    obtain ⟨hfloor, hle, hstart⟩ := hdescends.falls htime hp hprice
    exact ⟨a, price, ha, hprice, hfloor, hle, hstart,
      (hsold.conserves_iff (hlaterInv.closeAuction ha' _)).mpr⟩

/-- From the first `initialize` on, without another one, a purchase of a Dutch auction hands the
    item to the buyer for payments of the buyer that add up to the price or more. There are none
    exactly when the floor price is negative and the auction has ended, and `bulk_create_auctions`
    put such an auction in. -/
theorem given_away_iff {w : World Store} (hw : run step w₀ steps = w) {env : Env me}
    {buyer : Address} {id : ℕ} {w' : World Store} (h : buyDutchAuction env buyer id w = .ok () w') :
    ∃ a price payments, w.store.auctions.lookup id = some a ∧
      dutchAuctionPrice env.timestamp a = .ok price ∧
      w'.tokens.log = w.tokens.log ++ (payments ++ [⟨a.collection, me, buyer, a.amount⟩]) ∧
      (∀ x ∈ payments, x.token = a.currency ∧ x.src = buyer ∧ 0 < x.amount) ∧
      price ≤ (payments.map Transfer.amount).sum ∧
      (payments = [] ↔ a.floorPrice < 0 ∧ a.endTime ≤ env.timestamp) ∧
      (a.floorPrice < 0 → ∃ s ∈ steps, InBulk s a.floorPrice) := by
  have hinv : Inv me w.store := hw ▸ (Inv.start hinit).run honce
  cases buyDutchAuction_done h with
  | buyDutchAuction a price feeRecipient platformFee w₂ s events hactive hsigned ha hopen htype
      hprice hne hsold hstats =>
    obtain ⟨hdescends, hbulk⟩ := dutch_auctions hinit steps honce (hw ▸ ha) htype
    have hclosed := hinv.closeAuction ha .settled
    have hnonzero : (a.sale buyer price).price ≠ 0 := hne
    have hempty := payments_eq_nil_iff hclosed hnonzero hsold.fee feeRecipient
    refine ⟨a, price, _, ha, hprice, hsold.log, fun x hx => ?_, price_le_sum_payments _ _ _ _, ?_,
      fun hneg => hbulk hneg.le⟩
    · obtain ⟨htoken, hsrc⟩ := Sale.of_mem_payments hx
      exact ⟨htoken, hsrc, payments_pos hx⟩
    · rw [← hdescends.price_neg_iff hprice]
      exact hempty

end

/-! ## Two auctions -/

/-- The seller offers the item from 20 down to 10, between the times 1 and 101. -/
def offeredDown : List (Step ⟨0⟩ Entry) :=
  openedWith 1 ++
    [.call (.signedBy ⟨0⟩ 1 1 [⟨2⟩]) (.createDutchAuction ⟨2⟩ ⟨7⟩ 1 1 20 10 ⟨9⟩ 100 someHash)]

/-- The same by `bulk_create_auctions`, down to -1. -/
def offeredDownInBulk : List (Step ⟨0⟩ Entry) :=
  openedWith 1 ++
    [.call (.signedBy ⟨0⟩ 1 1 [⟨2⟩])
      (.bulkCreateAuctions ⟨2⟩ [⟨⟨7⟩, 1, 1, .dutch, 20, -1, ⟨9⟩, 100, someHash⟩])]

theorem offeredDown_once : ∀ s ∈ offeredDown, ¬ Initializes s := by
  intro s hs
  simp only [offeredDown, openedWith, List.cons_append, List.nil_append, List.mem_cons,
    List.not_mem_nil, or_false] at hs
  rcases hs with rfl | rfl | rfl <;> exact id

theorem offeredDownInBulk_once : ∀ s ∈ offeredDownInBulk, ¬ Initializes s := by
  intro s hs
  simp only [offeredDownInBulk, openedWith, List.cons_append, List.nil_append, List.mem_cons,
    List.not_mem_nil, or_false] at hs
  rcases hs with rfl | rfl | rfl <;> exact id

/-- The buyer buys it at the time 51. -/
def boughtDown : World Store :=
  (buyDutchAuction (.signedBy ⟨0⟩ 2 51 [⟨3⟩]) ⟨3⟩ 1).commit (run step opened offeredDown)

/-- After a quote of 20 at the start the item is sold for 15. -/
theorem quotes_hold_down : ∃ (a : Auction) (price : ℤ), price ≤ 20 ∧
    (a.sale ⟨3⟩ price).Conserves ⟨0⟩ (run step opened offeredDown) boughtDown ∧ price = 15 := by
  have hquote : dutchAuctionCurrentPrice (.signedBy ⟨0⟩ 1 1 []) 1 (run step opened offeredDown) =
    .ok 20 (run step opened offeredDown) := rfl
  have hbought : buyDutchAuction (.signedBy ⟨0⟩ 2 51 [⟨3⟩]) ⟨3⟩ 1 (run step opened offeredDown) =
    .ok () boughtDown := rfl
  obtain ⟨a, price, ha, hprice, -, hle, -, hsplit⟩ :=
    quotes_hold init_opened offeredDown offeredDown_once rfl hquote [] (by simp) (by decide) hbought
  obtain rfl := Option.some.inj (ha.symm.trans rfl)
  obtain rfl : price = 15 := Except.ok.inj (hprice.symm.trans rfl)
  exact ⟨_, 15, hle, hsplit (by decide), rfl⟩

/-- After the end of the bulk auction the buyer gets the item, and nothing else is transferred. -/
theorem given_away_iff_bulk :
    ((buyDutchAuction (.signedBy ⟨0⟩ 2 101 [⟨3⟩]) ⟨3⟩ 1).commit
      (run step opened offeredDownInBulk)).tokens.log =
        (run step opened offeredDownInBulk).tokens.log ++ [⟨⟨7⟩, ⟨0⟩, ⟨3⟩, 1⟩] := by
  obtain ⟨a, price, payments, ha, -, hlog, -, -, hiff, -⟩ :=
    given_away_iff init_opened offeredDownInBulk offeredDownInBulk_once rfl
      (show buyDutchAuction (.signedBy ⟨0⟩ 2 101 [⟨3⟩]) ⟨3⟩ 1 (run step opened offeredDownInBulk) =
        .ok ()
          ((buyDutchAuction (.signedBy ⟨0⟩ 2 101 [⟨3⟩]) ⟨3⟩ 1).commit
            (run step opened offeredDownInBulk))
        from rfl)
  obtain rfl := Option.some.inj (ha.symm.trans rfl)
  rw [hiff.mpr ⟨by decide, by decide⟩] at hlog
  exact hlog

end Trellis.Market
