import Trellis.Lib.Custody
import Trellis.Market.Sales

/-!
# Solvency of the marketplace

Items, bids and offers of all users are held in the marketplace's own balances. It is solvent when,
for every token, its balance covers the bids of open English auctions and the pending offers in that
currency together with the items of active listings and open auctions of that collection.

Results:
* `owed_addListing`, `owed_closeAuction` and their siblings: how what is owed changes.
* `backed_done`: no call but the settlement of an auction with a bid, or a further `initialize`,
  lowers a surplus.
* `surplus_settle`: a settlement with a bid takes from the surplus of its currency what it pays to
  others beyond the bid.
* `covered_of_rates`: a settlement pays others at most the bid when the rates are at most 10000
  basis points in all.
* `solvent_iff_settlements_covered`: the marketplace stays solvent over a run exactly when every
  settlement with a bid that goes through pays others at most the bid and the surplus. The code does
  not ask for this: the fee and the royalties can exceed the bid.
-/

namespace Trellis.Market

variable {me : Address}

/-! ## What is owed -/

/-- The auction is neither settled nor cancelled. -/
def Auction.isOpen (a : Auction) : Bool :=
  decide (a.status ≠ .settled) && decide (a.status ≠ .cancelled)

/-- An open English auction stands for its bid in its currency. -/
def bidHolding : Holding Auction Address where
  live a := decide (a.auctionType = .english) && a.isOpen
  kind := Auction.currency
  amount := Auction.currentBid

/-- An open auction stands for its item. -/
def auctionHolding : Holding Auction Address where
  live := Auction.isOpen
  kind := Auction.collection
  amount a := a.amount

/-- An active listing stands for its item. -/
def listingHolding : Holding Listing Address where
  live l := decide (l.status = .active)
  kind := Listing.collection
  amount l := l.amount

/-- A pending offer stands for its amount in its currency. -/
def offerHolding : Holding Offer Address where
  live o := decide (o.status = .pending)
  kind := Offer.currency
  amount := Offer.offerAmount

/-- What the marketplace owes of a token. -/
def Store.owed (s : Store) (t : Address) : ℤ :=
  bidHolding.owed s.auctions t + offerHolding.owed s.offers t + listingHolding.owed s.listings t +
    auctionHolding.owed s.auctions t

/-- The balances of the marketplace against what it owes. -/
def marketCustody (me : Address) : Custody (World Store) Address where
  held w t := w.tokens.balance t me
  owed w t := w.store.owed t

/-! ## How what is owed changes -/

theorem owed_bumpStats {s s' : Store} {collection : Address} {dl da : ℤ}
    (h : s.bumpStats collection dl da = some s') (t : Address) : s'.owed t = s.owed t := by
  obtain ⟨⟨collections, rfl⟩, -⟩ := Store.bumpStats_some h
  rfl

theorem owed_addListing {s : Store} (h : Inv me s) {l : Listing} (hid : l.id = s.nextListing)
    (hactive : l.status = .active) (t : Address) :
    (s.addListing l).owed t = s.owed t + amountIn l.collection t l.amount := by
  have hnew : s.listings.lookup l.id = none := hid ▸ fresh_of_forall h.listingIds
  have hworth : listingHolding.worth l t = amountIn l.collection t l.amount :=
    Holding.worth_of_live (by simp [listingHolding, hactive]) t
  simp only [Store.owed, Store.addListing]
  rw [Holding.owed_open hnew, hworth]
  omega

theorem owed_closeListing {s : Store} {id : ℕ} {l : Listing}
    (hl : s.listings.lookup id = some l) (hactive : l.status = .active) {status : ListingStatus}
    (hclosed : status ≠ .active) (t : Address) :
    Store.owed { s with listings := s.listings.insert id { l with status := status } } t =
      s.owed t - amountIn l.collection t l.amount := by
  have hworth : listingHolding.worth l t = amountIn l.collection t l.amount :=
    Holding.worth_of_live (by simp [listingHolding, hactive]) t
  have hworth' : listingHolding.worth { l with status := status } t = 0 :=
    Holding.worth_dead (by simp [listingHolding, hclosed]) t
  simp only [Store.owed]
  rw [Holding.owed_change hl, hworth, hworth']
  omega

theorem isOpen_of_active {a : Auction} (h : a.status = .active) : a.isOpen = true := by
  simp [Auction.isOpen, h]

theorem isOpen_of_ended {a : Auction} (h : a.status = .active ∨ a.status = .ended) :
    a.isOpen = true := by
  rcases h with h | h <;> simp [Auction.isOpen, h]

/-- Only an English auction has a bid. -/
theorem AuctionOk.bid_eq_zero {a : Auction} (h : AuctionOk me a)
    (htype : a.auctionType ≠ .english) : a.currentBid = 0 := by
  by_contra hbid
  exact htype (h.english hbid)

/-- An open auction stands for its item and its bid; only an English one has a bid. -/
theorem AuctionOk.worth {a : Auction} (h : AuctionOk me a) (hopen : a.isOpen = true) (t : Address) :
    bidHolding.worth a t = amountIn a.currency t a.currentBid ∧
      auctionHolding.worth a t = amountIn a.collection t a.amount := by
  refine ⟨?_, Holding.worth_of_live hopen t⟩
  by_cases hbid : a.currentBid = 0
  · have hzero : bidHolding.amount a = 0 := hbid
    unfold Holding.worth
    rw [hzero, hbid, amountIn_zero, ite_self]
  · exact Holding.worth_of_live (by simp [bidHolding, hopen, h.english hbid]) t

theorem owed_addAuction {s : Store} (h : Inv me s) {a : Auction} (hid : a.id = s.nextAuction)
    (hok : AuctionOk me a) (hopen : a.isOpen = true) (hbid : a.currentBid = 0) (t : Address) :
    (s.addAuction a).owed t = s.owed t + amountIn a.collection t a.amount := by
  have hnew : s.auctions.lookup a.id = none := hid ▸ fresh_of_forall h.auctionIds
  obtain ⟨hworthBid, hworth⟩ := hok.worth hopen t
  rw [hbid, amountIn_zero] at hworthBid
  simp only [Store.owed, Store.addAuction]
  rw [Holding.owed_open hnew, Holding.owed_open hnew, hworth, hworthBid]
  omega

/-- A rewritten open auction with the same item and currency owes the new bid instead of the old. -/
theorem owed_bid {s : Store} (h : Inv me s) {id : ℕ} {a a' : Auction}
    (ha : s.auctions.lookup id = some a) (hok : AuctionOk me a') (hopen : a.isOpen = true)
    (hopen' : a'.isOpen = true) (hcurrency : a'.currency = a.currency)
    (hcollection : a'.collection = a.collection) (hamount : a'.amount = a.amount) (t : Address) :
    Store.owed { s with auctions := s.auctions.insert id a' } t =
      s.owed t - amountIn a.currency t a.currentBid + amountIn a.currency t a'.currentBid := by
  obtain ⟨hworthBid, hworth⟩ := (h.auctions id a ha).worth hopen t
  obtain ⟨hworthBid', hworth'⟩ := hok.worth hopen' t
  rw [hcurrency] at hworthBid'
  rw [hcollection, hamount] at hworth'
  simp only [Store.owed]
  rw [Holding.owed_change ha, Holding.owed_change ha, hworth, hworth', hworthBid, hworthBid']
  omega

/-- Closing an auction releases its item and its bid. -/
theorem owed_closeAuction {s : Store} (h : Inv me s) {id : ℕ} {a : Auction}
    (ha : s.auctions.lookup id = some a) (hopen : a.isOpen = true) {status : AuctionStatus}
    (hclosed : status = .settled ∨ status = .cancelled) (t : Address) :
    Store.owed { s with auctions := s.auctions.insert id { a with status := status } } t =
      s.owed t - amountIn a.currency t a.currentBid - amountIn a.collection t a.amount := by
  obtain ⟨hworthBid, hworth⟩ := (h.auctions id a ha).worth hopen t
  have hdead : ({ a with status := status } : Auction).isOpen = false := by
    rcases hclosed with h | h <;> simp [Auction.isOpen, h]
  have hworth' : auctionHolding.worth { a with status := status } t = 0 :=
    Holding.worth_dead hdead t
  have hworthBid' : bidHolding.worth { a with status := status } t = 0 :=
    Holding.worth_dead (by simp [bidHolding, hdead]) t
  simp only [Store.owed]
  rw [Holding.owed_change ha, Holding.owed_change ha, hworth, hworth', hworthBid, hworthBid']
  omega

theorem owed_addOffer {s : Store} (h : Inv me s) {o : Offer} (hpending : o.status = .pending)
    (t : Address) :
    Store.owed { s with
      offerSeq := some s.nextOffer
      offers := s.offers.insert s.nextOffer o } t =
        s.owed t + amountIn o.currency t o.offerAmount := by
  have hworth : offerHolding.worth o t = amountIn o.currency t o.offerAmount :=
    Holding.worth_of_live (by simp [offerHolding, hpending]) t
  simp only [Store.owed]
  rw [Holding.owed_open (fresh_of_forall h.offerIds), hworth]
  omega

theorem owed_closeOffer {s : Store} {id : ℕ} {o : Offer} (ho : s.offers.lookup id = some o)
    (hpending : o.status = .pending) {status : OfferStatus} (hclosed : status ≠ .pending)
    (t : Address) :
    Store.owed { s with offers := s.offers.insert id { o with status := status } } t =
      s.owed t - amountIn o.currency t o.offerAmount := by
  have hworth : offerHolding.worth o t = amountIn o.currency t o.offerAmount :=
    Holding.worth_of_live (by simp [offerHolding, hpending]) t
  have hworth' : offerHolding.worth { o with status := status } t = 0 :=
    Holding.worth_dead (by simp [offerHolding, hclosed]) t
  simp only [Store.owed]
  rw [Holding.owed_change ho, hworth, hworth']
  omega

/-! ## Calls that lower no surplus -/

/-- A change is backed when no balance falls behind what is owed. -/
theorem backed_of {w w' : World Store}
    (h : ∀ t, w.tokens.balance t me + w'.store.owed t ≤ w'.tokens.balance t me + w.store.owed t) :
    (marketCustody me).Backed w w' := by
  intro t
  have ht := h t
  simp only [Custody.surplus, marketCustody]
  omega

/-- A change of the storage that keeps what is owed is backed when the balances stay. -/
theorem backed_config {w w' : World Store} (htokens : w'.tokens = w.tokens)
    (howed : ∀ t, w'.store.owed t = w.store.owed t) : (marketCustody me).Backed w w' := by
  refine backed_of fun t => ?_
  rw [htokens, howed]

theorem backed_listed {env : Env me} {seller : Address} (hsigned : env.signed seller = true)
    {item : BulkListingItem} {w w' : World Store} (h : Inv me w.store)
    (hl : Listed env seller item w w') : (marketCustody me).Backed w w' := by
  refine backed_of fun t => ?_
  rw [owed_bumpStats hl.store, owed_addListing h rfl rfl, hl.tokens, Ledger.balance_move,
    Transfer.net_deposit (Env.ne_me_of_signed hsigned)]
  show _ + (_ + amountIn item.collection t item.amount) ≤ _
  omega

theorem newAuction_ok {env : Env me} {seller : Address} (hsigned : env.signed seller = true)
    (s : Store) (now : ℕ) (item : BulkAuctionItem) (endTime : ℕ) :
    AuctionOk me (s.newAuction me now seller item endTime) :=
  ⟨Env.ne_me_of_signed hsigned, le_rfl, fun hne => absurd rfl hne, fun hne => absurd rfl hne⟩

theorem backed_auctioned {env : Env me} {seller : Address} (hsigned : env.signed seller = true)
    {item : BulkAuctionItem} {endTime : ℕ} {w w' : World Store} (h : Inv me w.store)
    (ha : Auctioned env seller item endTime w w') : (marketCustody me).Backed w w' := by
  refine backed_of fun t => ?_
  rw [owed_bumpStats ha.store, owed_addAuction h rfl (newAuction_ok hsigned _ _ _ _)
    (isOpen_of_active rfl) rfl, ha.tokens, Ledger.balance_move,
    Transfer.net_deposit (Env.ne_me_of_signed hsigned)]
  show _ + (_ + amountIn item.collection t item.amount) ≤ _
  omega

theorem Sale.payments_nonneg {sale : Sale} {feeRecipient : Address} {fee : ℤ}
    {royaltyAmounts : List (Address × ℤ)} (hroyalties : ∀ x ∈ royaltyAmounts, 0 < x.2)
    {x : TokenTransfer} (hx : x ∈ sale.payments feeRecipient fee royaltyAmounts) :
    0 ≤ x.amount := by
  unfold Sale.payments at hx
  rw [List.mem_append, List.mem_append, Transfer.mem_ifPos, Transfer.mem_ifPos] at hx
  rcases hx with (⟨rfl, hpos⟩ | hx) | ⟨rfl, hpos⟩
  · exact hpos.le
  · obtain ⟨y, hy, rfl⟩ := List.mem_map.mp hx
    exact (hroyalties y hy).le
  · exact hpos.le

theorem Sold.balance_le {w w' : World Store} {sale : Sale} {feeRecipient : Address} {fee : ℤ}
    (hsold : Sold me sale feeRecipient fee w w') (hpayer : sale.payer ≠ me) (t : Address) :
    w.tokens.balance t me - amountIn sale.collection t sale.amount ≤
      w'.tokens.balance t me := by
  have hpayments : 0 ≤ netAll t me (sale.payments feeRecipient fee
      (w.store.royaltyAmounts sale.collection sale.price)) := by
    refine netAll_nonneg (fun x hx => ?_) fun x hx => ?_
    · rw [(Sale.of_mem_payments hx).2]
      exact hpayer
    · exact Sale.payments_nonneg (fun y hy => royaltyAmounts_pos hy) hx
  have hitem : - amountIn sale.collection t sale.amount ≤
      Transfer.net t me (sale.handover me) :=
    Transfer.neg_amountIn_le_net (Int.natCast_nonneg _)
  rw [hsold.tokens, Ledger.balance_moveAll, netAll_append, netAll_cons, netAll_nil]
  omega

theorem balance_handBack (me : Address) (l : TokenLedger) (collection dst : Address) (amount : ℕ)
    (t : Address) :
    l.balance t me - amountIn collection t amount ≤
      (l.move ⟨collection, me, dst, amount⟩).balance t me := by
  have hitem : - amountIn collection t amount ≤
      Transfer.net t me ⟨collection, me, dst, (amount : ℤ)⟩ :=
    Transfer.neg_amountIn_le_net (Int.natCast_nonneg _)
  rw [Ledger.balance_move]
  omega

theorem backed_placeBid {env : Env me} {bidder : Address} {id : ℕ} {bid : ℤ} {w w' : World Store}
    (h : Inv me w.store) (hdone : Done env w (.placeBid bidder id bid) w') :
    (marketCustody me).Backed w w' := by
  cases hdone with
  | placeBid a least newEnd events hactive hsigned hbid ha hopen htype htime hleast hle
      hother hend =>
    have hok := h.auctions _ a ha
    have hbidder : bidder ≠ me := Env.ne_me_of_signed hsigned
    refine backed_of fun t => ?_
    have hok' : AuctionOk me { a with
        currentBid := bid
        currentBidder := bidder
        endTime := newEnd } :=
      ⟨hok.seller_ne, hbid.le, fun _ => htype, fun _ => hbidder⟩
    have howed := owed_bid h ha hok' (isOpen_of_active hopen) (isOpen_of_active hopen) rfl rfl rfl t
    have hrefund : - amountIn a.currency t a.currentBid ≤
        Transfer.net t me ⟨a.currency, me, a.currentBidder, a.currentBid⟩ :=
      Transfer.neg_amountIn_le_net hok.bid_nonneg
    dsimp only at howed ⊢
    rw [howed, Ledger.balance_moveAll, netAll_append, netAll_ifPos hok.bid_nonneg, netAll_cons,
      netAll_nil, Transfer.net_deposit hbidder]
    omega

theorem backed_acceptOffer {env : Env me} {caller : Address} {id : ℕ} {w w' : World Store}
    (h : Inv me w.store) (hdone : Done env w (.acceptOffer caller id) w') :
    (marketCustody me).Backed w w' := by
  cases hdone with
  | acceptOffer o fee feeRecipient events hactive hsigned ho hopen hrecipient htime hfee
      hfeeRecipient =>
    have hpos := h.offers _ o ho
    have hrate : w.store.getPlatformFeeBps ≤ 10000 := h.fee.2.trans (by decide)
    obtain ⟨-, hfeeEq⟩ := (computePlatformFee_ok hpos.le h.fee.1).mp hfee
    obtain ⟨hfee₀, hfee₁⟩ := bps_bounds hpos.le h.fee.1 hrate
    unfold bpsDenom at hfeeEq
    have hrest : 0 ≤ o.offerAmount - fee := by omega
    refine backed_of fun t => ?_
    have hfeeNet : - amountIn o.currency t fee ≤
        Transfer.net t me ⟨o.currency, me, feeRecipient, fee⟩ :=
      Transfer.neg_amountIn_le_net (by omega)
    have hrestNet : - amountIn o.currency t (o.offerAmount - fee) ≤
        Transfer.net t me ⟨o.currency, me, o.recipient, o.offerAmount - fee⟩ :=
      Transfer.neg_amountIn_le_net hrest
    have hitem : 0 ≤ Transfer.net t me ⟨o.collection, caller, o.offerer, (o.amount : ℤ)⟩ :=
      Transfer.net_nonneg (Env.ne_me_of_signed hsigned) (Int.natCast_nonneg _)
    rw [amountIn_sub] at hrestNet
    have hnonneg : 0 ≤ fee := by omega
    dsimp only
    rw [owed_closeOffer ho hopen (by simp), Ledger.balance_moveAll, netAll_append, netAll_append,
      netAll_ifPos hnonneg, netAll_ifPos hrest, netAll_cons, netAll_nil]
    omega

theorem backed_cancelOffer {env : Env me} {caller : Address} {id : ℕ} {w w' : World Store}
    (h : Inv me w.store) (hdone : Done env w (.cancelOffer caller id) w') :
    (marketCustody me).Backed w w' := by
  cases hdone with
  | cancelOffer o hsigned ho hopen hofferer =>
    have hpaid : ∀ t, - amountIn o.currency t o.offerAmount ≤
        Transfer.net t me ⟨o.currency, me, o.offerer, o.offerAmount⟩ :=
      fun t => Transfer.neg_amountIn_le_net (h.offers _ o ho).le
    refine backed_of fun t => ?_
    have ht := hpaid t
    dsimp only
    rw [owed_closeOffer ho hopen (by simp), Ledger.balance_move]
    omega

/-- A settlement of an auction with a bid. -/
def SettlesBid (w : World Store) : Entry → Prop
  | .settleEnglishAuction id => ∃ a, w.store.auctions.lookup id = some a ∧ a.currentBid ≠ 0
  | _ => False

/-- A successful call that is neither `initialize` nor the settlement of a bid lowers no surplus. -/
theorem backed_done {env : Env me} {c : Entry} {w w' : World Store} (h : Inv me w.store)
    (hc : ¬ Initializes (.call env c)) (hsettle : ¬ SettlesBid w c) (hdone : Done env w c w') :
    (marketCustody me).Backed w w' := by
  have hdone' := hdone
  cases hdone with
  | init => exact absurd trivial hc
  | setPlatformFee | setFeeRecipient | setBidIncrement | setAutoExtension | setCurrency | setOracle
  | registerCollection | setCollectionRoyalties => exact backed_config rfl fun _ => rfl
  | listNft w₁ events hactive hsigned hprice hcurrency hhash hcollection hlisted =>
    have hbacked : (marketCustody me).Backed w w₁ := backed_listed hsigned h hlisted
    exact hbacked
  | buyNft l feeRecipient fee w₁ s events hactive hsigned hl hopen hsold hstats =>
    rw [hsold.store] at hstats
    refine backed_of fun t => ?_
    have hbalance := hsold.balance_le (Env.ne_me_of_signed hsigned) t
    dsimp only [Listing.sale] at hbalance ⊢
    rw [owed_bumpStats hstats, owed_closeListing hl hopen (by simp)]
    omega
  | cancelListing l s hsigned hl hopen hseller hstats =>
    refine backed_of fun t => ?_
    have hbalance := balance_handBack me w.tokens l.collection l.seller l.amount t
    dsimp only
    rw [owed_bumpStats hstats, owed_closeListing hl hopen (by simp)]
    omega
  | createEnglishAuction w₁ e events hactive hsigned hstart hcurrency hhash hcollection hduration
      hend hauctioned =>
    have hbacked : (marketCustody me).Backed w w₁ := backed_auctioned hsigned h hauctioned
    exact hbacked
  | placeBid => exact backed_placeBid h hdone'
  | settleUnsold a s hactive ha hopen htime hbid hstats =>
    refine backed_of fun t => ?_
    have hbalance := balance_handBack me w.tokens a.collection a.seller a.amount t
    dsimp only
    rw [owed_bumpStats hstats, owed_closeAuction h ha (isOpen_of_ended hopen) (.inl rfl), hbid,
      amountIn_zero]
    omega
  | settleSold a feeRecipient fee w₁ s events hactive ha hopen htime hbid hsold hstats =>
    exact absurd ⟨a, ha, hbid⟩ hsettle
  | createDutchAuction w₁ e events hactive hsigned hstart hfloor hcurrency hhash hcollection hprices
      hduration hend hauctioned =>
    have hbacked : (marketCustody me).Backed w w₁ := backed_auctioned hsigned h hauctioned
    exact hbacked
  | buyDutchAuction a price feeRecipient fee w₁ s events hactive hsigned ha hopen htype hprice hne
      hsold hstats =>
    rw [hsold.store] at hstats
    refine backed_of fun t => ?_
    have hbalance := hsold.balance_le (Env.ne_me_of_signed hsigned) t
    have hbid := (h.auctions _ a ha).bid_eq_zero (by simp [htype])
    dsimp only [Auction.sale] at hbalance ⊢
    rw [owed_bumpStats hstats, owed_closeAuction h ha (isOpen_of_active hopen) (.inl rfl), hbid,
      amountIn_zero]
    omega
  | cancelDutchAuction a s hsigned ha hopen htype hseller hstats =>
    refine backed_of fun t => ?_
    have hbalance := balance_handBack me w.tokens a.collection a.seller a.amount t
    have hbid := (h.auctions _ a ha).bid_eq_zero (by simp [htype])
    dsimp only
    rw [owed_bumpStats hstats, owed_closeAuction h ha (isOpen_of_active hopen) (.inr rfl), hbid,
      amountIn_zero]
    omega
  | makeOffer expiresAt events hactive hsigned hamount =>
    refine backed_of fun t => ?_
    dsimp only
    rw [owed_addOffer h rfl, Ledger.balance_move,
      Transfer.net_deposit (Env.ne_me_of_signed hsigned)]
    dsimp only
    omega
  | acceptOffer => exact backed_acceptOffer h hdone'
  | cancelOffer => exact backed_cancelOffer h hdone'
  | bulkList w' hactive hsigned hlength heach =>
    refine (heach.induct (P := fun w => Inv me w.store) Custody.Backed.refl
      (fun _ _ _ => Custody.Backed.trans) (fun item w w' hw hitem => ?_) h).2
    unfold ListedOrSkipped at hitem
    split_ifs at hitem
    · exact ⟨hw.listed hitem, backed_listed hsigned hw hitem⟩
    · rw [hitem]
      exact ⟨hw, Custody.Backed.refl w⟩
  | bulkCreateAuctions w' hactive hsigned hlength heach =>
    refine (heach.induct (P := fun w => Inv me w.store) Custody.Backed.refl
      (fun _ _ _ => Custody.Backed.trans) (fun item w w' hw hitem => ?_) h).2
    unfold AuctionedOrSkipped at hitem
    split_ifs at hitem
    · exact ⟨hw.auctioned hsigned hitem, backed_auctioned hsigned hw hitem⟩
    · rw [hitem]
      exact ⟨hw, Custody.Backed.refl w⟩

/-! ## Settlements -/

/-- What a sale pays to others than the marketplace: the fee, the royalties, and the rest of the
    price to the seller if it is positive. -/
def Sale.outflow (me : Address) (s : Store) (sale : Sale) : ℤ :=
  (if s.feeRecipient = some me then 0 else sale.feeDue s) +
    (((sale.royaltiesDue s).filter fun x => x.1 ≠ me).map Prod.snd).sum +
    max (sale.price - sale.feeDue s - sale.totalDue s) 0

/-- A settlement of a bid that goes through pays others at most the bid and the surplus. -/
def Covered (w : World Store) : Step me Entry → Prop
  | .call env (.settleEnglishAuction id) =>
    ∀ a, w.store.auctions.lookup id = some a → a.currentBid ≠ 0 →
      (settleEnglishAuction env id).Succeeds w →
        (a.settlement me).outflow me w.store ≤
          a.currentBid + (marketCustody me).surplus w a.currency
  | _ => True

theorem sumToOthers_royalties {s : Store} (h : Inv me s) (sale : Sale) (hprice : 0 ≤ sale.price) :
    sumToOthers me ((s.royaltyAmounts sale.collection sale.price).map fun x =>
      (⟨sale.currency, sale.payer, x.1, x.2⟩ : TokenTransfer)) =
        (((sale.royaltiesDue s).filter fun x => x.1 ≠ me).map Prod.snd).sum := by
  have hdrop := sum_filter_pos (fun x hx => h.royaltiesDue_nonneg hprice hx)
    fun a => decide (a ≠ me)
  rw [← h.royaltyAmounts_eq sale hprice] at hdrop
  rw [← hdrop]
  unfold sumToOthers
  rw [List.filter_map, List.map_map]
  rfl

theorem sumToOthers_payments {s : Store} (h : Inv me s) {a : Auction} (hok : AuctionOk me a)
    (hbid : 0 < a.currentBid) {feeRecipient : Address}
    (hrecipient : s.feeRecipient = some feeRecipient) {fee : ℤ}
    (hfee : computePlatformFee a.currentBid s.getPlatformFeeBps = .ok fee) :
    sumToOthers me ((a.settlement me).payments feeRecipient fee
      (s.royaltyAmounts a.collection a.currentBid)) = (a.settlement me).outflow me s := by
  obtain ⟨-, hfeeEq⟩ := (computePlatformFee_ok hbid.le h.fee.1).mp hfee
  have hfeeDue : (a.settlement me).feeDue s = fee := hfeeEq.symm
  have hfee₀ : 0 ≤ fee := h.platformFee_nonneg hbid.le hfee
  have hsum := h.sum_royaltyAmounts (a.settlement me) hbid.le
  have hroyalties := sumToOthers_royalties h (a.settlement me) hbid.le
  unfold Sale.payments Sale.outflow sellerProceeds
  dsimp only [Auction.settlement] at hsum hroyalties hfeeDue ⊢
  rw [sumToOthers_append, sumToOthers_append, sumToOthers_ifPos, sumToOthers_ifPos, hroyalties,
    hsum, hfeeDue, max_eq_left hfee₀, if_neg hok.seller_ne, hrecipient]
  simp only [Option.some.injEq]

/-- A settlement with a bid takes from the surplus of its currency what it pays to others beyond the
    bid. -/
theorem surplus_settle {env : Env me} {id : ℕ} {a : Auction} {w w' : World Store}
    (h : Inv me w.store) (ha : w.store.auctions.lookup id = some a) (hbid : a.currentBid ≠ 0)
    (hdone : Done env w (.settleEnglishAuction id) w') (t : Address) :
    (marketCustody me).surplus w' t = (marketCustody me).surplus w t -
      amountIn a.currency t ((a.settlement me).outflow me w.store - a.currentBid) := by
  cases hdone with
  | settleUnsold a' s hactive ha' hopen htime hzero hstats =>
    rw [ha] at ha'
    cases ha'
    exact absurd hzero hbid
  | settleSold a' feeRecipient fee w₁ s events hactive ha' hopen htime hne hsold hstats =>
    rw [ha] at ha'
    cases ha'
    have hok := h.auctions id a ha
    have hpos : 0 < a.currentBid := lt_of_le_of_ne hok.bid_nonneg (Ne.symm hbid)
    rw [hsold.store] at hstats
    have hothers := sumToOthers_payments h hok hpos hsold.recipient hsold.fee
    have hpayments : ∀ x ∈ (a.settlement me).payments feeRecipient fee
        (w.store.royaltyAmounts a.collection a.currentBid), x.token = a.currency ∧ x.src = me :=
      fun x hx => Sale.of_mem_payments hx
    have hpaid := netAll_of_src_eq hpayments t
    have howed := owed_closeAuction h ha (isOpen_of_ended hopen) (.inl rfl) t
    have hitem : Transfer.net t me ((a.settlement me).handover me) =
        - amountIn a.collection t a.amount := Transfer.net_payout (hok.bidder_ne hbid) _
    rw [hothers] at hpaid
    have hbalance := Ledger.balance_moveAll w.tokens ((a.settlement me).payments feeRecipient fee
      (w.store.royaltyAmounts a.collection a.currentBid) ++ [(a.settlement me).handover me]) t me
    rw [netAll_append, netAll_cons, netAll_nil, hpaid, hitem] at hbalance
    have htokens : w₁.tokens = w.tokens.moveAll ((a.settlement me).payments feeRecipient fee
      (w.store.royaltyAmounts a.collection a.currentBid) ++ [(a.settlement me).handover me]) :=
      hsold.tokens
    simp only [Custody.surplus, marketCustody]
    rw [owed_bumpStats hstats, howed, htokens, hbalance, amountIn_sub]
    omega

theorem Sale.outflow_le {s : Store} (h : Inv me s) {sale : Sale} (hfits : sale.Fits s) :
    sale.outflow me s ≤ sale.price := by
  obtain ⟨hprice, hle⟩ := hfits
  have hfee : 0 ≤ sale.feeDue s :=
    Int.ediv_nonneg (mul_nonneg hprice.le h.fee.1) (by decide)
  have hroyalties : (((sale.royaltiesDue s).filter fun x => x.1 ≠ me).map Prod.snd).sum ≤
      sale.totalDue s := by
    refine List.Sublist.sum_le_sum (List.filter_sublist.map _) fun y hy => ?_
    obtain ⟨x, hx, rfl⟩ := List.mem_map.mp hy
    exact h.royaltiesDue_nonneg hprice.le hx
  have hrest : max (sale.price - sale.feeDue s - sale.totalDue s) 0 =
      sale.price - sale.feeDue s - sale.totalDue s := max_eq_left (by omega)
  unfold Sale.outflow
  rw [hrest]
  split_ifs <;> omega

/-- In a solvent state, rates of at most 10000 basis points in all cover every settlement. -/
theorem covered_of_rates {w : World Store} (h : Inv me w.store)
    (hsol : (marketCustody me).Solvent w) (env : Env me) {id : ℕ}
    (hrates : ∀ a, w.store.auctions.lookup id = some a → w.store.getPlatformFeeBps +
      ((w.store.recipients a.collection).map RoyaltyRecipient.shareBps).sum ≤ bpsDenom) :
    Covered w (.call env (.settleEnglishAuction id)) := by
  intro a ha hbid _
  have hpos : 0 < a.currentBid :=
    lt_of_le_of_ne (h.auctions id a ha).bid_nonneg (Ne.symm hbid)
  have hfits : (a.settlement me).Fits w.store := fits_of_rates h hpos (hrates a ha)
  have hle : (a.settlement me).outflow me w.store ≤ a.currentBid := Sale.outflow_le h hfits
  have hsurplus := Custody.solvent_iff.mp hsol a.currency
  omega

/-! ## Runs -/

/-- A step that is neither `initialize` nor the settlement of a bid lowers no surplus. -/
theorem backed_step {w : World Store} (h : Inv me w.store) {s : Step me Entry}
    (hs : ¬ Initializes s) (hsettle : ∀ env c, s = .call env c → ¬ SettlesBid w c) :
    (marketCustody me).Backed w (step s w) := by
  rcases step_cases s w with ⟨env, x, hx⟩ | hx | ⟨env, c, w', rfl, hx, hdone⟩
  · rw [hx]
    refine backed_of fun t => ?_
    have hreceived := Step.received_nonneg t w (.outside env x : Step me Entry)
    rw [store_outsideTransfer, balance_outsideTransfer (C := Entry)]
    omega
  · rw [hx]
    exact Custody.Backed.refl w
  · rw [hx]
    exact backed_done h hs (hsettle env c rfl) hdone

/-- A settlement of a bid keeps a solvent marketplace solvent exactly when it is covered. -/
theorem solvent_settle_iff {env : Env me} {id : ℕ} {a : Auction} {w : World Store}
    (h : Inv me w.store) (ha : w.store.auctions.lookup id = some a) (hbid : a.currentBid ≠ 0)
    (hsol : (marketCustody me).Solvent w) :
    (marketCustody me).Solvent ((settleEnglishAuction env id).commit w) ↔
      ((settleEnglishAuction env id).Succeeds w → (a.settlement me).outflow me w.store ≤
        a.currentBid + (marketCustody me).surplus w a.currency) := by
  rcases Exec.commit_cases (settleEnglishAuction env id) w with ⟨r, hr⟩ | ⟨hno, hw⟩
  · have hsurplus := surplus_settle h ha hbid (settleEnglishAuction_done hr)
    rw [Custody.solvent_spend_iff hsol hsurplus, sub_le_iff_le_add']
    exact ⟨fun hle _ => hle, fun hcovered => hcovered ⟨r, _, hr⟩⟩
  · rw [hw]
    exact iff_of_true hsol fun hyes => absurd hyes hno

theorem solvent_step_iff {w : World Store} (h : Inv me w.store) {s : Step me Entry}
    (hs : ¬ Initializes s) (hsol : (marketCustody me).Solvent w) :
    (marketCustody me).Solvent (step s w) ↔ Covered w s := by
  by_cases hsettle : ∃ env c, s = .call env c ∧ SettlesBid w c
  · obtain ⟨env, c, rfl, hc⟩ := hsettle
    cases c with
    | settleEnglishAuction id =>
      obtain ⟨a, ha, hbid⟩ := hc
      show (marketCustody me).Solvent ((settleEnglishAuction env id).commit w) ↔ _
      rw [solvent_settle_iff h ha hbid hsol]
      refine ⟨fun hle a' ha' _ => ?_, fun hcovered => hcovered a ha hbid⟩
      rw [ha] at ha'
      cases ha'
      exact hle
    | _ => exact absurd hc id
  · have hnot : ∀ env c, s = .call env c → ¬ SettlesBid w c :=
      fun env c hc hsettles => hsettle ⟨env, c, hc, hsettles⟩
    refine iff_of_true ((backed_step h hs hnot).solvent hsol) ?_
    unfold Covered
    split
    · intro a ha hbid
      exact absurd ⟨a, ha, hbid⟩ (hnot _ _ rfl)
    · trivial

theorem solvent_init {env : Env me} {admin recipient : Address} {fee increment : ℤ} {extension : ℕ}
    {tokens : TokenLedger} (hfunds : ∀ t a, 0 ≤ tokens.balance t a) {w : World Store} {u : Unit}
    (h : init env admin fee recipient increment extension (World.deployed Store.empty tokens) =
      .ok u w) : (marketCustody me).Solvent w := by
  cases init_done h with
  | init events hfee hincrement =>
    intro t
    have hheld := hfunds t me
    exact hheld

/-- From the first `initialize` on, without another one, the balance of every token covers the
    escrowed bids, offers and items after every step exactly when every settlement of a bid that
    goes through pays others at most the bid and what was not owed before it. -/
theorem solvent_iff_settlements_covered {env : Env me} {admin recipient : Address}
    {fee increment : ℤ} {extension : ℕ} {tokens : TokenLedger}
    (hfunds : ∀ t a, 0 ≤ tokens.balance t a) {w : World Store}
    (hinit : init env admin fee recipient increment extension (World.deployed Store.empty tokens) =
      .ok () w)
    (steps : List (Step me Entry)) (honce : ∀ s ∈ steps, ¬ Initializes s) :
    (∀ x ∈ trace step w steps, ∀ t,
        (step x.2 x.1).store.owed t ≤ (step x.2 x.1).tokens.balance t me) ↔
      ∀ x ∈ trace step w steps, Covered x.1 x.2 :=
  trace_forall_iff (P := fun w : World Store => Inv me w.store) (G := (marketCustody me).Solvent)
    (N := fun _ s => ¬ Initializes s) (fun _ _ h hs => h.step hs)
    (fun _ _ h hs hsol => solvent_step_iff h hs hsol) (Inv.start hinit) (solvent_init hfunds hinit)
    fun x hx => honce x.2 (mem_of_mem_trace hx)

/-! ## Two auctions -/

/-- The seller auctions the item in a marketplace with `n` royalties, and the buyer bids 10 and
    makes an offer of 50 for another item. -/
def biddenWith (n : ℕ) : List (Step ⟨0⟩ Entry) :=
  openedWith n ++
    [.call (.signedBy ⟨0⟩ 1 1 [⟨2⟩]) (.createEnglishAuction ⟨2⟩ ⟨7⟩ 1 1 10 ⟨9⟩ 10 someHash),
      .call (.signedBy ⟨0⟩ 2 2 [⟨3⟩]) (.placeBid ⟨3⟩ 1 10),
      .call (.signedBy ⟨0⟩ 3 3 [⟨3⟩]) (.makeOffer ⟨3⟩ ⟨2⟩ ⟨7⟩ 2 1 50 ⟨9⟩ ⟨7⟩ 0 1000)]

/-- The settlement of the auction after its end. -/
def settling : Step ⟨0⟩ Entry := .call (.signedBy ⟨0⟩ 4 400 []) (.settleEnglishAuction 1)

/-- The run with the settlement. -/
def settledWith (n : ℕ) : List (Step ⟨0⟩ Entry) := biddenWith n ++ [settling]

theorem settledWith_once (n : ℕ) : ∀ s ∈ settledWith n, ¬ Initializes s := by
  intro s hs
  simp only [settledWith, biddenWith, openedWith, List.cons_append, List.nil_append, List.mem_cons,
    List.not_mem_nil, or_false] at hs
  rcases hs with rfl | rfl | rfl | rfl | rfl | rfl <;> exact id

theorem marketFunds_nonneg (t a : Address) : 0 ≤ marketFunds.balance t a :=
  Ledger.ofList_nonneg (by decide) t a

/-- The auction after the bid. -/
def biddenAuction : Auction where
  id := 1
  auctionType := .english
  seller := ⟨2⟩
  collection := ⟨7⟩
  tokenId := 1
  amount := 1
  currency := ⟨9⟩
  startPrice := 10
  floorPrice := 0
  currentBid := 10
  currentBidder := ⟨3⟩
  status := .active
  startTime := 1
  endTime := 302
  autoExtensionWindow := 300
  metadataHash := someHash

theorem lookup_bidden :
    (run step opened (biddenWith 1)).store.auctions.lookup 1 = some biddenAuction := rfl

/-- With one royalty the settlement pays out the bid of 10. -/
theorem covered_settling : Covered (run step opened (biddenWith 1)) settling := by
  intro a ha hbid _
  obtain rfl : biddenAuction = a := Option.some.inj (lookup_bidden.symm.trans ha)
  decide

/-- The one-royalty market stays solvent: the settlement is covered, and no other step asks for
    anything. The offer of 50 is owed at the end. -/
theorem solvent_iff_settlements_covered_one :
    (run step opened (settledWith 1)).store.owed ⟨9⟩ = 50 ∧
      ∀ x ∈ trace step opened (settledWith 1), ∀ t,
        (step x.2 x.1).store.owed t ≤ (step x.2 x.1).tokens.balance t ⟨0⟩ := by
  refine ⟨by decide, ?_⟩
  refine (solvent_iff_settlements_covered marketFunds_nonneg init_opened (settledWith 1)
    (settledWith_once 1)).mpr fun x hx => ?_
  rw [settledWith, trace_append] at hx
  rcases List.mem_append.mp hx with hx | hx
  · fin_cases hx <;> trivial
  · rw [List.mem_singleton.mp hx]
    exact covered_settling

/-- With ten royalties the settlement of the bid of 10 pays out 11: 49 are left for the offer of
    50. -/
theorem not_solvent_settled :
    (∀ t a, 0 ≤ marketFunds.balance t a) ∧
      init (Env.signedBy ⟨0⟩ 1 1 []) ⟨1⟩ 1000 ⟨8⟩ 500 300
        (World.deployed Store.empty marketFunds) = .ok () opened ∧
      (∀ s ∈ settledWith 10, ¬ Initializes s) ∧
      (run step opened (settledWith 10)).store.owed ⟨9⟩ = 50 ∧
      (run step opened (settledWith 10)).tokens.balance ⟨9⟩ ⟨0⟩ = 49 ∧
      ¬ ∀ x ∈ trace step opened (settledWith 10), ∀ t,
        (step x.2 x.1).store.owed t ≤ (step x.2 x.1).tokens.balance t ⟨0⟩ := by
  refine ⟨marketFunds_nonneg, init_opened, settledWith_once 10, by decide, by decide, fun h => ?_⟩
  have hlast := h (run step opened (biddenWith 10), settling) (by
    rw [settledWith, trace_append]
    exact List.mem_append_right _ (List.mem_singleton_self _)) ⟨9⟩
  exact absurd hlast (by decide)

end Trellis.Market
