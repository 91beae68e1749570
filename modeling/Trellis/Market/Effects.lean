import Trellis.Market.Solvency

/-!
# What a step does to the records

The item of a listing or of an auction is held by the marketplace until the record is closed: sold
or cancelled, settled or cancelled. Calls take items in, bid on them or close one record; what the
marketplace sends besides the item of a closed record is paid in the currency of a stored record.

Results:
* `effect_done`, `effect_step`: the ways in which a call, and a step, can change the records and the
  log of transfers.
-/

namespace Trellis.Market

variable {me : Address}

/-! ## Items -/

/-- An item in custody is that of a listing or that of an auction. -/
inductive ItemKey where
  | listing (id : ℕ)
  | auction (id : ℕ)
  deriving DecidableEq, Repr

/-- What a record says about its item. It is held until the record is closed. -/
structure Item where
  seller : Address
  collection : Address
  amount : ℕ
  held : Bool
  deriving DecidableEq, Repr

def Listing.item (l : Listing) : Item :=
  ⟨l.seller, l.collection, l.amount, decide (l.status = .active)⟩

def Auction.item (a : Auction) : Item := ⟨a.seller, a.collection, a.amount, a.isOpen⟩

/-- The item of a stored record. -/
def Store.item? (s : Store) : ItemKey → Option Item
  | .listing id => (s.listings.lookup id).map Listing.item
  | .auction id => (s.auctions.lookup id).map Auction.item

/-- No stored listing, auction or offer is in the currency `t`. -/
def Store.NoCurrency (s : Store) (t : Address) : Prop :=
  (s.listings.Forall fun _ l => l.currency ≠ t) ∧ (s.auctions.Forall fun _ a => a.currency ≠ t) ∧
    s.offers.Forall fun _ o => o.currency ≠ t

/-- The item that a call releases if it goes through, and where it goes: to the buyer, to the
    winning bidder, or back to the seller of the record. -/
def releaseOf (w : World Store) : Step me Entry → Option (ItemKey × Address)
  | .call _ (.buyNft buyer id) => some (.listing id, buyer)
  | .call _ (.cancelListing _ id) =>
    (w.store.listings.lookup id).map fun l => (.listing id, l.seller)
  | .call _ (.settleEnglishAuction id) =>
    (w.store.auctions.lookup id).map fun a =>
      (.auction id, if a.currentBid = 0 then a.seller else a.currentBidder)
  | .call _ (.buyDutchAuction buyer id) => some (.auction id, buyer)
  | .call _ (.cancelDutchAuction _ id) =>
    (w.store.auctions.lookup id).map fun a => (.auction id, a.seller)
  | _ => none

/-! ## What a step does to the records -/

/-- What the marketplace sends among these transfers is in the currency of a stored record. -/
def OnlyCurrencies (me : Address) (s : Store) (paid : List TokenTransfer) : Prop :=
  ∀ x ∈ paid, x.src = me → ¬ s.NoCurrency x.token

/-- A call that takes in items of listings. -/
def Lists : Step me Entry → Prop
  | .call _ (.listNft ..) => True
  | .call _ (.bulkList ..) => True
  | _ => False

/-- A call that takes in items of auctions. -/
def Auctions : Step me Entry → Prop
  | .call _ (.createEnglishAuction ..) => True
  | .call _ (.createDutchAuction ..) => True
  | .call _ (.bulkCreateAuctions ..) => True
  | _ => False

/-- The listings and their counter are the same. -/
structure SameListings (s s' : Store) : Prop where
  table : s'.listings = s.listings
  seq : s'.listingSeq = s.listingSeq

/-- The auctions and their counter are the same. -/
structure SameAuctions (s s' : Store) : Prop where
  table : s'.auctions = s.auctions
  seq : s'.auctionSeq = s.auctionSeq

/-- What a step can do to the records and to the log of transfers. -/
inductive Effect (w : World Store) (s : Step me Entry) (w' : World Store) : Prop where
  | idle (paid : List TokenTransfer) (hlistings : SameListings w.store w'.store)
      (hauctions : SameAuctions w.store w'.store) (hlog : w'.tokens.log = w.tokens.log ++ paid)
      (hpaid : OnlyCurrencies me w.store paid)
  | listed {env : Env me} {seller : Address} {items : List BulkListingItem} (w₁ : World Store)
      (hs : Lists s) (hsigned : env.signed seller = true)
      (heach : Each (fun item w w' => Listed env seller item w w' ∨ w' = w) items w w₁)
      (hstore : w'.store = w₁.store) (htokens : w'.tokens = w₁.tokens)
  | auctioned {env : Env me} {seller : Address} {items : List BulkAuctionItem} (w₁ : World Store)
      (hs : Auctions s) (hsigned : env.signed seller = true)
      (heach : Each (fun item w w' => (0 < item.startPrice ∧
        ∃ endTime, Auctioned env seller item endTime w w') ∨ w' = w) items w w₁)
      (hstore : w'.store = w₁.store) (htokens : w'.tokens = w₁.tokens)
  | bid {env : Env me} {bidder : Address} {id : ℕ} {amount : ℤ} (a : Auction) (endTime : ℕ)
      (paid : List TokenTransfer) (hs : s = .call env (.placeBid bidder id amount))
      (hdone : Done env w (.placeBid bidder id amount) w')
      (ha : w.store.auctions.lookup id = some a) (hopen : a.status = .active)
      (hlistings : SameListings w.store w'.store)
      (hauctions : w'.store.auctions = w.store.auctions.insert id
        { a with currentBid := amount, currentBidder := bidder, endTime := endTime })
      (hseq : w'.store.auctionSeq = w.store.auctionSeq)
      (hlog : w'.tokens.log = w.tokens.log ++ paid) (hpaid : OnlyCurrencies me w.store paid)
  | listingClosed {id : ℕ} (l : Listing) (status : ListingStatus) (dst : Address)
      (paid : List TokenTransfer) (hrelease : releaseOf w s = some (.listing id, dst))
      (hdst : dst ≠ me) (hl : w.store.listings.lookup id = some l) (hopen : l.status = .active)
      (hstatus : status ≠ .active)
      (hlistings : w'.store.listings = w.store.listings.insert id { l with status := status })
      (hseq : w'.store.listingSeq = w.store.listingSeq)
      (hauctions : SameAuctions w.store w'.store)
      (hlog : w'.tokens.log = w.tokens.log ++ (paid ++ [⟨l.collection, me, dst, l.amount⟩]))
      (hpaid : OnlyCurrencies me w.store paid)
  | auctionClosed {id : ℕ} (a : Auction) (status : AuctionStatus) (dst : Address)
      (paid : List TokenTransfer) (hrelease : releaseOf w s = some (.auction id, dst))
      (hdst : dst ≠ me) (ha : w.store.auctions.lookup id = some a) (hopen : a.isOpen = true)
      (hstatus : status = .settled ∨ status = .cancelled)
      (hlistings : SameListings w.store w'.store)
      (hauctions : w'.store.auctions = w.store.auctions.insert id { a with status := status })
      (hseq : w'.store.auctionSeq = w.store.auctionSeq)
      (hlog : w'.tokens.log = w.tokens.log ++ (paid ++ [⟨a.collection, me, dst, a.amount⟩]))
      (hpaid : OnlyCurrencies me w.store paid)

theorem same_bumpStats {s s' : Store} {collection : Address} {dl da : ℤ}
    (h : s.bumpStats collection dl da = some s') : SameListings s s' ∧ SameAuctions s s' := by
  obtain ⟨⟨collections, rfl⟩, -⟩ := Store.bumpStats_some h
  exact ⟨⟨rfl, rfl⟩, ⟨rfl, rfl⟩⟩

theorem onlyCurrencies_nil (s : Store) : OnlyCurrencies me s [] := by
  intro x hx
  cases hx

/-- Others pay in what they like. -/
theorem onlyCurrencies_of_src {s : Store} {paid : List TokenTransfer} (h : ∀ x ∈ paid, x.src ≠ me) :
    OnlyCurrencies me s paid :=
  fun x hx hsrc => absurd hsrc (h x hx)

theorem onlyCurrencies_of_auction {s : Store} {id : ℕ} {a : Auction}
    (ha : s.auctions.lookup id = some a) {paid : List TokenTransfer}
    (h : ∀ x ∈ paid, x.src = me → x.token = a.currency) : OnlyCurrencies me s paid := by
  intro x hx hsrc hno
  exact hno.2.1 id a ha (h x hx hsrc).symm

theorem onlyCurrencies_of_offer {s : Store} {id : ℕ} {o : Offer}
    (ho : s.offers.lookup id = some o) {paid : List TokenTransfer}
    (h : ∀ x ∈ paid, x.src = me → x.token = o.currency) : OnlyCurrencies me s paid := by
  intro x hx hsrc hno
  exact hno.2.2 id o ho (h x hx hsrc).symm

theorem effect_buyNft {env : Env me} {buyer : Address} {id : ℕ} {w w' : World Store}
    (hdone : Done env w (.buyNft buyer id) w') : Effect w (.call env (.buyNft buyer id)) w' := by
  cases hdone with
  | buyNft l feeRecipient fee w₁ s events hactive hsigned hl hopen hsold hstats =>
    have hbuyer : buyer ≠ me := Env.ne_me_of_signed hsigned
    have hlog := hsold.log
    rw [hsold.store] at hstats
    obtain ⟨hlistings, hauctions⟩ := same_bumpStats hstats
    refine .listingClosed l .sold buyer _ rfl hbuyer hl hopen (by decide) hlistings.table
      hlistings.seq ⟨hauctions.table, hauctions.seq⟩ hlog ?_
    apply onlyCurrencies_of_src
    intro x hx
    rw [(Sale.of_mem_payments hx).2]
    exact hbuyer

theorem effect_buyDutchAuction {env : Env me} {buyer : Address} {id : ℕ} {w w' : World Store}
    (hdone : Done env w (.buyDutchAuction buyer id) w') :
    Effect w (.call env (.buyDutchAuction buyer id)) w' := by
  cases hdone with
  | buyDutchAuction a price feeRecipient fee w₁ s events hactive hsigned ha hopen htype hprice hne
      hsold hstats =>
    have hbuyer : buyer ≠ me := Env.ne_me_of_signed hsigned
    have hlog := hsold.log
    rw [hsold.store] at hstats
    obtain ⟨hlistings, hauctions⟩ := same_bumpStats hstats
    refine .auctionClosed a .settled buyer _ rfl hbuyer ha (isOpen_of_active hopen) (.inl rfl)
      ⟨hlistings.table, hlistings.seq⟩ hauctions.table hauctions.seq hlog ?_
    apply onlyCurrencies_of_src
    intro x hx
    rw [(Sale.of_mem_payments hx).2]
    exact hbuyer

/-- A settlement hands the item to the winning bidder and pays from the bid, or returns the item. -/
theorem effect_settle {env : Env me} {id : ℕ} {w w' : World Store} (h : Inv me w.store)
    (hdone : Done env w (.settleEnglishAuction id) w') :
    Effect w (.call env (.settleEnglishAuction id)) w' := by
  cases hdone with
  | settleUnsold a s hactive ha hopen htime hbid hstats =>
    have hok := h.auctions id a ha
    obtain ⟨hlistings, hauctions⟩ := same_bumpStats hstats
    refine .auctionClosed a .settled a.seller [] ?_ hok.seller_ne ha (isOpen_of_ended hopen)
      (.inl rfl) ⟨hlistings.table, hlistings.seq⟩ hauctions.table hauctions.seq
      (Ledger.log_move _ _) (onlyCurrencies_nil _)
    rw [releaseOf, ha, Option.map_some, if_pos hbid]
  | settleSold a feeRecipient fee w₁ s events hactive ha hopen htime hbid hsold hstats =>
    have hok := h.auctions id a ha
    have hlog := hsold.log
    rw [hsold.store] at hstats
    obtain ⟨hlistings, hauctions⟩ := same_bumpStats hstats
    refine .auctionClosed a .settled a.currentBidder _ ?_ (hok.bidder_ne hbid) ha
      (isOpen_of_ended hopen) (.inl rfl) ⟨hlistings.table, hlistings.seq⟩ hauctions.table
      hauctions.seq hlog ?_
    · rw [releaseOf, ha, Option.map_some, if_neg hbid]
    · apply onlyCurrencies_of_auction ha
      intro x hx _
      exact (Sale.of_mem_payments hx).1

theorem startPrice_of_accepts {s : Store} {item : BulkAuctionItem}
    (h : s.acceptsAuction item = true) : 0 < item.startPrice := by
  simp only [Store.acceptsAuction, Bool.and_eq_true, decide_eq_true_eq, not_le] at h
  exact h.1.1.2

/-- What a successful call other than `initialize` does to the records. -/
theorem effect_done {env : Env me} {c : Entry} {w w' : World Store} (h : Inv me w.store)
    (hc : ¬ Initializes (.call env c)) (hdone : Done env w c w') : Effect w (.call env c) w' := by
  have hdone' := hdone
  cases hdone with
  | init => exact absurd trivial hc
  | setPlatformFee | setFeeRecipient | setBidIncrement | setAutoExtension | setCurrency | setOracle
  | registerCollection | setCollectionRoyalties =>
    exact .idle [] ⟨rfl, rfl⟩ ⟨rfl, rfl⟩ (List.append_nil _).symm (onlyCurrencies_nil _)
  | listNft w₁ events hactive hsigned hprice hcurrency hhash hcollection hlisted =>
    exact .listed w₁ trivial hsigned (.cons (.inl hlisted) (.nil w₁)) rfl rfl
  | buyNft => exact effect_buyNft hdone'
  | cancelListing l s hsigned hl hopen hseller hstats =>
    obtain ⟨hlistings, hauctions⟩ := same_bumpStats hstats
    refine .listingClosed l .cancelled l.seller [] ?_ ?_ hl hopen (by decide) hlistings.table
      hlistings.seq ⟨hauctions.table, hauctions.seq⟩ (Ledger.log_move _ _) (onlyCurrencies_nil _)
    · rw [releaseOf, hl, Option.map_some]
    · rw [hseller]
      exact Env.ne_me_of_signed hsigned
  | createEnglishAuction w₁ e events hactive hsigned hstart hcurrency hhash hcollection hduration
      hend hauctioned =>
    exact .auctioned w₁ trivial hsigned (.cons (.inl ⟨hstart, e, hauctioned⟩) (.nil w₁)) rfl rfl
  | placeBid a least newEnd events hactive hsigned hbid ha hopen htype htime hleast hle hother
      hend =>
    refine .bid a newEnd _ rfl hdone' ha hopen ⟨rfl, rfl⟩ rfl rfl (Ledger.log_moveAll _ _) ?_
    apply onlyCurrencies_of_auction ha
    intro x hx hsrc
    rw [List.mem_append, Transfer.mem_ifPos, List.mem_singleton] at hx
    rcases hx with ⟨rfl, -⟩ | rfl
    · rfl
    · rfl
  | settleUnsold => exact effect_settle h hdone'
  | settleSold => exact effect_settle h hdone'
  | createDutchAuction w₁ e events hactive hsigned hstart hfloor hcurrency hhash hcollection hprices
      hduration hend hauctioned =>
    exact .auctioned w₁ trivial hsigned (.cons (.inl ⟨hstart, e, hauctioned⟩) (.nil w₁)) rfl rfl
  | buyDutchAuction => exact effect_buyDutchAuction hdone'
  | cancelDutchAuction a s hsigned ha hopen htype hseller hstats =>
    obtain ⟨hlistings, hauctions⟩ := same_bumpStats hstats
    refine .auctionClosed a .cancelled a.seller [] ?_ (h.auctions _ a ha).seller_ne ha
      (isOpen_of_active hopen) (.inr rfl) ⟨hlistings.table, hlistings.seq⟩ hauctions.table
      hauctions.seq (Ledger.log_move _ _) (onlyCurrencies_nil _)
    rw [releaseOf, ha, Option.map_some]
  | makeOffer expiresAt events hactive hsigned =>
    have hofferer := Env.ne_me_of_signed hsigned
    refine .idle [_] ⟨rfl, rfl⟩ ⟨rfl, rfl⟩ (Ledger.log_move _ _) ?_
    apply onlyCurrencies_of_src
    intro x hx
    rw [List.mem_singleton.mp hx]
    exact hofferer
  | acceptOffer o fee feeRecipient events hactive hsigned ho =>
    have hcaller := Env.ne_me_of_signed hsigned
    refine .idle _ ⟨rfl, rfl⟩ ⟨rfl, rfl⟩ (Ledger.log_moveAll _ _) ?_
    apply onlyCurrencies_of_offer ho
    intro x hx hsrc
    rw [List.mem_append, List.mem_append, Transfer.mem_ifPos, Transfer.mem_ifPos,
      List.mem_singleton] at hx
    rcases hx with (⟨rfl, -⟩ | ⟨rfl, -⟩) | rfl
    · rfl
    · rfl
    · exact absurd hsrc hcaller
  | cancelOffer o hsigned ho =>
    refine .idle [_] ⟨rfl, rfl⟩ ⟨rfl, rfl⟩ (Ledger.log_move _ _) ?_
    apply onlyCurrencies_of_offer ho
    intro x hx _
    rw [List.mem_singleton.mp hx]
  | bulkList w' hactive hsigned hlength heach =>
    refine .listed w' trivial hsigned (heach.imp fun item w w' hitem => ?_) rfl rfl
    unfold ListedOrSkipped at hitem
    split_ifs at hitem
    · exact .inl hitem
    · exact .inr hitem
  | bulkCreateAuctions w' hactive hsigned hlength heach =>
    refine .auctioned w' trivial hsigned (heach.imp fun item w w' hitem => ?_) rfl rfl
    unfold AuctionedOrSkipped at hitem
    split_ifs at hitem with haccepts
    · exact .inl ⟨startPrice_of_accepts haccepts, _, hitem⟩
    · exact .inr hitem

/-- What a step other than `initialize` does to the records. -/
theorem effect_step {w : World Store} (h : Inv me w.store) {s : Step me Entry}
    (hs : ¬ Initializes s) : Effect w s (step s w) := by
  rcases step_cases s w with ⟨env, x, hx⟩ | hx | ⟨env, c, w', rfl, hx, hdone⟩
  · rw [hx]
    rcases outsideTransfer_cases env x w with hsame | ⟨hsrc, -, hmove⟩
    · rw [hsame]
      exact .idle [] ⟨rfl, rfl⟩ ⟨rfl, rfl⟩ (List.append_nil _).symm (onlyCurrencies_nil _)
    · rw [hmove]
      refine .idle [x] ⟨rfl, rfl⟩ ⟨rfl, rfl⟩ (Ledger.log_move _ _) ?_
      apply onlyCurrencies_of_src
      intro y hy
      rw [List.mem_singleton.mp hy]
      exact hsrc
  · rw [hx]
    exact .idle [] ⟨rfl, rfl⟩ ⟨rfl, rfl⟩ (List.append_nil _).symm (onlyCurrencies_nil _)
  · rw [hx]
    exact effect_done h hs hdone

end Trellis.Market
