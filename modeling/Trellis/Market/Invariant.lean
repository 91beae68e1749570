import Trellis.Lib.Holding
import Trellis.Market.Transitions

/-!
# The invariant of the marketplace

What holds of the storage in every state: a setter has accepted the royalty tables, and offers are
positive. And what holds in every state that is reached from a first `initialize` without a further
one: ids are given out in order, a bid is held only in an English auction and by another bidder than
the marketplace, and the rates are within the bounds the setters check.

Results:
* `accepting_run`: the accepted tables in every reachable state.
* `Inv.done`, `Inv.step`: every call, and every step, keeps it.
* `Inv.start`: the first `initialize` establishes it.
-/

namespace Trellis.Market

variable {me : Address}

/-! ## Accepted tables -/

/-- All stored royalty tables have been accepted by a setter, and offers are positive. -/
structure Accepting (s : Store) : Prop where
  royalties : ∀ a config, s.royaltyConfig? a = some config → config.Accepted
  offers : s.offers.Forall fun _ o => 0 < o.offerAmount

namespace Accepting

variable {s s' : Store}

theorem bumpStats (h : Accepting s) {collection : Address} {dl da : ℤ}
    (hs : s.bumpStats collection dl da = some s') : Accepting s' := by
  obtain ⟨⟨collections, rfl⟩, hroyalties⟩ := Store.bumpStats_some hs
  refine ⟨fun a config hconfig => ?_, h.offers⟩
  rw [hroyalties] at hconfig
  exact h.royalties a config hconfig

theorem setInfo (h : Accepting s) {collection : Address} {info : CollectionInfo}
    (haccepted : info.royaltyConfig.Accepted) :
    Accepting { s with
      collections := some ((s.collections.getD ∅).insert collection info) } := by
  refine ⟨fun a config hconfig => ?_, h.offers⟩
  unfold Store.royaltyConfig? at hconfig
  rw [Store.collection?_set] at hconfig
  split_ifs at hconfig with ha
  · cases hconfig
    exact haccepted
  · exact h.royalties a config hconfig

theorem listed {env : Env me} {seller : Address} {item : BulkListingItem} {w w' : World Store}
    (h : Accepting w.store) (hl : Listed env seller item w w') : Accepting w'.store := by
  have hadded : Accepting (w.store.addListing (w.store.newListing env.timestamp seller item)) :=
    ⟨h.royalties, h.offers⟩
  exact hadded.bumpStats hl.store

theorem auctioned {env : Env me} {seller : Address} {item : BulkAuctionItem} {endTime : ℕ}
    {w w' : World Store} (h : Accepting w.store) (ha : Auctioned env seller item endTime w w') :
    Accepting w'.store := by
  have hadded : Accepting
      (w.store.addAuction (w.store.newAuction me env.timestamp seller item endTime)) :=
    ⟨h.royalties, h.offers⟩
  exact hadded.bumpStats ha.store

theorem closed (h : Accepting s) {listings : Table ℕ Listing} {auctions : Table ℕ Auction}
    {collection : Address} {dl da : ℤ}
    (hs : Store.bumpStats { s with listings := listings, auctions := auctions } collection dl da =
      some s') : Accepting s' := by
  have hset : Accepting { s with listings := listings, auctions := auctions } :=
    ⟨h.royalties, h.offers⟩
  exact hset.bumpStats hs

end Accepting

/-- Every successful call keeps the tables accepted, `initialize` by emptying them. -/
theorem Accepting.done {env : Env me} {c : Entry} {w w' : World Store} (h : Accepting w.store)
    (hdone : Done env w c w') : Accepting w'.store := by
  cases hdone with
  | init =>
    refine ⟨fun a config hconfig => ?_, h.offers⟩
    cases hconfig
  | setPlatformFee | setFeeRecipient | setBidIncrement | setAutoExtension | setCurrency
  | setOracle =>
    exact ⟨h.royalties, h.offers⟩
  | registerCollection events total hadmin hsigned hnew hhash haccepted hlength =>
    exact h.setInfo haccepted
  | setCollectionRoyalties info total hsigned hinfo howner haccepted => exact h.setInfo haccepted
  | listNft w₁ events hactive hsigned hprice hcurrency hhash hcollection hlisted =>
    show Accepting w₁.store
    exact h.listed hlisted
  | buyNft l feeRecipient fee w₁ s events hactive hsigned hl hopen hsold hstats =>
    rw [hsold.store] at hstats
    exact h.closed hstats
  | cancelListing l s hsigned hl hopen hseller hstats => exact h.closed hstats
  | createEnglishAuction w₁ e events hactive hsigned hstart hcurrency hhash hcollection hduration
      hend hauctioned =>
    show Accepting w₁.store
    exact h.auctioned hauctioned
  | placeBid => exact ⟨h.royalties, h.offers⟩
  | settleUnsold a s hactive ha hopen htime hbid hstats => exact h.closed hstats
  | settleSold a feeRecipient fee w₁ s events hactive ha hopen htime hbid hsold hstats =>
    rw [hsold.store] at hstats
    exact h.closed hstats
  | createDutchAuction w₁ e events hactive hsigned hstart hfloor hcurrency hhash hcollection hprices
      hduration hend hauctioned =>
    show Accepting w₁.store
    exact h.auctioned hauctioned
  | buyDutchAuction a price feeRecipient fee w₁ s events hactive hsigned ha hopen htype hprice hne
      hsold hstats =>
    rw [hsold.store] at hstats
    exact h.closed hstats
  | cancelDutchAuction a s hsigned ha hopen htype hseller hstats => exact h.closed hstats
  | makeOffer expiresAt events hactive hsigned hamount =>
    exact ⟨h.royalties, h.offers.set hamount⟩
  | acceptOffer o fee feeRecipient events hactive hsigned ho =>
    refine ⟨h.royalties, ?_⟩
    exact h.offers.set (h.offers _ o ho)
  | cancelOffer o hsigned ho =>
    refine ⟨h.royalties, ?_⟩
    exact h.offers.set (h.offers _ o ho)
  | bulkList w' hactive hsigned hlength heach =>
    exact keeps_listed (fun _ _ _ hw hitem => hw.listed hitem) heach h
  | bulkCreateAuctions w' hactive hsigned hlength heach =>
    exact keeps_auctioned (fun _ _ _ _ hw hitem => hw.auctioned hitem) heach h

theorem Accepting.step {w : World Store} (h : Accepting w.store) (s : Step me Entry) :
    Accepting (step s w).store := by
  rcases step_cases s w with ⟨env, x, hx⟩ | hx | ⟨env, c, w', -, hx, hdone⟩
  · rwa [hx, store_outsideTransfer]
  · rwa [hx]
  · rw [hx]
    exact h.done hdone

/-- The tables are accepted in every reachable state. -/
theorem accepting_run (tokens : TokenLedger) (steps : List (Step me Entry)) :
    Accepting (run step (World.deployed Store.empty tokens) steps).store := by
  apply run_induct (P := fun w : World Store => Accepting w.store)
  · intro w s h
    exact h.step s
  · refine ⟨fun a config hconfig => ?_, Table.Forall.empty _⟩
    cases hconfig

/-! ## From the first `initialize` on -/

/-- What holds of a stored auction. -/
structure AuctionOk (me : Address) (a : Auction) : Prop where
  seller_ne : a.seller ≠ me
  bid_nonneg : 0 ≤ a.currentBid
  english : a.currentBid ≠ 0 → a.auctionType = .english
  bidder_ne : a.currentBid ≠ 0 → a.currentBidder ≠ me

/-- The invariant of the storage. -/
structure Inv (me : Address) (s : Store) : Prop where
  listingIds : s.listings.Forall fun id _ => id < s.nextListing
  auctionIds : s.auctions.Forall fun id _ => id < s.nextAuction
  offerIds : s.offers.Forall fun id _ => id < s.nextOffer
  auctions : s.auctions.Forall fun _ a => AuctionOk me a
  offers : s.offers.Forall fun _ o => 0 < o.offerAmount
  fee : 0 ≤ s.getPlatformFeeBps ∧ s.getPlatformFeeBps ≤ maxFeeBps
  royalties : ∀ a config, s.royaltyConfig? a = some config → config.Accepted

theorem fresh_of_forall {V : Type} {m : Table ℕ V} {next : ℕ}
    (h : m.Forall fun id _ => id < next) : m.lookup next = none := by
  cases hv : m.lookup next with
  | none => rfl
  | some v => exact absurd (h next v hv) (lt_irrefl next)

theorem forall_lt_succ {V : Type} {m : Table ℕ V} {next : ℕ} (h : m.Forall fun id _ => id < next)
    (v : V) : Table.Forall (fun id _ => id < next + 1) (m.insert next v) :=
  Table.Forall.set (fun id u hu => (h id u hu).trans (Nat.lt_succ_self next))
    (Nat.lt_succ_self next)

namespace Inv

variable {s s' : Store}

theorem accepting (h : Inv me s) : Accepting s := ⟨h.royalties, h.offers⟩

theorem bumpStats (h : Inv me s) {collection : Address} {dl da : ℤ}
    (hs : s.bumpStats collection dl da = some s') : Inv me s' := by
  have haccepting : Accepting s' := h.accepting.bumpStats hs
  obtain ⟨⟨collections, rfl⟩, -⟩ := Store.bumpStats_some hs
  exact ⟨h.listingIds, h.auctionIds, h.offerIds, h.auctions, haccepting.offers, h.fee,
    haccepting.royalties⟩

theorem setInfo (h : Inv me s) {collection : Address} {info : CollectionInfo}
    (haccepted : info.royaltyConfig.Accepted) :
    Inv me { s with
      collections := some ((s.collections.getD ∅).insert collection info) } :=
  ⟨h.listingIds, h.auctionIds, h.offerIds, h.auctions, h.offers, h.fee,
    (h.accepting.setInfo haccepted).royalties⟩

theorem setListing (h : Inv me s) {id : ℕ} {l : Listing} (hl : s.listings.lookup id = some l)
    (l' : Listing) : Inv me { s with listings := s.listings.insert id l' } :=
  ⟨h.listingIds.set (h.listingIds id l hl), h.auctionIds, h.offerIds, h.auctions, h.offers, h.fee,
    h.royalties⟩

theorem addListing (h : Inv me s) {l : Listing} (hid : l.id = s.nextListing) :
    Inv me (s.addListing l) := by
  refine ⟨?_, h.auctionIds, h.offerIds, h.auctions, h.offers, h.fee, h.royalties⟩
  unfold Store.addListing Store.nextListing
  rw [hid]
  exact forall_lt_succ h.listingIds l

theorem setAuction (h : Inv me s) {id : ℕ} {a : Auction} (ha : s.auctions.lookup id = some a)
    {a' : Auction} (ha' : AuctionOk me a') :
    Inv me { s with auctions := s.auctions.insert id a' } :=
  ⟨h.listingIds, h.auctionIds.set (h.auctionIds id a ha), h.offerIds, h.auctions.set ha', h.offers,
    h.fee, h.royalties⟩

theorem addAuction (h : Inv me s) {a : Auction} (hid : a.id = s.nextAuction) (ha : AuctionOk me a) :
    Inv me (s.addAuction a) := by
  refine ⟨h.listingIds, ?_, h.offerIds, h.auctions.set ha, h.offers, h.fee, h.royalties⟩
  unfold Store.addAuction Store.nextAuction
  rw [hid]
  exact forall_lt_succ h.auctionIds a

theorem setOffer (h : Inv me s) {id : ℕ} {o : Offer} (ho : s.offers.lookup id = some o) {o' : Offer}
    (hpos : 0 < o'.offerAmount) : Inv me { s with offers := s.offers.insert id o' } :=
  ⟨h.listingIds, h.auctionIds, h.offerIds.set (h.offerIds id o ho), h.auctions,
    h.offers.set hpos, h.fee, h.royalties⟩

theorem addOffer (h : Inv me s) {o : Offer} (hpos : 0 < o.offerAmount) :
    Inv me { s with
      offerSeq := some s.nextOffer
      offers := s.offers.insert s.nextOffer o } :=
  ⟨h.listingIds, h.auctionIds, forall_lt_succ h.offerIds o, h.auctions, h.offers.set hpos, h.fee,
    h.royalties⟩

theorem listed {env : Env me} {seller : Address} {item : BulkListingItem} {w w' : World Store}
    (h : Inv me w.store) (hl : Listed env seller item w w') : Inv me w'.store :=
  (h.addListing rfl).bumpStats hl.store

/-- A new auction has a seller that signed for it and no bid. -/
theorem auctioned {env : Env me} {seller : Address} (hsigned : env.signed seller = true)
    {item : BulkAuctionItem} {endTime : ℕ} {w w' : World Store} (h : Inv me w.store)
    (ha : Auctioned env seller item endTime w w') : Inv me w'.store := by
  refine (h.addAuction rfl ?_).bumpStats ha.store
  exact ⟨Env.ne_me_of_signed hsigned, le_rfl, fun hne => absurd rfl hne, fun hne => absurd rfl hne⟩

theorem closeAuction (h : Inv me s) {id : ℕ} {a : Auction} (ha : s.auctions.lookup id = some a)
    (status : AuctionStatus) :
    Inv me { s with auctions := s.auctions.insert id { a with status := status } } := by
  obtain ⟨hseller, hbid, henglish, hbidder⟩ := h.auctions id a ha
  exact h.setAuction ha ⟨hseller, hbid, henglish, hbidder⟩

end Inv

/-- A call of `initialize`. -/
def Initializes : Step me Entry → Prop
  | .call _ (.init ..) => True
  | _ => False

/-- Every successful call but `initialize` keeps the invariant. -/
theorem Inv.done {env : Env me} {c : Entry} {w w' : World Store} (h : Inv me w.store)
    (hc : ¬ Initializes (.call env c)) (hdone : Done env w c w') : Inv me w'.store := by
  cases hdone with
  | init => exact absurd trivial hc
  | setPlatformFee events hadmin hsigned hbps =>
    exact ⟨h.listingIds, h.auctionIds, h.offerIds, h.auctions, h.offers, hbps, h.royalties⟩
  | setFeeRecipient | setBidIncrement | setAutoExtension | setCurrency | setOracle =>
    exact ⟨h.listingIds, h.auctionIds, h.offerIds, h.auctions, h.offers, h.fee, h.royalties⟩
  | registerCollection events total hadmin hsigned hnew hhash haccepted hlength =>
    exact h.setInfo haccepted
  | setCollectionRoyalties info total hsigned hinfo howner haccepted => exact h.setInfo haccepted
  | listNft w₁ events hactive hsigned hprice hcurrency hhash hcollection hlisted =>
    show Inv me w₁.store
    exact h.listed hlisted
  | buyNft l feeRecipient fee w₁ s events hactive hsigned hl hopen hsold hstats =>
    rw [hsold.store] at hstats
    exact (h.setListing hl _).bumpStats hstats
  | cancelListing l s hsigned hl hopen hseller hstats => exact (h.setListing hl _).bumpStats hstats
  | createEnglishAuction w₁ e events hactive hsigned hstart hcurrency hhash hcollection hduration
      hend hauctioned =>
    show Inv me w₁.store
    exact h.auctioned hsigned hauctioned
  | placeBid a least newEnd events hactive hsigned hbid ha hopen htype htime hleast hle hother
      hend =>
    have hok := h.auctions _ a ha
    exact h.setAuction ha ⟨hok.seller_ne, hbid.le, fun _ => htype,
      fun _ => Env.ne_me_of_signed hsigned⟩
  | settleUnsold a s hactive ha hopen htime hbid hstats =>
    exact (h.closeAuction ha _).bumpStats hstats
  | settleSold a feeRecipient fee w₁ s events hactive ha hopen htime hbid hsold hstats =>
    rw [hsold.store] at hstats
    exact (h.closeAuction ha _).bumpStats hstats
  | createDutchAuction w₁ e events hactive hsigned hstart hfloor hcurrency hhash hcollection hprices
      hduration hend hauctioned =>
    show Inv me w₁.store
    exact h.auctioned hsigned hauctioned
  | buyDutchAuction a price feeRecipient fee w₁ s events hactive hsigned ha hopen htype hprice hne
      hsold hstats =>
    rw [hsold.store] at hstats
    exact (h.closeAuction ha _).bumpStats hstats
  | cancelDutchAuction a s hsigned ha hopen htype hseller hstats =>
    exact (h.closeAuction ha _).bumpStats hstats
  | makeOffer expiresAt events hactive hsigned hamount => exact h.addOffer hamount
  | acceptOffer o fee feeRecipient events hactive hsigned ho =>
    exact h.setOffer ho (h.offers _ o ho)
  | cancelOffer o hsigned ho => exact h.setOffer ho (h.offers _ o ho)
  | bulkList w' hactive hsigned hlength heach =>
    exact keeps_listed (fun _ _ _ hw hitem => hw.listed hitem) heach h
  | bulkCreateAuctions w' hactive hsigned hlength heach =>
    exact keeps_auctioned (fun _ _ _ _ hw hitem => hw.auctioned hsigned hitem) heach h

theorem Inv.step {w : World Store} (h : Inv me w.store) {s : Step me Entry}
    (hs : ¬ Initializes s) : Inv me (step s w).store := by
  rcases step_cases s w with ⟨env, x, hx⟩ | hx | ⟨env, c, w', rfl, hx, hdone⟩
  · rwa [hx, store_outsideTransfer]
  · rwa [hx]
  · rw [hx]
    exact h.done hs hdone

/-- The first `initialize` establishes the invariant. -/
theorem Inv.start {env : Env me} {admin recipient : Address} {fee increment : ℤ} {extension : ℕ}
    {tokens : TokenLedger} {w : World Store} {u : Unit}
    (h : init env admin fee recipient increment extension (World.deployed Store.empty tokens) =
      .ok u w) : Inv me w.store := by
  cases init_done h with
  | init events hfee hincrement =>
    refine ⟨Table.Forall.empty _, Table.Forall.empty _, Table.Forall.empty _, Table.Forall.empty _,
      Table.Forall.empty _, hfee, fun a config hconfig => ?_⟩
    cases hconfig

theorem Inv.run {w : World Store} (h : Inv me w.store) {steps : List (Step me Entry)}
    (honce : ∀ s ∈ steps, ¬ Initializes s) : Inv me (run Market.step w steps).store :=
  run_induct_of_trace (P := fun w : World Store => Inv me w.store) (Q := fun _ s => ¬ Initializes s)
    (fun _ _ h hs => h.step hs) h fun x hx => honce x.2 (mem_of_mem_trace hx)

end Trellis.Market
