import Trellis.Market.Royalties
import Trellis.Market.Solvency

/-!
# Expiry

`accept_offer` marks an expired offer and refunds it, and `place_bid` marks an ended auction, before
they return an error. The host undoes what a failing invocation did, and the two marks with it.

Results:
* `acceptOffer_late`, `placeBid_late`: the marks and the refund are made when the error is returned.
* `unlapsed_run`: no offer is expired and no auction ended in a reachable state.
* `expiry_never_persists`: a late call leaves the offer pending and unrefunded, and the auction
  active.
-/

namespace Trellis.Market

open Exec

variable {me : Address}

/-- The status of a stored offer. -/
def Store.offerStatus? (s : Store) (id : ℕ) : Option OfferStatus :=
  (s.offers.lookup id).map Offer.status

/-- The status of a stored auction. -/
def Store.auctionStatus? (s : Store) (id : ℕ) : Option AuctionStatus :=
  (s.auctions.lookup id).map Auction.status

/-! ## A late call -/

section

variable {env : Env me} {id : ℕ} {w : World Store}

/-- Accepting an expired offer returns the error with the offer marked and refunded. -/
theorem acceptOffer_late {caller : Address} {o : Offer}
    (hactive : w.shared.paused.getD false = false) (hsigned : env.signed caller = true)
    (ho : w.store.offers.lookup id = some o) (hopen : o.status = .pending)
    (hrecipient : o.recipient = caller) (hlate : o.expiresAt < env.timestamp)
    (hallows : env.Allows w.tokens ⟨o.currency, me, o.offerer, o.offerAmount⟩) :
    acceptOffer env caller id w = .fail (.err .offerExpired) { w with
      store := { w.store with offers := w.store.offers.insert id { o with status := .expired } }
      tokens := w.tokens.move ⟨o.currency, me, o.offerer, o.offerAmount⟩ } := by
  simp [acceptOffer, hactive, hsigned, ho, hopen, hrecipient, hlate, hallows]

/-- A bid after the end of the auction returns the error with the auction marked. -/
theorem placeBid_late {bidder : Address} {bid : ℤ} {a : Auction}
    (hactive : w.shared.paused.getD false = false) (hsigned : env.signed bidder = true)
    (hbid : 0 < bid) (ha : w.store.auctions.lookup id = some a) (hopen : a.status = .active)
    (htype : a.auctionType = .english) (hlate : a.endTime ≤ env.timestamp) :
    placeBid env bidder id bid w = .fail (.err .auctionEnded) { w with
      store := { w.store with
        auctions := w.store.auctions.insert id { a with status := .ended } } } := by
  simp [placeBid, hactive, hsigned, hbid, ha, hopen, htype, hlate]

/-- Accepting an expired offer changes nothing once the invocation is complete. -/
theorem acceptOffer_undone {o : Offer} (ho : w.store.offers.lookup id = some o)
    (hlate : o.expiresAt < env.timestamp) (caller : Address) :
    step (.call env (.acceptOffer caller id)) w = w := by
  show (acceptOffer env caller id).commit w = w
  apply commit_of_fails
  rintro ⟨u, w', hok⟩
  cases acceptOffer_done hok with
  | acceptOffer o' fee feeRecipient events hactive hsigned ho' hopen hrecipient htime =>
    obtain rfl : o = o' := Option.some.inj (ho.symm.trans ho')
    omega

/-- A bid after the end of the auction changes nothing once the invocation is complete. -/
theorem placeBid_undone {a : Auction} (ha : w.store.auctions.lookup id = some a)
    (hlate : a.endTime ≤ env.timestamp) (bidder : Address) (bid : ℤ) :
    step (.call env (.placeBid bidder id bid)) w = w := by
  show (placeBid env bidder id bid).commit w = w
  apply commit_of_fails
  rintro ⟨u, w', hok⟩
  cases placeBid_done hok with
  | placeBid a' least newEnd events hactive hsigned hbid ha' hopen htype htime =>
    obtain rfl : a = a' := Option.some.inj (ha.symm.trans ha')
    omega

end

/-! ## No record is ever marked -/

/-- No stored offer is expired, and no stored auction ended. -/
structure Unlapsed (s : Store) : Prop where
  offers : s.offers.Forall fun _ o => o.status ≠ .expired
  auctions : s.auctions.Forall fun _ a => a.status ≠ .ended

namespace Unlapsed

variable {s s' : Store}

theorem bumpStats (h : Unlapsed s) {collection : Address} {dl da : ℤ}
    (hs : s.bumpStats collection dl da = some s') : Unlapsed s' := by
  obtain ⟨⟨collections, rfl⟩, -⟩ := Store.bumpStats_some hs
  exact ⟨h.offers, h.auctions⟩

theorem closeListing (h : Unlapsed s) {listings : Table ℕ Listing} {collection : Address}
    {dl da : ℤ} (hs : Store.bumpStats { s with listings := listings } collection dl da = some s') :
    Unlapsed s' := by
  have hset : Unlapsed { s with listings := listings } := ⟨h.offers, h.auctions⟩
  exact hset.bumpStats hs

theorem closeAuction (h : Unlapsed s) {id : ℕ} {a : Auction} {status : AuctionStatus}
    (hstatus : status ≠ .ended) {collection : Address} {dl da : ℤ}
    (hs : Store.bumpStats { s with auctions := s.auctions.insert id { a with status := status } }
      collection dl da = some s') : Unlapsed s' := by
  have hset : Unlapsed { s with auctions := s.auctions.insert id { a with status := status } } :=
    ⟨h.offers, h.auctions.set hstatus⟩
  exact hset.bumpStats hs

theorem closeOffer (h : Unlapsed s) (id : ℕ) (o : Offer) {status : OfferStatus}
    (hstatus : status ≠ .expired) :
    Unlapsed { s with offers := s.offers.insert id { o with status := status } } :=
  ⟨h.offers.set hstatus, h.auctions⟩

theorem listed {env : Env me} {seller : Address} {item : BulkListingItem} {w w' : World Store}
    (h : Unlapsed w.store) (hl : Listed env seller item w w') : Unlapsed w'.store := by
  have hadded : Unlapsed (w.store.addListing (w.store.newListing env.timestamp seller item)) :=
    ⟨h.offers, h.auctions⟩
  exact hadded.bumpStats hl.store

theorem auctioned {env : Env me} {seller : Address} {item : BulkAuctionItem} {endTime : ℕ}
    {w w' : World Store} (h : Unlapsed w.store) (ha : Auctioned env seller item endTime w w') :
    Unlapsed w'.store := by
  have hactive : (w.store.newAuction me env.timestamp seller item endTime).status ≠ .ended := by
    show AuctionStatus.active ≠ .ended
    decide
  have hadded : Unlapsed
      (w.store.addAuction (w.store.newAuction me env.timestamp seller item endTime)) :=
    ⟨h.offers, h.auctions.set hactive⟩
  exact hadded.bumpStats ha.store

theorem done {env : Env me} {c : Entry} {w w' : World Store} (h : Unlapsed w.store)
    (hdone : Done env w c w') : Unlapsed w'.store := by
  cases hdone with
  | init | setPlatformFee | setFeeRecipient | setBidIncrement | setAutoExtension | setCurrency
  | setOracle | registerCollection | setCollectionRoyalties => exact ⟨h.offers, h.auctions⟩
  | listNft w₁ events hactive hsigned hprice hcurrency hhash hcollection hlisted =>
    show Unlapsed w₁.store
    exact h.listed hlisted
  | buyNft l feeRecipient fee w₁ s events hactive hsigned hl hopen hsold hstats =>
    rw [hsold.store] at hstats
    exact h.closeListing hstats
  | cancelListing l s hsigned hl hopen hseller hstats => exact h.closeListing hstats
  | createEnglishAuction w₁ e events hactive hsigned hstart hcurrency hhash hcollection hduration
      hend hauctioned =>
    show Unlapsed w₁.store
    exact h.auctioned hauctioned
  | placeBid a least newEnd events hactive hsigned hbid ha =>
    refine ⟨h.offers, ?_⟩
    exact h.auctions.set (h.auctions _ a ha)
  | settleUnsold a s hactive ha hopen htime hbid hstats => exact h.closeAuction (by decide) hstats
  | settleSold a feeRecipient fee w₁ s events hactive ha hopen htime hbid hsold hstats =>
    rw [hsold.store] at hstats
    exact h.closeAuction (by decide) hstats
  | createDutchAuction w₁ e events hactive hsigned hstart hfloor hcurrency hhash hcollection hprices
      hduration hend hauctioned =>
    show Unlapsed w₁.store
    exact h.auctioned hauctioned
  | buyDutchAuction a price feeRecipient fee w₁ s events hactive hsigned ha hopen htype hprice hne
      hsold hstats =>
    rw [hsold.store] at hstats
    exact h.closeAuction (by decide) hstats
  | cancelDutchAuction a s hsigned ha hopen htype hseller hstats =>
    exact h.closeAuction (by decide) hstats
  | makeOffer expiresAt events hactive hsigned hamount =>
    have hpending : OfferStatus.pending ≠ .expired := by decide
    exact ⟨h.offers.set hpending, h.auctions⟩
  | acceptOffer o => exact h.closeOffer _ o (by decide)
  | cancelOffer o => exact h.closeOffer _ o (by decide)
  | bulkList w' hactive hsigned hlength heach =>
    exact keeps_listed (fun _ _ _ hw hitem => hw.listed hitem) heach h
  | bulkCreateAuctions w' hactive hsigned hlength heach =>
    exact keeps_auctioned (fun _ _ _ _ hw hitem => hw.auctioned hitem) heach h

theorem step {w : World Store} (h : Unlapsed w.store) (s : Step me Entry) :
    Unlapsed (step s w).store := by
  rcases step_cases s w with ⟨env, x, hx⟩ | hx | ⟨env, c, w', -, hx, hdone⟩
  · rwa [hx, store_outsideTransfer]
  · rwa [hx]
  · rw [hx]
    exact h.done hdone

theorem offerStatus_ne (h : Unlapsed s) (id : ℕ) : s.offerStatus? id ≠ some .expired := by
  intro hstatus
  obtain ⟨o, ho, hexpired⟩ := Option.map_eq_some_iff.mp hstatus
  exact h.offers id o ho hexpired

theorem auctionStatus_ne (h : Unlapsed s) (id : ℕ) : s.auctionStatus? id ≠ some .ended := by
  intro hstatus
  obtain ⟨a, ha, hended⟩ := Option.map_eq_some_iff.mp hstatus
  exact h.auctions id a ha hended

end Unlapsed

/-- No offer is expired and no auction ended in a reachable state. -/
theorem unlapsed_run (tokens : TokenLedger) (steps : List (Step me Entry)) :
    Unlapsed (run step (World.deployed Store.empty tokens) steps).store := by
  apply run_induct (P := fun w : World Store => Unlapsed w.store)
  · intro w s h
    exact h.step s
  · exact ⟨Table.Forall.empty _, Table.Forall.empty _⟩

/-! ## Every reachable state -/

/-- In every reachable state, once the invocation is complete,
    * accepting a pending offer after its expiry has neither marked the offer nor returned its
      amount;
    * a bid on an active English auction from its end on has not marked the auction;
    * and no call has ever marked an offer or an auction. -/
theorem expiry_never_persists (tokens : TokenLedger) (steps : List (Step me Entry)) (env : Env me)
    {w : World Store} (hw : run step (World.deployed Store.empty tokens) steps = w) :
    (∀ caller id o w', w.store.offers.lookup id = some o → o.status = .pending →
      o.recipient = caller → o.expiresAt < env.timestamp →
      step (.call env (.acceptOffer caller id)) w = w' →
      w'.store.offerStatus? id ≠ some .expired ∧
        w'.tokens.balance o.currency o.offerer ≠
          w.tokens.balance o.currency o.offerer + o.offerAmount) ∧
    (∀ bidder id bid a w', w.store.auctions.lookup id = some a → a.status = .active →
      a.auctionType = .english → a.endTime ≤ env.timestamp →
      step (.call env (.placeBid bidder id bid)) w = w' →
      w'.store.auctionStatus? id ≠ some .ended) ∧
    ∀ id, w.store.offerStatus? id ≠ some .expired ∧ w.store.auctionStatus? id ≠ some .ended := by
  have hamounts : Accepting w.store := by
    rw [← hw]
    exact accepting_run tokens steps
  have hunlapsed : Unlapsed w.store := by
    rw [← hw]
    exact unlapsed_run tokens steps
  refine ⟨?_, ?_, fun id => ⟨hunlapsed.offerStatus_ne id, hunlapsed.auctionStatus_ne id⟩⟩
  · intro caller id o w' ho hopen hrecipient hlate hstep
    rw [acceptOffer_undone ho hlate] at hstep
    subst hstep
    have hpos : 0 < o.offerAmount := hamounts.offers id o ho
    refine ⟨hunlapsed.offerStatus_ne id, ?_⟩
    omega
  · intro bidder id bid a w' ha hopen htype hlate hstep
    rw [placeBid_undone ha hlate] at hstep
    subst hstep
    exact hunlapsed.auctionStatus_ne id

/-! ## A late acceptance and a late bid -/

/-- The offer of that run. -/
def biddenOffer : Offer where
  id := 1
  offerer := ⟨3⟩
  recipient := ⟨2⟩
  collection := ⟨7⟩
  tokenId := 2
  amount := 1
  offerAmount := 50
  currency := ⟨9⟩
  offerNftCollection := ⟨7⟩
  offerNftTokenId := 0
  status := .pending
  createdAt := 3
  expiresAt := 1003

/-- The recipient accepts the offer after its expiry. -/
def acceptingLate : Step ⟨0⟩ Entry := .call (.signedBy ⟨0⟩ 5 2000 [⟨2⟩]) (.acceptOffer ⟨2⟩ 1)

/-- Another bidder bids after the end of the auction. -/
def biddingLate : Step ⟨0⟩ Entry := .call (.signedBy ⟨0⟩ 5 2000 [⟨4⟩]) (.placeBid ⟨4⟩ 1 20)

/-- The late acceptance marks nothing, and the offerer does not get the 50 back. -/
theorem expiry_never_persists_bidden :
    (step acceptingLate (run step opened (biddenWith 1))).store.offerStatus? 1 ≠ some .expired ∧
      (step acceptingLate (run step opened (biddenWith 1))).tokens.balance ⟨9⟩ ⟨3⟩ ≠
        (run step opened (biddenWith 1)).tokens.balance ⟨9⟩ ⟨3⟩ + 50 :=
  (expiry_never_persists marketFunds
    (.call (.signedBy ⟨0⟩ 1 1 []) (.init ⟨1⟩ 1000 ⟨8⟩ 500 300) :: biddenWith 1)
    (Env.signedBy ⟨0⟩ 5 2000 [⟨2⟩]) rfl).1 ⟨2⟩ 1 biddenOffer _ rfl rfl rfl (by decide) rfl

/-- The invocation returns its error with the offer expired and 50 refunded, and after it the offer
    is pending, with 50 held for it; a late bid leaves the auction active. -/
theorem late_calls_undone :
    (run step opened (biddenWith 1)).shared.paused.getD false = false ∧
      (run step opened (biddenWith 1)).store.offers.lookup 1 = some biddenOffer ∧
      (∃ w, acceptOffer (Env.signedBy ⟨0⟩ 5 2000 [⟨2⟩]) ⟨2⟩ 1 (run step opened (biddenWith 1)) =
          .fail (.err .offerExpired) w ∧
        w.store.offerStatus? 1 = some .expired ∧ w.tokens.balance ⟨9⟩ ⟨3⟩ = 90) ∧
      (step acceptingLate (run step opened (biddenWith 1))).store.offerStatus? 1 = some .pending ∧
      (step acceptingLate (run step opened (biddenWith 1))).tokens.balance ⟨9⟩ ⟨3⟩ = 40 ∧
      (run step opened (biddenWith 1)).store.auctions.lookup 1 = some biddenAuction ∧
      (step biddingLate (run step opened (biddenWith 1))).store.auctionStatus? 1 = some .active :=
  ⟨rfl, rfl, ⟨_, rfl, rfl, by decide⟩, rfl, by decide, rfl, rfl⟩

end Trellis.Market
