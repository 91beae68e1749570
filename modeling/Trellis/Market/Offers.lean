import Trellis.Lib.Deal
import Trellis.Market.Expiry

/-!
# The lives of the offers

`make_offer` returns the id of the offer it has made, and `accept_offer` and `cancel_offer` return
when they have closed one. These returns tell the whole story of the offers.

Results:
* `offerEvents_step`: what a call returns leads from the offers before it to the offers after it.
* `settles_step`: what the call has paid.
* `offers_settle_once`: over every run each offer is made once and closed at most once, by exactly
  one of its two exits, and the amount that was paid in is paid out in full at its close.
-/

namespace Trellis.Market

open Exec

variable {me : Address}

/-- An offer as a deal: made pending, and closed with another status. -/
def Offer.deal (o : Offer) : Offer × Option OfferStatus :=
  ({ o with status := .pending }, if o.status = .pending then none else some o.status)

/-- The stored offers. -/
def offerDeals (s : Store) : Deals ℕ Offer OfferStatus := dealsOf Offer.deal s.offers

abbrev OfferEvent := DealEvent ℕ Offer OfferStatus

/-- The offer that `make_offer` stores under an id. -/
def offerMade (env : Env me) (offerer recipient collection : Address) (tokenId amount : ℕ)
    (offerAmount : ℤ) (currency nftCollection : Address) (nftTokenId duration id : ℕ) : Offer :=
  ⟨id, offerer, recipient, collection, tokenId, amount, offerAmount, currency,
    nftCollection, nftTokenId, .pending, env.timestamp, env.timestamp + duration⟩

/-- What a call tells its caller of the offers when it returns. -/
def offerEvents (w : World Store) : Step me Entry → List OfferEvent
  | .call env
      (.makeOffer offerer recipient collection tokenId amount offerAmount currency nftCollection
      nftTokenId duration) =>
    ((makeOffer env offerer recipient collection tokenId amount offerAmount currency nftCollection
      nftTokenId duration).value w).toList.map fun id =>
        .opened id (offerMade env offerer recipient collection tokenId amount offerAmount currency
          nftCollection nftTokenId duration id)
  | .call env (.acceptOffer caller id) =>
    ((acceptOffer env caller id).value w).toList.map fun _ => .closed id .accepted
  | .call env (.cancelOffer caller id) =>
    ((cancelOffer env caller id).value w).toList.map fun _ => .closed id .cancelled
  | _ => []

/-- What the step has paid for the event: the offerer pays the amount in; an accepted offer pays it
    out to the fee recipient and the recipient, who hands over the item; a cancelled one pays it
    back. -/
def Settles (w w' : World Store) (me : Address) : OfferEvent → Prop
  | .opened _ o => w'.tokens = w.tokens.move ⟨o.currency, o.offerer, me, o.offerAmount⟩
  | .closed id .accepted => ∃ o fee feeRecipient, w.store.offers.lookup id = some o ∧
      fee = o.offerAmount * w.store.getPlatformFeeBps / bpsDenom ∧ 0 ≤ fee ∧ fee ≤ o.offerAmount ∧
      w.store.feeRecipient = some feeRecipient ∧
      w'.tokens = w.tokens.moveAll (Transfer.ifPos ⟨o.currency, me, feeRecipient, fee⟩ ++
        Transfer.ifPos ⟨o.currency, me, o.recipient, o.offerAmount - fee⟩ ++
        [⟨o.collection, o.recipient, o.offerer, o.amount⟩])
  | .closed id .cancelled => ∃ o, w.store.offers.lookup id = some o ∧
      w'.tokens = w.tokens.move ⟨o.currency, me, o.offerer, o.offerAmount⟩
  | _ => False

/-! ## One step -/

/-- The events lead from the offers before the step to those after it, and the step has paid for
    each. -/
structure Tells (w : World Store) (events : List OfferEvent) (w' : World Store)
    (me : Address) : Prop where
  replays : replay Deals.record (offerDeals w.store) events = some (offerDeals w'.store)
  settles : ∀ e ∈ events, Settles w w' me e

theorem Tells.nothing {w w' : World Store} (h : w'.store.offers = w.store.offers) :
    Tells w [] w' me :=
  ⟨by rw [replay_nil, offerDeals, offerDeals, h], fun e he => absurd he List.not_mem_nil⟩

theorem Tells.one {w w' : World Store} {e : OfferEvent}
    (hrecord : (offerDeals w.store).record e = some (offerDeals w'.store))
    (hsettles : Settles w w' me e) :
    Tells w [e] w' me :=
  ⟨by
    rw [replay_cons, hrecord, Option.bind_some, replay_nil], List.forall_mem_singleton.mpr hsettles⟩

/-- A call that makes or closes an offer. -/
def HandlesOffer : Entry → Prop
  | .makeOffer .. | .acceptOffer .. | .cancelOffer .. => True
  | _ => False

theorem offers_bumpStats {s s' : Store} {collection : Address} {dl da : ℤ}
    (h : s.bumpStats collection dl da = some s') : s'.offers = s.offers := by
  obtain ⟨⟨collections, rfl⟩, -⟩ := Store.bumpStats_some h
  rfl

theorem offers_listed {env : Env me} {seller : Address} {item : BulkListingItem}
    {w w' : World Store} (h : Listed env seller item w w') : w'.store.offers = w.store.offers :=
  (offers_bumpStats h.store).trans rfl

theorem offers_auctioned {env : Env me} {seller : Address} {item : BulkAuctionItem} {endTime : ℕ}
    {w w' : World Store} (h : Auctioned env seller item endTime w w') :
    w'.store.offers = w.store.offers :=
  (offers_bumpStats h.store).trans rfl

theorem offers_done {env : Env me} {c : Entry} {w w' : World Store} (hc : ¬ HandlesOffer c)
    (hdone : Done env w c w') : w'.store.offers = w.store.offers := by
  cases hdone with
  | init | setPlatformFee | setFeeRecipient | setBidIncrement | setAutoExtension
  | setCurrency | setOracle | registerCollection | setCollectionRoyalties | placeBid => rfl
  | listNft w₁ events hactive hsigned hprice hcurrency hhash hcollection hlisted =>
    show w₁.store.offers = _
    exact offers_listed hlisted
  | buyNft l feeRecipient fee w₁ s events hactive hsigned hl hopen hsold hstats =>
    rw [hsold.store] at hstats
    exact (offers_bumpStats hstats).trans rfl
  | cancelListing l s hsigned hl hopen hseller hstats => exact (offers_bumpStats hstats).trans rfl
  | createEnglishAuction w₁ e events hactive hsigned hstart hcurrency hhash hcollection
      hduration hend hauctioned =>
    show w₁.store.offers = _
    exact offers_auctioned hauctioned
  | settleUnsold a s hactive ha hopen htime hbid hstats => exact (offers_bumpStats hstats).trans rfl
  | settleSold a feeRecipient fee w₁ s events hactive ha hopen htime hbid hsold hstats =>
    rw [hsold.store] at hstats
    exact (offers_bumpStats hstats).trans rfl
  | createDutchAuction w₁ e events hactive hsigned hstart hfloor hcurrency hhash hcollection hprices
      hduration hend hauctioned =>
    show w₁.store.offers = _
    exact offers_auctioned hauctioned
  | buyDutchAuction a price feeRecipient fee w₁ s events hactive hsigned ha hopen htype
      hprice hne hsold hstats =>
    rw [hsold.store] at hstats
    exact (offers_bumpStats hstats).trans rfl
  | cancelDutchAuction a s hsigned ha hopen htype hseller hstats =>
    exact (offers_bumpStats hstats).trans rfl
  | makeOffer | acceptOffer | cancelOffer => exact absurd trivial hc
  | bulkList w' hactive hsigned hlength heach =>
    exact keeps_listed (P := fun s => s.offers = w.store.offers)
      (fun _ _ _ hw hitem => (offers_listed hitem).trans hw) heach rfl
  | bulkCreateAuctions w' hactive hsigned hlength heach =>
    exact keeps_auctioned (P := fun s => s.offers = w.store.offers)
      (fun _ _ _ _ hw hitem => (offers_auctioned hitem).trans hw) heach rfl

theorem tells_makeOffer {env : Env me} {offerer recipient collection : Address} {tokenId amount : ℕ}
    {offerAmount : ℤ} {currency nftCollection : Address} {nftTokenId duration : ℕ} {w : World Store}
    (h : Inv me w.store) :
    Tells w
      (offerEvents w (.call env (.makeOffer offerer recipient collection tokenId amount offerAmount
      currency nftCollection nftTokenId duration)))
      ((makeOffer env offerer recipient collection tokenId amount offerAmount currency nftCollection
        nftTokenId duration).commit w) me := by
  refine value_commit_induct
    (G := fun v w' =>
      Tells w (v.toList.map fun id => DealEvent.opened id (offerMade env offerer recipient
      collection tokenId amount offerAmount currency nftCollection nftTokenId duration id)) w' me)
    (.nothing rfl) fun id w' hok => ?_
  have hid : id = w.store.nextOffer := by
    simp [makeOffer, nextOfferId_ok] at hok
    exact hok.2.2.2.2.2.2.2.2.1
  cases makeOffer_done hok with
  | makeOffer expiresAt events hactive hsigned hamount hcurrency hduration hfits hexpires =>
    obtain ⟨-, rfl⟩ := checkedAddU64_eq_some.mp hexpires
    subst hid
    exact .one (record_set_new (fresh_of_forall h.offerIds) rfl) rfl

theorem tells_acceptOffer {env : Env me} {caller : Address} {id : ℕ} {w : World Store}
    (h : Inv me w.store) :
    Tells w (offerEvents w (.call env (.acceptOffer caller id)))
      ((acceptOffer env caller id).commit w)
      me := by
  refine value_commit_induct
    (G := fun v w' =>
      Tells w (v.toList.map fun _ => DealEvent.closed id OfferStatus.accepted) w' me)
    (.nothing rfl) fun u w' hok => ?_
  cases acceptOffer_done hok with
  | acceptOffer o fee feeRecipient events hactive hsigned ho hopen hrecipient htime hfee
      hfeeRecipient =>
    have hpos := h.offers _ o ho
    have hrate : w.store.getPlatformFeeBps ≤ 10000 := h.fee.2.trans (by decide)
    obtain ⟨-, hfeeEq⟩ := (computePlatformFee_ok hpos.le h.fee.1).mp hfee
    obtain ⟨hfee₀, hfee₁⟩ := bps_bounds hpos.le h.fee.1 hrate
    have hfeeEq' := hfeeEq
    unfold bpsDenom at hfeeEq'
    have hdeal : o.deal = ({ o with status := .pending }, none) := by
      rw [Offer.deal, if_pos hopen]
    refine .one (record_set_old ho hdeal rfl) ⟨o, fee, feeRecipient, ho, hfeeEq, by omega,
      by omega, hfeeRecipient, ?_⟩
    rw [hrecipient]

theorem tells_cancelOffer {env : Env me} {caller : Address} {id : ℕ} (w : World Store) :
    Tells w (offerEvents w (.call env (.cancelOffer caller id)))
      ((cancelOffer env caller id).commit w)
      me := by
  refine value_commit_induct
    (G := fun v w' =>
      Tells w (v.toList.map fun _ => DealEvent.closed id OfferStatus.cancelled) w' me)
    (.nothing rfl) fun u w' hok => ?_
  cases cancelOffer_done hok with
  | cancelOffer o hsigned ho hopen hofferer =>
    have hdeal : o.deal = ({ o with status := .pending }, none) := by
      rw [Offer.deal, if_pos hopen]
    exact .one (record_set_old ho hdeal rfl) ⟨o, ho, rfl⟩

/-- A step tells its caller what it has done to the offers. -/
theorem tells_step {w : World Store} (h : Inv me w.store) {s : Step me Entry}
    (hs : ¬ Initializes s) :
    Tells w (offerEvents w s) (step s w) me := by
  cases s with
  | outside env x => exact .nothing (congrArg Store.offers (store_outsideTransfer env x w))
  | call env c =>
    by_cases hc : HandlesOffer c
    · cases c with
      | makeOffer => exact tells_makeOffer h
      | acceptOffer => exact tells_acceptOffer h
      | cancelOffer => exact tells_cancelOffer w
      | _ => exact absurd hc id
    · have hnone : offerEvents w (.call env c) = [] := by
        cases c with
        | makeOffer | acceptOffer | cancelOffer => exact absurd trivial hc
        | _ => rfl
      rw [hnone]
      apply Tells.nothing
      rcases exec_cases env c w with hsame | hdone
      · exact congrArg (fun w => w.store.offers) hsame
      · exact offers_done hc hdone

/-! ## Every run -/

/-- From the first `initialize` on, without another one, over every run,
    * of every id the returns tell exactly the life of the stored offer: nothing, or that it was
      made with its terms, or that it was made and then closed with its status. So no offer is
      closed twice, and none is both accepted and cancelled;
    * and every one of these returns comes with its payment: the amount is paid in when the offer is
      made, split between the fee and the recipient in exchange for the item when it is accepted,
      and paid back when it is cancelled. -/
theorem offers_settle_once {env : Env me} {admin recipient : Address} {fee increment : ℤ}
    {extension : ℕ} {tokens : TokenLedger} {w : World Store}
    (hinit : init env admin fee recipient increment extension (World.deployed Store.empty tokens) =
      .ok () w)
    (steps : List (Step me Entry)) (honce : ∀ s ∈ steps, ¬ Initializes s) :
    (∀ id, life id (offerDeals (run step w steps).store id) =
      ((trace step w steps).flatMap fun x => offerEvents x.1 x.2).filter fun e => e.key = id) ∧
    ∀ x ∈ trace step w steps, ∀ e ∈ offerEvents x.1 x.2, Settles x.1 (step x.2 x.1) me e := by
  have hnot : ∀ x ∈ trace step w steps, ¬ Initializes x.2 :=
    fun x hx => honce x.2 (mem_of_mem_trace hx)
  constructor
  · have hempty : offerDeals w.store = fun _ => none := by
      cases init_done hinit with
      | init => rfl
    intro id
    have hstep : ∀ (w : World Store) (s : Step me Entry), Inv me w.store → ¬ Initializes s →
        replay Deals.record (offerDeals w.store) (offerEvents w s) =
          some (offerDeals (step s w).store) :=
      fun _ _ h hs => (tells_step h hs).replays
    have hreplay :=
      replay_trace (fun w : World Store => offerDeals w.store) (fun _ _ h hs => h.step hs)
      hstep (Inv.start hinit) hnot
    have hlife := replay_iff.mp hreplay id
    rw [hempty] at hlife
    exact hlife
  · intro x hx
    have hinv : Inv me x.1.store :=
      trace_induct_of_trace (P := fun w : World Store => Inv me w.store)
      (Q := fun _ s => ¬ Initializes s) (fun _ _ h hs => h.step hs) (Inv.start hinit) hnot hx
    exact (tells_step hinv (hnot x hx)).settles

/-- The offerer makes an offer of 50 and cancels it. -/
def cancelledRun : List (Step ⟨0⟩ Entry) :=
  biddenWith 1 ++ [.call (.signedBy ⟨0⟩ 4 4 [⟨3⟩]) (.cancelOffer ⟨3⟩ 1)]

theorem cancelledRun_once : ∀ s ∈ cancelledRun, ¬ Initializes s := by
  intro s hs
  rcases List.mem_append.mp hs with hs | hs
  · exact settledWith_once 1 s (List.mem_append_left _ hs)
  · rw [List.mem_singleton.mp hs]
    exact id

theorem offers_settle_once_cancelled :
    ((trace step opened cancelledRun).flatMap fun x => offerEvents x.1 x.2).filter
    (fun e => e.key = 1) =
      [.opened 1 biddenOffer, .closed 1 .cancelled] :=
  ((offers_settle_once init_opened cancelledRun cancelledRun_once).1 1).symm.trans rfl

end Trellis.Market
