import Trellis.Market.Records

/-!
# Bidding in English auctions

The price, the bidder, the end and the escrowed bid of an English auction change together, in
`place_bid` only. The increment can be configured down to zero; a bid then exceeds the last one by
one unit.

Results:
* `minBid_ok`, `extendedEnd_ok`: the least bid and the new end as the code computes them.
* `acceptedBid_of_done`: what a bid that goes through has checked, and what it leaves.
* `auction_step`: what the other steps can do to a stored auction.
* `english_bidding`: over every run the accepted bids increase, the end never decreases, and what
  each address has paid into the auction is the current bid if it is the current bidder and nothing
  otherwise.
-/

namespace Trellis.Market

open Exec

variable {me : Address}

/-! ## One bid -/

/-- The least bid is the start price at first, and above the current bid then. -/
theorem minBid_ok {a : Auction} {incrementBps least : ℤ} (h : minBid a incrementBps = .ok least) :
    if a.currentBid = 0 then least = a.startPrice else a.currentBid < least := by
  unfold minBid at h
  split_ifs at h ⊢ with hbid
  · exact (Except.ok.inj h).symm
  · simp only [except_bind_ok, orOverflow_ok, checkedAdd_eq_some] at h
    obtain ⟨product, -, increment, -, -, rfl⟩ := h
    have hone : 1 ≤ max increment 1 := le_max_right increment 1
    omega

/-- A bid before the end moves the end to at least the window after it. -/
theorem extendedEnd_ok {a : Auction} {now newEnd : ℕ} (htime : now < a.endTime)
    (h : extendedEnd a now = .ok newEnd) :
    newEnd = max a.endTime (now + a.autoExtensionWindow) := by
  unfold extendedEnd at h
  split_ifs at h with hlate
  · have hend : newEnd = now + a.autoExtensionWindow := by
      cases hsum : checkedAddU64 now a.autoExtensionWindow with
      | none =>
        rw [hsum] at h
        cases h
      | some e =>
        rw [hsum] at h
        cases h
        exact (checkedAddU64_eq_some.mp hsum).2
    omega
  · have hend : a.endTime = newEnd := Except.ok.inj h
    omega

/-- What an accepted bid on the auction `a` has checked and what it leaves: it is above the last bid
    and at least the start price, made before the end by another than the current bidder; the last
    bidder gets the last bid back, and the new one pays; the end is at least the window after the
    bid. -/
structure AcceptedBid (a : Auction) (env : Env me) (bidder : Address) (id : ℕ) (bid : ℤ)
    (w w' : World Store) : Prop where
  above : a.currentBid < bid
  reserve : a.startPrice ≤ bid
  inTime : env.timestamp < a.endTime
  other : a.currentBid = 0 ∨ a.currentBidder ≠ bidder
  auctions : w'.store.auctions = w.store.auctions.insert id { a with
    currentBid := bid
    currentBidder := bidder
    endTime := max a.endTime (env.timestamp + a.autoExtensionWindow) }
  tokens : w'.tokens = w.tokens.moveAll
    ((if a.currentBid = 0 then [] else [⟨a.currency, me, a.currentBidder, a.currentBid⟩]) ++
      [⟨a.currency, bidder, me, bid⟩])

/-- What holds of the prices of a stored auction: the start price is positive, and a bid is at least
    that. -/
structure Auction.Priced (a : Auction) : Prop where
  start_pos : 0 < a.startPrice
  reserve : a.currentBid = 0 ∨ a.startPrice ≤ a.currentBid

theorem exists_auction_of_bid {env : Env me} {bidder : Address} {id : ℕ} {bid : ℤ}
    {w w' : World Store} (hdone : Done env w (.placeBid bidder id bid) w') :
    ∃ a, w.store.auctions.lookup id = some a := by
  cases hdone with
  | placeBid a least newEnd events hactive hsigned hbid ha => exact ⟨a, ha⟩

theorem acceptedBid_of_done {env : Env me} {bidder : Address} {id : ℕ} {bid : ℤ}
    {w w' : World Store} (h : Inv me w.store) {a : Auction}
    (ha : w.store.auctions.lookup id = some a) (hpriced : a.Priced)
    (hdone : Done env w (.placeBid bidder id bid) w') : AcceptedBid a env bidder id bid w w' := by
  cases hdone with
  | placeBid a' least newEnd events hactive hsigned hbid ha' hopen htype htime hleast hle hother
      hend =>
    rw [ha] at ha'
    cases ha'
    have hok := h.auctions id a ha
    have hleast := minBid_ok hleast
    have hend := extendedEnd_ok htime hend
    have hstart := hpriced.start_pos
    have hreserve := hpriced.reserve
    have hnonneg := hok.bid_nonneg
    refine ⟨?_, ?_, htime, ?_, ?_, ?_⟩
    · split_ifs at hleast <;> omega
    · split_ifs at hleast with hzero
      · omega
      · rcases hreserve with hnone | hreserve
        · exact absurd hnone hzero
        · omega
    · rw [not_and_or, not_lt] at hother
      rcases hother with hzero | hother
      · exact .inl (le_antisymm hzero hnonneg)
      · exact .inr hother
    · rw [hend]
    · show w.tokens.moveAll _ = w.tokens.moveAll _
      congr 2
      unfold Transfer.ifPos
      dsimp only
      by_cases hzero : a.currentBid = 0
      · rw [if_pos hzero, if_neg (by omega)]
      · rw [if_neg hzero, if_pos (by omega)]

/-- What an address sends to the marketplace in a bid on an auction, or gets back from it. -/
theorem net_of_ne {token t b other : Address} {n : ℤ} (hb : b ≠ me) :
    Transfer.net t b ⟨token, me, other, n⟩ = (if b = other then amountIn token t n else 0) ∧
      Transfer.net t b ⟨token, other, me, n⟩ = - if b = other then amountIn token t n else 0 := by
  unfold Transfer.net amountIn
  by_cases hother : b = other
  · subst hother
    by_cases htoken : token = t <;> simp [htoken, hb.symm]
  · have hne : ¬ other = b := fun heq => hother heq.symm
    simp [hother, hne, hb.symm]

/-- An accepted bid takes the bid from the bidder and gives the last bidder the last bid back. -/
theorem AcceptedBid.paid {a : Auction} {env : Env me} {bidder : Address} {id : ℕ} {bid : ℤ}
    {w w' : World Store} (h : AcceptedBid a env bidder id bid w w') {b : Address} (hb : b ≠ me) :
    w.tokens.balance a.currency b - w'.tokens.balance a.currency b =
      (if b = bidder then bid else 0) - if b = a.currentBidder then a.currentBid else 0 := by
  have hin : ∀ n, amountIn a.currency a.currency n = n := fun n => if_pos rfl
  have hrefund : netAll a.currency b
      (if a.currentBid = 0 then []
        else [(⟨a.currency, me, a.currentBidder, a.currentBid⟩ : TokenTransfer)]) =
      if b = a.currentBidder then a.currentBid else 0 := by
    split_ifs with hzero hbidder hbidder
    · rw [netAll_nil, hzero]
    · rw [netAll_nil]
    · rw [netAll_cons, netAll_nil, (net_of_ne hb).1, if_pos hbidder, hin, add_zero]
    · rw [netAll_cons, netAll_nil, (net_of_ne hb).1, if_neg hbidder, add_zero]
  rw [h.tokens, Ledger.balance_moveAll, netAll_append, hrefund, netAll_cons, netAll_nil,
    (net_of_ne hb).2, hin]
  omega

/-! ## The other steps -/

/-- A new auction: no bid yet, a positive start price. -/
structure Auction.Fresh (me : Address) (a : Auction) : Prop where
  bid : a.currentBid = 0
  bidder : a.currentBidder = me
  start_pos : 0 < a.startPrice

/-- The auctions are the same, but for new ones. -/
def OpensOnly (me : Address) (m m' : Table ℕ Auction) : Prop :=
  ∀ id, m'.lookup id = m.lookup id ∨ m.lookup id = none ∧ ∃ a, m'.lookup id = some a ∧ a.Fresh me

theorem OpensOnly.refl (m : Table ℕ Auction) : OpensOnly me m m := fun _ => .inl rfl

theorem OpensOnly.trans {m m' m'' : Table ℕ Auction} (h : OpensOnly me m m')
    (h' : OpensOnly me m' m'') : OpensOnly me m m'' := by
  intro id
  rcases h id with hsame | ⟨hnone, a, ha, hfresh⟩
  · rw [← hsame]
    exact h' id
  · rcases h' id with hsame' | ⟨hnone', -⟩
    · exact .inr ⟨hnone, a, hsame'.trans ha, hfresh⟩
    · rw [ha] at hnone'
      cases hnone'

theorem opensOnly_auctioned {env : Env me} {seller : Address} {item : BulkAuctionItem} {endTime : ℕ}
    {w w' : World Store} (h : Inv me w.store) (hstart : 0 < item.startPrice)
    (ha : Auctioned env seller item endTime w w') :
    OpensOnly me w.store.auctions w'.store.auctions := by
  obtain ⟨-, hauctions⟩ := same_bumpStats ha.store
  have hinsert : w'.store.auctions = w.store.auctions.insert w.store.nextAuction
    (w.store.newAuction me env.timestamp seller item endTime) := hauctions.table
  intro id
  rw [hinsert, Table.lookup_set]
  split_ifs with hid
  · rw [hid, fresh_of_forall h.auctionIds]
    exact .inr ⟨rfl, _, rfl, ⟨rfl, rfl, hstart⟩⟩
  · exact .inl rfl

/-- A step that is no bid on the auction leaves it alone, opens it, or changes its status only. -/
theorem auction_step {w : World Store} (h : Inv me w.store) {s : Step me Entry}
    (hs : ¬ Initializes s) {id : ℕ}
    (hbid : ∀ env bidder amount, s ≠ .call env (.placeBid bidder id amount)) :
    (step s w).store.auctions.lookup id = w.store.auctions.lookup id ∨
      (w.store.auctions.lookup id = none ∧
        ∃ a, (step s w).store.auctions.lookup id = some a ∧ a.Fresh me) ∨
      ∃ a status, w.store.auctions.lookup id = some a ∧
        (step s w).store.auctions.lookup id = some { a with status := status } := by
  cases effect_step h hs with
  | idle paid hlistings hauctions =>
    left
    rw [hauctions.table]
  | @listed env seller items w₁ _ hsigned heach hstore htokens =>
    left
    rw [hstore, (sameAuctions_listings heach).table]
  | auctioned w₁ _ hsigned heach hstore htokens =>
    rw [hstore]
    have hopens : OpensOnly me w.store.auctions w₁.store.auctions := by
      refine (heach.induct (P := fun w => Inv me w.store)
        (T := fun w w' => OpensOnly me w.store.auctions w'.store.auctions)
        (fun w => OpensOnly.refl w.store.auctions) (fun _ _ _ => OpensOnly.trans) ?_ h).2
      intro item w w' hw hitem
      rcases hitem with ⟨hstart, endTime, hauctioned⟩ | rfl
      · exact ⟨hw.auctioned hsigned hauctioned, opensOnly_auctioned hw hstart hauctioned⟩
      · exact ⟨hw, OpensOnly.refl w'.store.auctions⟩
    rcases hopens id with hsame | hopened
    · exact .inl hsame
    · exact .inr (.inl hopened)
  | @bid env bidder id' amount a endTime paid hcall hdone ha hopen hlistings hauctions =>
    left
    have hother : id ≠ id' := by
      rintro rfl
      exact hbid env bidder amount hcall
    rw [hauctions, Table.lookup_set, if_neg hother]
  | listingClosed l status dst paid hrelease hdst hl hopen hstatus hlistings hseq hauctions =>
    left
    rw [hauctions.table]
  | @auctionClosed id' a status dst paid hrelease hdst ha hopen hstatus hlistings hauctions =>
    rw [hauctions, Table.lookup_set]
    split_ifs with hid
    · subst hid
      exact .inr (.inr ⟨a, status, ha, rfl⟩)
    · exact .inl rfl

/-! ## Every step -/

/-- The amount of the bid on the auction that the step is, if it is accepted. -/
def bidOn (id : ℕ) (w : World Store) : Step me Entry → Option ℤ
  | .call env (.placeBid bidder id' bid) =>
    if id' = id then ((placeBid env bidder id' bid).value w).map fun _ => bid else none
  | _ => none

/-- What the address `b` pays into the auction in a step: what an accepted bid on it takes from the
    balance of `b` in its currency. -/
def paidInto (id : ℕ) (b : Address) (w : World Store) (s : Step me Entry) : ℤ :=
  if (bidOn id w s).isSome = true then
    (w.store.auctions.lookup id).elim 0 fun a =>
      w.tokens.balance a.currency b - (step s w).tokens.balance a.currency b
  else 0

/-- What a step can do to the auction `id`. -/
inductive AuctionChange (id : ℕ) (w : World Store) (s : Step me Entry)
    (w' : World Store) : Prop where
  | same (hbid : bidOn id w s = none)
      (hsame : w'.store.auctions.lookup id = w.store.auctions.lookup id)
  | opened (a : Auction) (hbid : bidOn id w s = none) (hnone : w.store.auctions.lookup id = none)
      (ha : w'.store.auctions.lookup id = some a) (hfresh : a.Fresh me)
  | status (a : Auction) (status : AuctionStatus) (hbid : bidOn id w s = none)
      (ha : w.store.auctions.lookup id = some a)
      (ha' : w'.store.auctions.lookup id = some { a with status := status })
  | bid {env : Env me} {bidder : Address} {amount : ℤ} (a : Auction)
      (hbid : bidOn id w s = some amount) (ha : w.store.auctions.lookup id = some a)
      (haccepted : AcceptedBid a env bidder id amount w w')

/-- The auctions are priced. -/
def Priced (w : World Store) : Prop := w.store.auctions.Forall fun _ a => a.Priced

theorem auction_change {w : World Store} (h : Inv me w.store) (hpriced : Priced w)
    {s : Step me Entry} (hs : ¬ Initializes s) (id : ℕ) : AuctionChange id w s (step s w) := by
  by_cases hcall : ∃ env bidder amount, s = .call env (.placeBid bidder id amount)
  · obtain ⟨env, bidder, amount, rfl⟩ := hcall
    have hbidOn : bidOn id w (.call env (.placeBid bidder id amount)) =
        ((placeBid env bidder id amount).value w).map fun _ => amount := if_pos rfl
    rcases commit_cases (placeBid env bidder id amount) w with ⟨u, hok⟩ | ⟨hfails, hsame⟩
    · have hdone := placeBid_done hok
      obtain ⟨a, ha⟩ := exists_auction_of_bid hdone
      refine .bid a ?_ ha (acceptedBid_of_done h ha (hpriced id a ha) hdone)
      rw [hbidOn, value_eq_some.mpr hok, Option.map_some]
    · refine .same ?_ ?_
      · rw [hbidOn, value_eq_none.mpr hfails, Option.map_none]
      · show ((placeBid env bidder id amount).commit w).store.auctions.lookup id = _
        rw [hsame]
  · have hother : ∀ env bidder amount, s ≠ .call env (.placeBid bidder id amount) :=
      fun env bidder amount heq => hcall ⟨env, bidder, amount, heq⟩
    have hbidOn : bidOn id w s = none := by
      unfold bidOn
      split
      · rw [if_neg]
        rintro rfl
        exact hother _ _ _ rfl
      · rfl
    rcases auction_step h hs hother with hsame | ⟨hnone, a, ha, hfresh⟩ | ⟨a, status, ha, ha'⟩
    · exact .same hbidOn hsame
    · exact .opened a hbidOn hnone ha hfresh
    · exact .status a status hbidOn ha ha'

theorem AcceptedBid.lookup {a : Auction} {env : Env me} {bidder : Address} {id : ℕ} {bid : ℤ}
    {w w' : World Store} (h : AcceptedBid a env bidder id bid w w') :
    w'.store.auctions.lookup id = some { a with
      currentBid := bid
      currentBidder := bidder
      endTime := max a.endTime (env.timestamp + a.autoExtensionWindow) } := by
  rw [h.auctions, Table.lookup_set, if_pos rfl]

/-- The later state of an auction as a bidder sees it. -/
structure Auction.Bidden (a a' : Auction) : Prop where
  auctionType : a'.auctionType = a.auctionType
  startPrice : a'.startPrice = a.startPrice
  endTime : a.endTime ≤ a'.endTime
  currentBid : a.currentBid ≤ a'.currentBid

theorem Auction.Bidden.refl (a : Auction) : a.Bidden a := ⟨rfl, rfl, le_rfl, le_rfl⟩

theorem Auction.Bidden.trans (a a' a'' : Auction) (h : a.Bidden a') (h' : a'.Bidden a'') :
    a.Bidden a'' :=
  ⟨h'.auctionType.trans h.auctionType, h'.startPrice.trans h.startPrice, h.endTime.trans h'.endTime,
    h.currentBid.trans h'.currentBid⟩

/-- The current bid of the auction. -/
def bidOf (id : ℕ) (w : World Store) : ℤ := (w.store.auctions.lookup id).elim 0 Auction.currentBid

/-- What is held of the address `b` for the auction: the current bid if it is the current bidder. -/
def heldFrom (id : ℕ) (b : Address) (w : World Store) : ℤ :=
  (w.store.auctions.lookup id).elim 0 fun a => if b = a.currentBidder then a.currentBid else 0

section

variable {w : World Store} (h : Inv me w.store) (hpriced : Priced w) {s : Step me Entry}
  (hs : ¬ Initializes s)

include h hpriced hs

theorem priced_step : Priced (step s w) := by
  intro id a' ha'
  cases auction_change h hpriced hs id with
  | same _ hsame =>
    rw [hsame] at ha'
    exact hpriced id a' ha'
  | opened a _ _ ha hfresh =>
    rw [ha] at ha'
    cases ha'
    exact ⟨hfresh.start_pos, .inl hfresh.bid⟩
  | status a status _ ha hstatus =>
    rw [hstatus] at ha'
    cases ha'
    have hold := hpriced id a ha
    exact ⟨hold.start_pos, hold.reserve⟩
  | bid a _ ha haccepted =>
    rw [haccepted.lookup] at ha'
    cases ha'
    exact ⟨(hpriced id a ha).start_pos, .inr haccepted.reserve⟩

theorem bidden_step :
    Table.Evolves Auction.Bidden w.store.auctions (step s w).store.auctions := by
  intro id a ha
  cases auction_change h hpriced hs id with
  | same _ hsame => exact ⟨a, hsame.trans ha, Auction.Bidden.refl a⟩
  | opened a' _ hnone =>
    rw [ha] at hnone
    cases hnone
  | status a' status _ ha' hstatus =>
    rw [ha] at ha'
    cases ha'
    exact ⟨_, hstatus, rfl, rfl, le_rfl, le_rfl⟩
  | bid a' _ ha' haccepted =>
    rw [ha] at ha'
    cases ha'
    exact ⟨_, haccepted.lookup, rfl, rfl, le_max_left _ _, haccepted.above.le⟩

/-- An accepted bid is above the stored one, and becomes it. -/
theorem bidOf_step (id : ℕ) : bidOf id w ≤ bidOf id (step s w) ∧
    ∀ bid, bidOn id w s = some bid → bidOf id w < bid ∧ bid ≤ bidOf id (step s w) := by
  unfold bidOf
  cases auction_change h hpriced hs id with
  | same hbid hsame =>
    rw [hsame, hbid]
    exact ⟨le_rfl, fun bid hnone => by cases hnone⟩
  | opened a hbid hnone ha hfresh =>
    rw [hnone, ha, hbid, Option.elim_none, Option.elim_some, hfresh.bid]
    exact ⟨le_rfl, fun bid hnone => by cases hnone⟩
  | status a status hbid ha ha' =>
    rw [ha, ha', hbid]
    exact ⟨le_rfl, fun bid hnone => by cases hnone⟩
  | @bid env bidder amount a hbid ha haccepted =>
    rw [ha, haccepted.lookup, hbid, Option.elim_some, Option.elim_some]
    have habove := haccepted.above
    refine ⟨habove.le, fun bid hsome => ?_⟩
    obtain rfl : amount = bid := Option.some.inj hsome
    exact ⟨habove, le_rfl⟩

/-- A step changes what is held of an address for the auction by what the address pays into it. -/
theorem heldFrom_step (id : ℕ) {b : Address} (hb : b ≠ me) :
    heldFrom id b (step s w) = heldFrom id b w + paidInto id b w s := by
  unfold heldFrom paidInto
  cases auction_change h hpriced hs id with
  | same hbid hsame => simp [hsame, hbid]
  | opened a hbid hnone ha hfresh => simp [hnone, ha, hbid, hfresh.bid]
  | status a status hbid ha ha' => simp [ha, ha', hbid]
  | @bid env bidder amount a hbid ha haccepted =>
    rw [ha, haccepted.lookup, hbid, Option.isSome_some, if_pos rfl, Option.elim_some,
      Option.elim_some, Option.elim_some, haccepted.paid hb]
    dsimp only
    omega

end

/-! ## Runs -/

section

variable {w : World Store} (h : Inv me w.store ∧ Priced w) {steps : List (Step me Entry)}
  (honce : ∀ x ∈ trace step w steps, ¬ Initializes x.2)

include h honce

theorem bidding_run : Inv me (run step w steps).store ∧ Priced (run step w steps) :=
  run_induct_of_trace (P := fun w : World Store => Inv me w.store ∧ Priced w)
    (Q := fun _ s => ¬ Initializes s)
      (fun _ _ h hs => ⟨h.1.step hs, priced_step h.1 h.2 hs⟩) h honce

theorem bidding_trace {x : World Store × Step me Entry} (hx : x ∈ trace step w steps) :
    Inv me x.1.store ∧ Priced x.1 :=
  trace_induct_of_trace (P := fun w : World Store => Inv me w.store ∧ Priced w)
    (Q := fun _ s => ¬ Initializes s)
      (fun _ _ h hs => ⟨h.1.step hs, priced_step h.1 h.2 hs⟩) h honce
    hx

theorem bidden_run :
    Table.Evolves Auction.Bidden w.store.auctions (run step w steps).store.auctions :=
  Table.Evolves.run_of_trace (P := fun w : World Store => Inv me w.store ∧ Priced w)
    (Q := fun _ s => ¬ Initializes s) (fun w : World Store => w.store.auctions) Auction.Bidden.refl
    Auction.Bidden.trans (fun _ _ h hs => ⟨h.1.step hs, priced_step h.1 h.2 hs⟩)
    (fun _ _ h hs => bidden_step h.1 h.2 hs) h honce

theorem bids_increasing (id : ℕ) : (yields step (bidOn id) w steps).Pairwise (· < ·) ∧
    ∀ bid ∈ yields step (bidOn id) w steps, bidOf id w < bid ∧ bid ≤ bidOf id (run step w steps) :=
  yields_increasing (P := fun w : World Store => Inv me w.store ∧ Priced w)
    (N := fun _ s => ¬ Initializes s) (bidOf id)
    (fun _ _ h hs => ⟨h.1.step hs, priced_step h.1 h.2 hs⟩)
    (fun _ _ h hs => bidOf_step h.1 h.2 hs id) h honce

theorem reserve_of_mem_yields {id : ℕ} {a : Auction}
    (ha : (run step w steps).store.auctions.lookup id = some a) {bid : ℤ}
    (hbid : bid ∈ yields step (bidOn id) w steps) : a.startPrice ≤ bid := by
  obtain ⟨x, hx, hout⟩ := List.mem_filterMap.mp hbid
  obtain ⟨hinv, hpriced⟩ := bidding_trace h honce hx
  obtain ⟨pre, post, hsplit, hstate⟩ := mem_trace_iff.mp hx
  cases auction_change hinv hpriced (honce x hx) id with
  | same hnone | opened _ hnone | status _ _ hnone =>
    rw [hout] at hnone
    cases hnone
  | @bid env bidder amount a₁ hsome ha₁ haccepted =>
    have hamount : amount = bid := Option.some.inj (hsome.symm.trans hout)
    have hrest : ∀ y ∈ trace step x.1 (x.2 :: post), ¬ Initializes y.2 := by
      intro y hy
      apply honce y
      rw [hsplit, trace_append, ← hstate]
      exact List.mem_append_right _ hy
    obtain ⟨a₂, ha₂, hlater⟩ := bidden_run ⟨hinv, hpriced⟩ hrest id a₁ ha₁
    rw [hstate, ← run_append, ← hsplit, ha] at ha₂
    cases ha₂
    have hreserve := haccepted.reserve
    rw [hlater.startPrice, ← hamount]
    exact hreserve

theorem heldFrom_run (id : ℕ) {b : Address} (hb : b ≠ me) :
    heldFrom id b (run step w steps) =
      heldFrom id b w + ((trace step w steps).map fun x => paidInto id b x.1 x.2).sum :=
  run_eq_add_sum_of_trace (P := fun w : World Store => Inv me w.store ∧ Priced w)
    (N := fun _ s => ¬ Initializes s) (heldFrom id b)
    (fun _ _ h hs => ⟨h.1.step hs, priced_step h.1 h.2 hs⟩)
    (fun _ _ h hs => heldFrom_step h.1 h.2 hs id hb) h honce

end

theorem end_le_of_settled {env : Env me} {id : ℕ} {w w' : World Store} {a : Auction}
    (ha : w.store.auctions.lookup id = some a) (hdone : Done env w (.settleEnglishAuction id) w') :
    a.endTime ≤ env.timestamp := by
  cases hdone with
  | settleUnsold a' s hactive ha' hopen htime =>
    rw [ha] at ha'
    cases ha'
    exact htime
  | settleSold a' feeRecipient platformFee w₁ s events hactive ha' hopen htime =>
    rw [ha] at ha'
    cases ha'
    exact htime

theorem auctions_init {env : Env me} {admin recipient : Address} {fee increment : ℤ}
    {extension : ℕ} {tokens : TokenLedger} {w : World Store} {u : Unit}
    (h : init env admin fee recipient increment extension (World.deployed Store.empty tokens) =
      .ok u w) : w.store.auctions = ∅ := by
  cases init_done h with
  | init events hfee hincrement => rfl

/-- From the first `initialize` on, without another one, for every stored auction:
    * a bid that goes through is above the last one and at least the start price, made before the
      end; it returns the last bid to the last bidder, and moves the end to at least the window
      after it;
    * the auction is settled at its end or later;
    * its end and its bid never decrease;
    * the accepted bids increase, and none is below the start price;
    * what each address has paid into it is the current bid if it is the current bidder, and nothing
      otherwise. -/
theorem english_bidding {env₀ : Env me} {admin recipient : Address} {fee increment : ℤ}
    {extension : ℕ} {tokens : TokenLedger} {w : World Store}
    (hinit : init env₀ admin fee recipient increment extension (World.deployed Store.empty tokens) =
      .ok () w) (steps : List (Step me Entry)) (honce : ∀ s ∈ steps, ¬ Initializes s) {id : ℕ}
    {a : Auction} (ha : (run step w steps).store.auctions.lookup id = some a) :
    (∀ (env : Env me) bidder bid w', placeBid env bidder id bid (run step w steps) = .ok () w' →
      AcceptedBid a env bidder id bid (run step w steps) w') ∧
    (∀ (env : Env me) w', settleEnglishAuction env id (run step w steps) = .ok () w' →
      a.endTime ≤ env.timestamp) ∧
    (∀ pre post a₀, steps = pre ++ post → (run step w pre).store.auctions.lookup id = some a₀ →
      a₀.Bidden a) ∧
    (yields step (bidOn id) w steps).Pairwise (· < ·) ∧
    (∀ bid ∈ yields step (bidOn id) w steps, a.startPrice ≤ bid ∧ bid ≤ a.currentBid) ∧
    ∀ b, b ≠ me → ((trace step w steps).map fun x => paidInto id b x.1 x.2).sum =
      if b = a.currentBidder then a.currentBid else 0 := by
  have hempty := auctions_init hinit
  have hpriced : Priced w := by
    rw [Priced, hempty]
    exact Table.Forall.empty _
  have hstart : Inv me w.store ∧ Priced w := ⟨Inv.start hinit, hpriced⟩
  have hsteps : ∀ x ∈ trace step w steps, ¬ Initializes x.2 :=
    fun x hx => honce x.2 (mem_of_mem_trace hx)
  obtain ⟨hinv, hpriced⟩ := bidding_run hstart hsteps
  refine ⟨?_, ?_, ?_, (bids_increasing hstart hsteps id).1, ?_, ?_⟩
  · intro env bidder bid w' hok
    exact acceptedBid_of_done hinv ha (hpriced id a ha) (placeBid_done hok)
  · intro env w' hok
    exact end_le_of_settled ha (settleEnglishAuction_done hok)
  · rintro pre post a₀ rfl ha₀
    rw [trace_append] at hsteps
    have hpre := bidding_run hstart fun x hx => hsteps x (List.mem_append_left _ hx)
    obtain ⟨a', ha', hlater⟩ :=
      bidden_run hpre (fun x hx => hsteps x (List.mem_append_right _ hx)) id a₀ ha₀
    rw [← run_append, ha] at ha'
    cases ha'
    exact hlater
  · intro bid hbid
    refine ⟨reserve_of_mem_yields hstart hsteps ha hbid, ?_⟩
    have hle := ((bids_increasing hstart hsteps id).2 bid hbid).2
    rwa [bidOf, ha] at hle
  · intro b hb
    have hrun := heldFrom_run hstart hsteps id hb
    have hzero : heldFrom id b w = 0 := by
      rw [heldFrom, hempty]
      rfl
    rw [hzero, zero_add, heldFrom, ha] at hrun
    exact hrun.symm

/-- Two bidders `⟨3⟩` and `⟨4⟩` with 100 each, and a seller with an item. -/
def biddersFunds : TokenLedger := .ofList [(⟨7⟩, ⟨2⟩, 1), (⟨9⟩, ⟨3⟩, 100), (⟨9⟩, ⟨4⟩, 100)]

def biddersOpened : World Store :=
  (init (Env.signedBy ⟨0⟩ 1 1 []) ⟨1⟩ 1000 ⟨8⟩ 500 300).commit
    (World.deployed Store.empty biddersFunds)

/-- The bid of 10 is outbid by the other bidder. -/
def outbidRun : List (Step ⟨0⟩ Entry) :=
  openedWith 1 ++
    [.call (.signedBy ⟨0⟩ 1 1 [⟨2⟩]) (.createEnglishAuction ⟨2⟩ ⟨7⟩ 1 1 10 ⟨9⟩ 10 someHash),
      .call (.signedBy ⟨0⟩ 2 2 [⟨3⟩]) (.placeBid ⟨3⟩ 1 10),
      .call (.signedBy ⟨0⟩ 3 3 [⟨4⟩]) (.placeBid ⟨4⟩ 1 20)]

theorem outbidRun_once : ∀ s ∈ outbidRun, ¬ Initializes s := by
  intro s hs
  simp only [outbidRun, openedWith, List.cons_append, List.nil_append, List.mem_cons,
    List.not_mem_nil, or_false] at hs
  rcases hs with rfl | rfl | rfl | rfl | rfl <;> exact id

theorem lookup_outbid : (run step biddersOpened outbidRun).store.auctions.lookup 1 =
    some { biddenAuction with currentBid := 20, currentBidder := ⟨4⟩, endTime := 303 } := rfl

/-- The bids are 10 and 20; the first bidder has its 10 back, and the second has paid 20. -/
theorem english_bidding_outbid :
    yields step (bidOn 1) biddersOpened outbidRun = [10, 20] ∧
      (yields step (bidOn 1) biddersOpened outbidRun).Pairwise (· < ·) ∧
      ((trace step biddersOpened outbidRun).map fun x => paidInto 1 ⟨3⟩ x.1 x.2).sum = 0 ∧
      ((trace step biddersOpened outbidRun).map fun x => paidInto 1 ⟨4⟩ x.1 x.2).sum = 20 := by
  have hinit : init (Env.signedBy ⟨0⟩ 1 1 []) ⟨1⟩ 1000 ⟨8⟩ 500 300
      (World.deployed Store.empty biddersFunds) = .ok () biddersOpened := rfl
  have hall := english_bidding hinit outbidRun outbidRun_once lookup_outbid
  have hpaid := hall.2.2.2.2.2
  exact ⟨rfl, hall.2.2.2.1, hpaid ⟨3⟩ (by decide), hpaid ⟨4⟩ (by decide)⟩

end Trellis.Market
