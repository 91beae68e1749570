import Trellis.Market.Invariant
import Trellis.Market.Sales

/-!
# Collection statistics

Each collection carries two counters, of its active listings and its open auctions, that ten
operations change through `update_collection_stats` while they write the records. The helper does
not lower a counter at zero.

Results:
* `bumped_exact`: a counter that does not fall below zero changes by what it is given.
* `Counted.bump`: when the records of a collection and its counters change by the same numbers, the
  counters stay exact.
* `statistics_exact`: in every state from the first `initialize` on the counters of every collection
  are the numbers of its records, and the record that a call closes is counted.
-/

namespace Trellis.Market

open Exec

variable {me : Address}

/-! ## What is counted -/

/-- An active listing of the collection. -/
def Listing.activeIn (collection : Address) (l : Listing) : Bool :=
  decide (l.collection = collection ∧ l.status = .active)

/-- An auction of the collection that is neither settled nor cancelled. -/
def Auction.openIn (collection : Address) (a : Auction) : Bool :=
  decide (a.collection = collection ∧ a.status ≠ .settled ∧ a.status ≠ .cancelled)

/-- The number of active listings of a collection. -/
def Store.listingsOf (s : Store) (collection : Address) : ℕ :=
  s.listings.countIf (Listing.activeIn collection)

/-- The number of auctions of a collection that are neither settled nor cancelled. -/
def Store.auctionsOf (s : Store) (collection : Address) : ℕ :=
  s.auctions.countIf (Auction.openIn collection)

/-- The counters of every collection are exact, and every record belongs to a registered one. -/
structure Counted (s : Store) : Prop where
  exact : ∀ c info, s.collection? c = some info →
    info.activeListings = s.listingsOf c ∧ info.activeAuctions = s.auctionsOf c
  listings : s.listings.Forall fun _ l => (s.collection? l.collection).isSome = true
  auctions : s.auctions.Forall fun _ a => (s.collection? a.collection).isSome = true

/-- What a number of each collection changes by, when that of one collection changes by `d`. -/
def deltaOf (collection : Address) (d : ℤ) (c : Address) : ℤ := if c = collection then d else 0

theorem deltaOf_zero (collection c : Address) : deltaOf collection 0 c = 0 := ite_self 0

/-! ## Counters -/

/-- A counter that does not fall below zero changes by what it is given. -/
theorem bumped_exact {n m : ℕ} {d : ℤ} (h : bumped n d = some m) (hnonneg : 0 ≤ (n : ℤ) + d) :
    (m : ℤ) = n + d := by
  unfold bumped at h
  split_ifs at h with hpos hneg hle
  · obtain ⟨-, rfl⟩ := checkedAddU32_eq_some.mp h
    omega
  · obtain rfl := Option.some.inj h
    omega
  · obtain rfl := Option.some.inj h
    omega

theorem bumped_down {n : ℕ} (h : 0 < n) : bumped n (-1) = some (n - 1) := by
  unfold bumped
  rw [if_neg (by decide), if_pos ⟨by decide, h⟩]
  exact if_pos h

/-- Changing the counters of a collection keeps every other collection, and which are registered. -/
theorem collection?_bumpStats {s s' : Store} {collection : Address} {dl da : ℤ}
    (h : s.bumpStats collection dl da = some s') (c : Address) :
    (s'.collection? c).isSome = (s.collection? c).isSome ∧
      ∀ info', s'.collection? c = some info' → ∃ info, s.collection? c = some info ∧
        (if c = collection then bumped info.activeListings dl = some info'.activeListings ∧
          bumped info.activeAuctions da = some info'.activeAuctions else info' = info) := by
  unfold Store.bumpStats at h
  cases hinfo : s.collection? collection with
  | none =>
    rw [hinfo] at h
    cases h
    refine ⟨rfl, fun info' hinfo' => ⟨info', hinfo', ?_⟩⟩
    have hne : c ≠ collection := by
      rintro rfl
      rw [hinfo] at hinfo'
      cases hinfo'
    rw [if_neg hne]
  | some info =>
    rw [hinfo] at h
    simp only [Option.bind_eq_bind, Option.bind_eq_some_iff, Option.some.injEq] at h
    obtain ⟨listings, hlistings, auctions, hauctions, rfl⟩ := h
    rw [Store.collection?_set]
    by_cases hc : c = collection
    · rw [if_pos hc, hc, hinfo]
      refine ⟨rfl, fun info' hinfo' => ⟨info, rfl, ?_⟩⟩
      obtain rfl := Option.some.inj hinfo'
      rw [if_pos rfl]
      exact ⟨hlistings, hauctions⟩
    · rw [if_neg hc]
      refine ⟨rfl, fun info' hinfo' => ⟨info', hinfo', ?_⟩⟩
      rw [if_neg hc]

theorem registered_of_acceptsListing {s : Store} {item : BulkListingItem}
    (h : s.acceptsListing item = true) : (s.collection? item.collection).isSome = true := by
  simp only [Store.acceptsListing, Bool.and_eq_true] at h
  exact h.2

theorem registered_of_acceptsAuction {s : Store} {item : BulkAuctionItem}
    (h : s.acceptsAuction item = true) : (s.collection? item.collection).isSome = true := by
  simp only [Store.acceptsAuction, Bool.and_eq_true] at h
  exact h.2

/-! ## Numbers of records -/

section

variable {s : Store} {id : ℕ}

theorem listingsOf_add {l : Listing} (hnew : s.listings.lookup l.id = none)
    (hactive : l.status = .active) (c : Address) :
    ((s.addListing l).listingsOf c : ℤ) = s.listingsOf c + deltaOf l.collection 1 c := by
  unfold Store.listingsOf Store.addListing deltaOf
  rw [Table.countIf_set_new hnew]
  by_cases hc : c = l.collection
  · simp [Listing.activeIn, hactive, hc]
  · simp [Listing.activeIn, hactive, hc, Ne.symm hc]

theorem listingsOf_close {l : Listing} (hl : s.listings.lookup id = some l)
    (hactive : l.status = .active) {status : ListingStatus} (hclosed : status ≠ .active)
    (c : Address) :
    (Store.listingsOf
      { s with listings := s.listings.insert id { l with status := status } } c : ℤ) =
        s.listingsOf c + deltaOf l.collection (-1) c := by
  unfold Store.listingsOf deltaOf
  rw [Table.countIf_set_old hl]
  by_cases hc : c = l.collection
  · simp [Listing.activeIn, hactive, hclosed, hc, sub_eq_add_neg]
  · simp [Listing.activeIn, hactive, hc, Ne.symm hc]

theorem auctionsOf_add {a : Auction} (hnew : s.auctions.lookup a.id = none)
    (hactive : a.status = .active) (c : Address) :
    ((s.addAuction a).auctionsOf c : ℤ) = s.auctionsOf c + deltaOf a.collection 1 c := by
  unfold Store.auctionsOf Store.addAuction deltaOf
  rw [Table.countIf_set_new hnew]
  by_cases hc : c = a.collection
  · simp [Auction.openIn, hactive, hc]
  · simp [Auction.openIn, hactive, hc, Ne.symm hc]

theorem auctionsOf_close {a : Auction} (ha : s.auctions.lookup id = some a)
    (hopen : a.status = .active ∨ a.status = .ended) {status : AuctionStatus}
    (hclosed : status = .settled ∨ status = .cancelled) (c : Address) :
    (Store.auctionsOf
      { s with auctions := s.auctions.insert id { a with status := status } } c : ℤ) =
        s.auctionsOf c + deltaOf a.collection (-1) c := by
  have hbefore : a.status ≠ .settled ∧ a.status ≠ .cancelled := by
    rcases hopen with h | h <;> simp [h]
  have hafter : ¬ (status ≠ .settled ∧ status ≠ .cancelled) := by
    rcases hclosed with h | h <;> simp [h]
  unfold Store.auctionsOf deltaOf
  rw [Table.countIf_set_old ha]
  by_cases hc : c = a.collection
  · simp [Auction.openIn, hbefore, hafter, hc, sub_eq_add_neg]
  · simp [Auction.openIn, hc, Ne.symm hc]

theorem auctionsOf_bid {a a' : Auction} (ha : s.auctions.lookup id = some a)
    (hcollection : a'.collection = a.collection) (hstatus : a'.status = a.status) (c : Address) :
    Store.auctionsOf { s with auctions := s.auctions.insert id a' } c = s.auctionsOf c := by
  have hcount := Table.countIf_set_old (p := Auction.openIn c) ha a'
  have hsame : Auction.openIn c a' = Auction.openIn c a := by
    unfold Auction.openIn
    rw [hcollection, hstatus]
  rw [hsame] at hcount
  show Table.countIf (Auction.openIn c) (s.auctions.insert id a') = Table.countIf _ s.auctions
  omega

end

/-! ## What keeps the counters exact -/

namespace Counted

variable {s s₁ s' : Store}

/-- The counters of a collection change with its records. -/
theorem bump (h : Counted s) {collection : Address} {dl da : ℤ}
    (hs : s₁.bumpStats collection dl da = some s') (hcollections : s₁.collections = s.collections)
    (hlistings : s₁.listings.Forall fun _ l => (s.collection? l.collection).isSome = true)
    (hauctions : s₁.auctions.Forall fun _ a => (s.collection? a.collection).isSome = true)
    (hl : ∀ c, (s₁.listingsOf c : ℤ) = s.listingsOf c + deltaOf collection dl c)
    (ha : ∀ c, (s₁.auctionsOf c : ℤ) = s.auctionsOf c + deltaOf collection da c) : Counted s' := by
  have hsame : ∀ c, s₁.collection? c = s.collection? c := by
    intro c
    unfold Store.collection?
    rw [hcollections]
  obtain ⟨⟨collections, heq⟩, -⟩ := Store.bumpStats_some hs
  have hlistings' : s'.listings = s₁.listings := by rw [heq]
  have hauctions' : s'.auctions = s₁.auctions := by rw [heq]
  refine ⟨?_, ?_, ?_⟩
  · intro c info' hinfo'
    obtain ⟨info, hinfo, hbumped⟩ := (collection?_bumpStats hs c).2 info' hinfo'
    rw [hsame] at hinfo
    obtain ⟨hlcount, hacount⟩ := h.exact c info hinfo
    have hlc := hl c
    have hac := ha c
    unfold deltaOf at hlc hac
    unfold Store.listingsOf Store.auctionsOf at *
    rw [hlistings', hauctions']
    by_cases hc : c = collection
    · rw [if_pos hc] at hbumped hlc hac
      have hlnew := bumped_exact hbumped.1 (by omega)
      have hanew := bumped_exact hbumped.2 (by omega)
      omega
    · rw [if_neg hc] at hbumped hlc hac
      rw [hbumped]
      omega
  · intro id l hlk
    rw [hlistings'] at hlk
    rw [(collection?_bumpStats hs _).1, hsame]
    exact hlistings id l hlk
  · intro id a hak
    rw [hauctions'] at hak
    rw [(collection?_bumpStats hs _).1, hsame]
    exact hauctions id a hak

theorem same (h : Counted s) (hcollections : s'.collections = s.collections)
    (hlistings : s'.listings = s.listings) (hauctions : s'.auctions = s.auctions) : Counted s' := by
  have hsame : ∀ c, s'.collection? c = s.collection? c := by
    intro c
    unfold Store.collection?
    rw [hcollections]
  refine ⟨?_, ?_, ?_⟩
  · intro c info hinfo
    rw [hsame] at hinfo
    unfold Store.listingsOf Store.auctionsOf
    rw [hlistings, hauctions]
    exact h.exact c info hinfo
  · intro id l hl
    rw [hlistings] at hl
    rw [hsame]
    exact h.listings id l hl
  · intro id a ha
    rw [hauctions] at ha
    rw [hsame]
    exact h.auctions id a ha

theorem setInfo (h : Counted s) {collection : Address} {info info' : CollectionInfo}
    (hinfo : s.collection? collection = some info)
    (hlistings : info'.activeListings = info.activeListings)
    (hauctions : info'.activeAuctions = info.activeAuctions) :
    Counted { s with
      collections := some ((s.collections.getD ∅).insert collection info') } := by
  have hsome : ∀ c, (s.collection? c).isSome = true → (Store.collection? { s with
      collections := some ((s.collections.getD ∅).insert collection info') } c).isSome = true := by
    intro c hc
    rw [Store.collection?_set]
    split_ifs
    · rfl
    · exact hc
  refine ⟨fun c found hfound => ?_, fun id l hl => hsome _ (h.listings id l hl),
    fun id a ha => hsome _ (h.auctions id a ha)⟩
  rw [Store.collection?_set] at hfound
  split_ifs at hfound with hc
  · obtain rfl := Option.some.inj hfound
    rw [hlistings, hauctions, hc]
    exact h.exact collection info hinfo
  · exact h.exact c found hfound

/-- A collection that was not registered has no records. -/
theorem register (h : Counted s) {collection : Address} {info : CollectionInfo}
    (hnew : s.collection? collection = none) (hlistings : info.activeListings = 0)
    (hauctions : info.activeAuctions = 0) :
    Counted { s with
      collections := some ((s.collections.getD ∅).insert collection info) } := by
  have hsome : ∀ c, (s.collection? c).isSome = true → (Store.collection? { s with
      collections := some ((s.collections.getD ∅).insert collection info) } c).isSome = true := by
    intro c hc
    rw [Store.collection?_set]
    split_ifs
    · rfl
    · exact hc
  have hnone : ∀ c, (s.collection? c).isSome = true → c ≠ collection := by
    rintro c hc rfl
    rw [hnew] at hc
    cases hc
  refine ⟨fun c found hfound => ?_, fun id l hl => hsome _ (h.listings id l hl),
    fun id a ha => hsome _ (h.auctions id a ha)⟩
  rw [Store.collection?_set] at hfound
  split_ifs at hfound with hc
  · obtain rfl := Option.some.inj hfound
    rw [hlistings, hauctions, hc]
    constructor
    · refine (Table.countIf_eq_zero fun id l hl => ?_).symm
      have hne := hnone _ (h.listings id l hl)
      simp [Listing.activeIn, hne]
    · refine (Table.countIf_eq_zero fun id a ha => ?_).symm
      have hne := hnone _ (h.auctions id a ha)
      simp [Auction.openIn, hne]
  · exact h.exact c found hfound

variable {id : ℕ} {w w' : World Store}

theorem listed (h : Counted w.store) (hinv : Inv me w.store) {env : Env me} {seller : Address}
    {item : BulkListingItem} (hregistered : (w.store.collection? item.collection).isSome = true)
    (hl : Listed env seller item w w') : Counted w'.store := by
  refine h.bump hl.store rfl (h.listings.set hregistered) h.auctions ?_ ?_
  · exact fun c => listingsOf_add (l := w.store.newListing env.timestamp seller item)
      (fresh_of_forall hinv.listingIds) rfl c
  · intro c
    rw [deltaOf_zero, add_zero]
    rfl

theorem auctioned (h : Counted w.store) (hinv : Inv me w.store) {env : Env me} {seller : Address}
    {item : BulkAuctionItem} {endTime : ℕ}
    (hregistered : (w.store.collection? item.collection).isSome = true)
    (ha : Auctioned env seller item endTime w w') : Counted w'.store := by
  refine h.bump ha.store rfl h.listings (h.auctions.set hregistered) ?_ ?_
  · intro c
    rw [deltaOf_zero, add_zero]
    rfl
  · exact fun c => auctionsOf_add (a := w.store.newAuction me env.timestamp seller item endTime)
      (fresh_of_forall hinv.auctionIds) rfl c

theorem closeListing (h : Counted s) {l : Listing} (hl : s.listings.lookup id = some l)
    (hactive : l.status = .active) {status : ListingStatus} (hclosed : status ≠ .active)
    (hs : Store.bumpStats { s with listings := s.listings.insert id { l with status := status } }
      l.collection (-1) 0 = some s') : Counted s' := by
  refine h.bump hs rfl (h.listings.set (h.listings id l hl)) h.auctions ?_ ?_
  · exact listingsOf_close hl hactive hclosed
  · intro c
    rw [deltaOf_zero, add_zero]
    rfl

theorem closeAuction (h : Counted s) {a : Auction} (ha : s.auctions.lookup id = some a)
    (hopen : a.status = .active ∨ a.status = .ended) {status : AuctionStatus}
    (hclosed : status = .settled ∨ status = .cancelled)
    (hs : Store.bumpStats { s with auctions := s.auctions.insert id { a with status := status } }
      a.collection 0 (-1) = some s') : Counted s' := by
  refine h.bump hs rfl h.listings (h.auctions.set (h.auctions id a ha)) ?_ ?_
  · intro c
    rw [deltaOf_zero, add_zero]
    rfl
  · exact auctionsOf_close ha hopen hclosed

/-- Every successful call but `initialize` keeps the counters exact. -/
theorem done {env : Env me} {c : Entry} (h : Counted w.store) (hinv : Inv me w.store)
    (hc : ¬ Initializes (.call env c)) (hdone : Done env w c w') : Counted w'.store := by
  cases hdone with
  | init => exact absurd trivial hc
  | setPlatformFee | setFeeRecipient | setBidIncrement | setAutoExtension | setCurrency | setOracle
  | makeOffer | acceptOffer | cancelOffer => exact h.same rfl rfl rfl
  | registerCollection events total hadmin hsigned hnew => exact h.register hnew rfl rfl
  | setCollectionRoyalties info total hsigned hinfo => exact h.setInfo hinfo rfl rfl
  | listNft w₁ events hactive hsigned hprice hcurrency hhash hcollection hlisted =>
    show Counted w₁.store
    exact h.listed hinv hcollection hlisted
  | buyNft l feeRecipient fee w₁ s events hactive hsigned hl hopen hsold hstats =>
    rw [hsold.store] at hstats
    exact h.closeListing hl hopen (by decide) hstats
  | cancelListing l s hsigned hl hopen hseller hstats =>
    exact h.closeListing hl hopen (by decide) hstats
  | createEnglishAuction w₁ e events hactive hsigned hstart hcurrency hhash hcollection hduration
      hend hauctioned =>
    show Counted w₁.store
    exact h.auctioned hinv hcollection hauctioned
  | placeBid a least newEnd events hactive hsigned hbid ha =>
    refine ⟨fun C info hinfo => ?_, h.listings, h.auctions.set (h.auctions _ a ha)⟩
    obtain ⟨hlistings, hauctions⟩ := h.exact C info hinfo
    refine ⟨hlistings, hauctions.trans (auctionsOf_bid ha ?_ ?_ C).symm⟩
    · rfl
    · rfl
  | settleUnsold a s hactive ha hopen htime hbid hstats =>
    exact h.closeAuction ha hopen (.inl rfl) hstats
  | settleSold a feeRecipient fee w₁ s events hactive ha hopen htime hbid hsold hstats =>
    rw [hsold.store] at hstats
    exact h.closeAuction ha hopen (.inl rfl) hstats
  | createDutchAuction w₁ e events hactive hsigned hstart hfloor hcurrency hhash hcollection hprices
      hduration hend hauctioned =>
    show Counted w₁.store
    exact h.auctioned hinv hcollection hauctioned
  | buyDutchAuction a price feeRecipient fee w₁ s events hactive hsigned ha hopen htype hprice hne
      hsold hstats =>
    rw [hsold.store] at hstats
    exact h.closeAuction ha (.inl hopen) (.inl rfl) hstats
  | cancelDutchAuction a s hsigned ha hopen htype hseller hstats =>
    exact h.closeAuction ha (.inl hopen) (.inr rfl) hstats
  | bulkList w' hactive hsigned hlength heach =>
    refine (Each.keeps (P := fun w : World Store => Inv me w.store ∧ Counted w.store) ?_ heach
      ⟨hinv, h⟩).2
    intro item w w' hw hitem
    unfold ListedOrSkipped at hitem
    split_ifs at hitem with haccepts
    · exact ⟨hw.1.listed hitem, hw.2.listed hw.1 (registered_of_acceptsListing haccepts) hitem⟩
    · rwa [hitem]
  | bulkCreateAuctions w' hactive hsigned hlength heach =>
    refine (Each.keeps (P := fun w : World Store => Inv me w.store ∧ Counted w.store) ?_ heach
      ⟨hinv, h⟩).2
    intro item w w' hw hitem
    unfold AuctionedOrSkipped at hitem
    split_ifs at hitem with haccepts
    · exact ⟨hw.1.auctioned hsigned hitem,
        hw.2.auctioned hw.1 (registered_of_acceptsAuction haccepts) hitem⟩
    · rwa [hitem]

theorem step {w : World Store} (h : Counted w.store) (hinv : Inv me w.store) {s : Step me Entry}
    (hs : ¬ Initializes s) : Counted (step s w).store := by
  rcases step_cases s w with ⟨env, x, hx⟩ | hx | ⟨env, c, w', rfl, hx, hdone⟩
  · rwa [hx, store_outsideTransfer]
  · rwa [hx]
  · rw [hx]
    exact h.done hinv hs hdone

theorem start {env : Env me} {admin recipient : Address} {fee increment : ℤ} {extension : ℕ}
    {tokens : TokenLedger} {w : World Store} {u : Unit}
    (h : init env admin fee recipient increment extension (World.deployed Store.empty tokens) =
      .ok u w) : Counted w.store := by
  cases init_done h with
  | init events hfee hincrement =>
    refine ⟨fun c info hinfo => ?_, Table.Forall.empty _, Table.Forall.empty _⟩
    cases hinfo

/-- An active listing is counted, and closing it lowers the counter. -/
theorem listing_counted (h : Counted s) {l : Listing} (hl : s.listings.lookup id = some l)
    (hactive : l.status = .active) : ∃ info, s.collection? l.collection = some info ∧
      0 < info.activeListings ∧
        bumped info.activeListings (-1) = some (info.activeListings - 1) := by
  obtain ⟨info, hinfo⟩ := Option.isSome_iff_exists.mp (h.listings id l hl)
  have hpos : 0 < info.activeListings := by
    rw [(h.exact _ info hinfo).1]
    exact Table.countIf_pos hl (by simp [Listing.activeIn, hactive])
  exact ⟨info, hinfo, hpos, bumped_down hpos⟩

/-- An open auction is counted, and closing it lowers the counter. -/
theorem auction_counted (h : Counted s) {a : Auction} (ha : s.auctions.lookup id = some a)
    (hopen : a.status ≠ .settled ∧ a.status ≠ .cancelled) :
    ∃ info, s.collection? a.collection = some info ∧ 0 < info.activeAuctions ∧
      bumped info.activeAuctions (-1) = some (info.activeAuctions - 1) := by
  obtain ⟨info, hinfo⟩ := Option.isSome_iff_exists.mp (h.auctions id a ha)
  have hpos : 0 < info.activeAuctions := by
    rw [(h.exact _ info hinfo).2]
    exact Table.countIf_pos ha (by simp [Auction.openIn, hopen])
  exact ⟨info, hinfo, hpos, bumped_down hpos⟩

end Counted

/-- In every state from the first `initialize` on, without another one, the counters of every
    registered collection are the numbers of its active listings and of its auctions that are
    neither settled nor cancelled. The collection of every such record is registered with a counter
    above zero, so that closing the record lowers it by one. -/
theorem statistics_exact {env₀ : Env me} {admin recipient : Address} {fee increment : ℤ}
    {extension : ℕ} {tokens : TokenLedger} {w : World Store} {u : Unit}
    (hinit : init env₀ admin fee recipient increment extension
      (World.deployed Store.empty tokens) = .ok u w)
    (steps : List (Step me Entry)) (honce : ∀ s ∈ steps, ¬ Initializes s) :
    (∀ c info, (run step w steps).store.collection? c = some info →
      info.activeListings = (run step w steps).store.listingsOf c ∧
        info.activeAuctions = (run step w steps).store.auctionsOf c) ∧
    (∀ id l, (run step w steps).store.listings.lookup id = some l → l.status = .active →
      ∃ info, (run step w steps).store.collection? l.collection = some info ∧
        0 < info.activeListings ∧
        bumped info.activeListings (-1) = some (info.activeListings - 1)) ∧
    ∀ id a, (run step w steps).store.auctions.lookup id = some a →
      a.status ≠ .settled ∧ a.status ≠ .cancelled →
      ∃ info, (run step w steps).store.collection? a.collection = some info ∧
        0 < info.activeAuctions ∧
        bumped info.activeAuctions (-1) = some (info.activeAuctions - 1) := by
  have hend : Inv me (run step w steps).store ∧ Counted (run step w steps).store := by
    refine run_induct_of_trace (P := fun w : World Store => Inv me w.store ∧ Counted w.store)
      (Q := fun _ s => ¬ Initializes s) (fun w s h hs => ⟨h.1.step hs, h.2.step h.1 hs⟩)
      ⟨Inv.start hinit, Counted.start hinit⟩ ?_
    exact fun x hx => honce x.2 (mem_of_mem_trace hx)
  exact ⟨hend.2.exact, fun _ _ hl hactive => hend.2.listing_counted hl hactive,
    fun _ _ ha hopen => hend.2.auction_counted ha hopen⟩

/-- The one listing of the run is counted. -/
theorem statistics_exact_listed : ∃ info,
    (run step opened (listedWith 1)).store.collection? ⟨7⟩ = some info ∧ 0 < info.activeListings ∧
      bumped info.activeListings (-1) = some (info.activeListings - 1) :=
  (statistics_exact init_opened (listedWith 1) (listedWith_once 1)).2.1 1 listing rfl rfl

end Trellis.Market
