import Trellis.Market.Records

/-!
# The custody of the items

Items of one collection share one balance of the marketplace, and seven calls release from it.

Results:
* `quiet_or_releases`: a step closes no record and sends nothing of a collection, or it closes one
  record and sends its item to the one it goes to, and nothing else of that collection.
* `surplus_step`: the balance of a token that is no currency stays above what is owed of it.
* `custody_released_once`: over every run the balance covers the items that are held, and each of
  them is released exactly once.
-/

namespace Trellis.Market

open Exec

variable {me : Address}

/-- What the active listings and the open auctions of a collection hold. -/
def Store.itemsHeld (s : Store) (collection : Address) : ℤ :=
  listingHolding.owed s.listings collection + auctionHolding.owed s.auctions collection

/-- The step closes the record: its item is held before and not after. -/
def Closes (k : ItemKey) (w : World Store) (s : Step me Entry) : Prop :=
  ∃ item, w.store.item? k = some item ∧ item.held = true ∧
    (step s w).store.item? k = some { item with held := false }

/-- The step closes the record and releases its item: of the collection `C` the marketplace sends
    the item, if it is one of `C`, and nothing else. No other record changes. -/
structure Releases (C : Address) (k : ItemKey) (item : Item) (dst : Address) (w : World Store)
    (s : Step me Entry) : Prop where
  release : releaseOf w s = some (k, dst)
  dst_ne : dst ≠ me
  before : w.store.item? k = some item
  held : item.held = true
  after : (step s w).store.item? k = some { item with held := false }
  others : ∀ k', k' ≠ k → (step s w).store.item? k' = w.store.item? k'
  sent : (step s w).tokens.sent C me = w.tokens.sent C me ++
    if item.collection = C then [⟨C, me, dst, item.amount⟩] else []

/-! ## Items and what is sent -/

theorem Store.item?_same {s s' : Store} (hlistings : SameListings s s')
    (hauctions : SameAuctions s s') (k : ItemKey) : s'.item? k = s.item? k := by
  cases k with
  | listing id => rw [Store.item?, Store.item?, hlistings.table]
  | auction id => rw [Store.item?, Store.item?, hauctions.table]

theorem Store.item?_setListing {s s' : Store} {id : ℕ} {l : Listing}
    (hlistings : s'.listings = s.listings.insert id l) (hauctions : s'.auctions = s.auctions)
    (k : ItemKey) : s'.item? k = if k = .listing id then some l.item else s.item? k := by
  cases k with
  | listing id' =>
    rw [Store.item?, Store.item?, hlistings, Table.lookup_set]
    by_cases hid : id' = id
    · rw [if_pos hid, if_pos (congrArg ItemKey.listing hid), Option.map_some]
    · rw [if_neg hid, if_neg fun heq => hid (ItemKey.listing.inj heq)]
  | auction id' =>
    rw [Store.item?, Store.item?, hauctions, if_neg (by simp)]

theorem Store.item?_setAuction {s s' : Store} {id : ℕ} {a : Auction}
    (hlistings : s'.listings = s.listings) (hauctions : s'.auctions = s.auctions.insert id a)
    (k : ItemKey) : s'.item? k = if k = .auction id then some a.item else s.item? k := by
  cases k with
  | listing id' =>
    rw [Store.item?, Store.item?, hlistings, if_neg (by simp)]
  | auction id' =>
    rw [Store.item?, Store.item?, hauctions, Table.lookup_set]
    by_cases hid : id' = id
    · rw [if_pos hid, if_pos (congrArg ItemKey.auction hid), Option.map_some]
    · rw [if_neg hid, if_neg fun heq => hid (ItemKey.auction.inj heq)]

theorem Listing.item_active {l : Listing} (hopen : l.status = .active) : l.item.held = true := by
  simp [Listing.item, hopen]

theorem Listing.item_close {l : Listing} {status : ListingStatus} (hstatus : status ≠ .active) :
    ({ l with status := status } : Listing).item = { l.item with held := false } := by
  simp [Listing.item, hstatus]

theorem Auction.item_close {a : Auction} {status : AuctionStatus}
    (hstatus : status = .settled ∨ status = .cancelled) :
    ({ a with status := status } : Auction).item = { a.item with held := false } := by
  rcases hstatus with rfl | rfl
  · simp [Auction.item, Auction.isOpen]
  · simp [Auction.item, Auction.isOpen]

/-- Payments in currencies send nothing of a token that is none. -/
theorem OnlyCurrencies.sent {s : Store} {l l' : TokenLedger} {paid : List TokenTransfer}
    (hpaid : OnlyCurrencies me s paid) {C : Address} (hC : s.NoCurrency C)
    (hlog : l'.log = l.log ++ paid) : l'.sent C me = l.sent C me := by
  have hothers : ∀ x ∈ paid, x.token ≠ C ∨ x.src ≠ me := by
    intro x hx
    by_cases hsrc : x.src = me
    · left
      intro htoken
      exact hpaid x hx hsrc (htoken ▸ hC)
    · right
      exact hsrc
  have hsent := Ledger.sent_moveAll_others l hothers
  unfold Ledger.sent at hsent ⊢
  rw [hlog]
  rwa [Ledger.log_moveAll] at hsent

/-- Such payments and the handover of an item send the item, if it is one of `C`. -/
theorem OnlyCurrencies.sent_item {s : Store} {l l' : TokenLedger} {paid : List TokenTransfer}
    (hpaid : OnlyCurrencies me s paid) {C : Address} (hC : s.NoCurrency C)
    {collection dst : Address} {amount : ℤ}
    (hlog : l'.log = l.log ++ (paid ++ [⟨collection, me, dst, amount⟩])) :
    l'.sent C me = l.sent C me ++ if collection = C then [⟨C, me, dst, amount⟩] else [] := by
  have hpayments : (l.moveAll paid).sent C me = l.sent C me :=
    hpaid.sent hC (Ledger.log_moveAll l paid)
  have hmove := Ledger.sent_move (l.moveAll paid) collection me dst amount C
  have hboth : l'.sent C me = ((l.moveAll paid).move ⟨collection, me, dst, amount⟩).sent C me := by
    unfold Ledger.sent
    rw [hlog, Ledger.log_move, Ledger.log_moveAll, List.append_assoc]
  rw [hboth, hmove, hpayments]
  split_ifs with hcollection
  · rw [hcollection]
  · rfl

/-- No item is closed and nothing of `C` is sent; new items are held. -/
structure Quiet (me C : Address) (w w' : World Store) : Prop where
  kept : ∀ k item, w.store.item? k = some item → w'.store.item? k = some item
  opened : ∀ k item, w'.store.item? k = some item → w.store.item? k = some item ∨ item.held = true
  sent : w'.tokens.sent C me = w.tokens.sent C me

theorem Quiet.refl {C : Address} (w : World Store) : Quiet me C w w :=
  ⟨fun _ _ h => h, fun _ _ h => .inl h, rfl⟩

theorem Quiet.trans {C : Address} {w w' w'' : World Store} (h : Quiet me C w w')
    (h' : Quiet me C w' w'') : Quiet me C w w'' := by
  refine ⟨fun k item hitem => h'.kept k item (h.kept k item hitem), ?_, h'.sent.trans h.sent⟩
  intro k item hitem
  rcases h'.opened k item hitem with hbefore | hheld
  · exact h.opened k item hbefore
  · exact .inr hheld

theorem Quiet.open {C : Address} {w w' : World Store} {key : ItemKey} {item : Item}
    (hfresh : w.store.item? key = none) (hheld : item.held = true)
    (hset : ∀ k, w'.store.item? k = if k = key then some item else w.store.item? k)
    (hsent : w'.tokens.sent C me = w.tokens.sent C me) : Quiet me C w w' := by
  refine ⟨?_, ?_, hsent⟩
  · intro k item' hitem
    rw [hset, if_neg, hitem]
    rintro rfl
    rw [hfresh] at hitem
    cases hitem
  · intro k item' hitem
    rw [hset] at hitem
    split_ifs at hitem with hk
    · cases hitem
      exact .inr hheld
    · exact .inl hitem

/-- What others send does not count. -/
theorem sent_deposit {l l' : TokenLedger} {token src dst : Address} {amount : ℤ} (hsrc : src ≠ me)
    (htokens : l' = l.move ⟨token, src, dst, amount⟩) (C : Address) :
    l'.sent C me = l.sent C me := by
  rw [htokens]
  show (l.moveAll [⟨token, src, dst, amount⟩]).sent C me = l.sent C me
  apply Ledger.sent_moveAll_others
  intro x hx
  rw [List.mem_singleton.mp hx]
  exact .inr hsrc

theorem quiet_listed {env : Env me} {seller : Address} (hsigned : env.signed seller = true)
    {item : BulkListingItem} {w w' : World Store} (h : Inv me w.store)
    (hl : Listed env seller item w w') (C : Address) : Quiet me C w w' := by
  obtain ⟨hlistings, hauctions⟩ := same_bumpStats hl.store
  have hfresh : w.store.item? (.listing w.store.nextListing) = none := by
    rw [Store.item?, fresh_of_forall h.listingIds, Option.map_none]
  exact Quiet.open hfresh (Listing.item_active rfl)
    (Store.item?_setListing hlistings.table hauctions.table)
    (sent_deposit (Env.ne_me_of_signed hsigned) hl.tokens C)

theorem quiet_auctioned {env : Env me} {seller : Address} (hsigned : env.signed seller = true)
    {item : BulkAuctionItem} {endTime : ℕ} {w w' : World Store} (h : Inv me w.store)
    (ha : Auctioned env seller item endTime w w') (C : Address) : Quiet me C w w' := by
  obtain ⟨hlistings, hauctions⟩ := same_bumpStats ha.store
  have hfresh : w.store.item? (.auction w.store.nextAuction) = none := by
    rw [Store.item?, fresh_of_forall h.auctionIds, Option.map_none]
  have hheld : (w.store.newAuction me env.timestamp seller item endTime).isOpen = true :=
    isOpen_of_active rfl
  exact Quiet.open hfresh hheld
    (Store.item?_setAuction hlistings.table hauctions.table)
    (sent_deposit (Env.ne_me_of_signed hsigned) ha.tokens C)

theorem Quiet.of_eq {C : Address} {w w' w'' : World Store} (h : Quiet me C w w')
    (hstore : w''.store = w'.store) (htokens : w''.tokens = w'.tokens) : Quiet me C w w'' := by
  obtain ⟨hkept, hopened, hsent⟩ := h
  refine ⟨?_, ?_, ?_⟩
  · rwa [hstore]
  · rwa [hstore]
  · rwa [htokens]

theorem quiet_listings {env : Env me} {seller : Address} (hsigned : env.signed seller = true)
    {items : List BulkListingItem} {w w' : World Store} (h : Inv me w.store)
    (heach : Each (fun item w w' => Listed env seller item w w' ∨ w' = w) items w w')
    (C : Address) : Quiet me C w w' := by
  refine (heach.induct (P := fun w => Inv me w.store) Quiet.refl (fun _ _ _ => Quiet.trans) ?_ h).2
  intro item w w' hw hitem
  rcases hitem with hlisted | rfl
  · exact ⟨hw.listed hlisted, quiet_listed hsigned hw hlisted C⟩
  · exact ⟨hw, Quiet.refl w'⟩

theorem quiet_auctions {env : Env me} {seller : Address} (hsigned : env.signed seller = true)
    {items : List BulkAuctionItem} {w w' : World Store} (h : Inv me w.store)
    (heach : Each (fun item w w' => (0 < item.startPrice ∧
      ∃ endTime, Auctioned env seller item endTime w w') ∨ w' = w) items w w') (C : Address) :
    Quiet me C w w' := by
  refine (heach.induct (P := fun w => Inv me w.store) Quiet.refl (fun _ _ _ => Quiet.trans) ?_ h).2
  intro item w w' hw hitem
  rcases hitem with ⟨-, endTime, hauctioned⟩ | rfl
  · exact ⟨hw.auctioned hsigned hauctioned, quiet_auctioned hsigned hw hauctioned C⟩
  · exact ⟨hw, Quiet.refl w'⟩

/-- A step closes nothing and releases nothing, or it closes one record and releases its item. -/
theorem quiet_or_releases {w : World Store} (h : Inv me w.store) {s : Step me Entry}
    (hs : ¬ Initializes s) {C : Address} (hC : w.store.NoCurrency C) :
    Quiet me C w (step s w) ∨ ∃ k item dst, Releases C k item dst w s := by
  cases effect_step h hs with
  | idle paid hlistings hauctions hlog hpaid =>
    left
    have hsame := Store.item?_same hlistings hauctions
    refine ⟨fun k item hitem => (hsame k).trans hitem, fun k item hitem => ?_, hpaid.sent hC hlog⟩
    exact .inl ((hsame k).symm.trans hitem)
  | listed w₁ _ hsigned heach hstore htokens =>
    left
    exact (quiet_listings hsigned h heach C).of_eq hstore htokens
  | auctioned w₁ _ hsigned heach hstore htokens =>
    left
    exact (quiet_auctions hsigned h heach C).of_eq hstore htokens
  | @bid env bidder id amount a endTime paid _ _ ha hopen hlistings hauctions hseq hlog hpaid =>
    left
    have hsame : ∀ k, (step s w).store.item? k = w.store.item? k := by
      intro k
      rw [Store.item?_setAuction hlistings.table hauctions]
      split_ifs with hk
      · rw [hk, Store.item?, ha, Option.map_some]
        rfl
      · rfl
    refine ⟨fun k item hitem => (hsame k).trans hitem, fun k item hitem => ?_, hpaid.sent hC hlog⟩
    exact .inl ((hsame k).symm.trans hitem)
  | @listingClosed id l status dst paid hrelease hdst hl hopen hstatus hlistings hseq hauctions hlog
      hpaid =>
    right
    have hset := Store.item?_setListing hlistings hauctions.table
    refine ⟨.listing id, l.item, dst, hrelease, hdst, ?_, Listing.item_active hopen, ?_, ?_,
      hpaid.sent_item hC hlog⟩
    · rw [Store.item?, hl, Option.map_some]
    · rw [hset, if_pos rfl, Listing.item_close hstatus]
    · intro k hk
      rw [hset, if_neg hk]
  | @auctionClosed id a status dst paid hrelease hdst ha hopen hstatus hlistings hauctions hseq hlog
      hpaid =>
    right
    have hset := Store.item?_setAuction hlistings.table hauctions
    refine ⟨.auction id, a.item, dst, hrelease, hdst, ?_, hopen, ?_, ?_, hpaid.sent_item hC hlog⟩
    · rw [Store.item?, ha, Option.map_some]
    · rw [hset, if_pos rfl, Auction.item_close hstatus]
    · intro k hk
      rw [hset, if_neg hk]

/-! ## The balance -/

/-- A surplus covers the items: bids and offers come on top. -/
theorem itemsHeld_le {w : World Store} (h : Inv me w.store) {C : Address}
    (hsurplus : 0 ≤ (marketCustody me).surplus w C) :
    w.store.itemsHeld C ≤ w.tokens.balance C me := by
  have hbids : 0 ≤ bidHolding.owed w.store.auctions C :=
    Holding.owed_nonneg (h.auctions.imp fun _ _ hok => hok.bid_nonneg) C
  have hoffers : 0 ≤ offerHolding.owed w.store.offers C :=
    Holding.owed_nonneg (h.offers.imp fun _ _ hpos => le_of_lt hpos) C
  simp only [Custody.surplus, marketCustody, Store.owed] at hsurplus
  unfold Store.itemsHeld
  omega

/-- A step keeps the surplus of a token that is no currency from falling below zero: the settlement
    of a bid takes from the surplus of its currency only. -/
theorem surplus_step {w : World Store} (h : Inv me w.store) {s : Step me Entry}
    (hs : ¬ Initializes s) {C : Address} (hC : w.store.NoCurrency C)
    (hsurplus : 0 ≤ (marketCustody me).surplus w C) :
    0 ≤ (marketCustody me).surplus (step s w) C := by
  by_cases hsettle : ∃ env c, s = .call env c ∧ SettlesBid w c
  · obtain ⟨env, c, rfl, hc⟩ := hsettle
    cases c with
    | settleEnglishAuction id =>
      obtain ⟨a, ha, hbid⟩ := hc
      show 0 ≤ (marketCustody me).surplus ((settleEnglishAuction env id).commit w) C
      rcases commit_cases (settleEnglishAuction env id) w with ⟨u, hu⟩ | ⟨-, hsame⟩
      · have hsettled := surplus_settle h ha hbid (settleEnglishAuction_done hu) C
        have hother : a.currency ≠ C := hC.2.1 id a ha
        rw [hsettled, amountIn, if_neg hother, sub_zero]
        exact hsurplus
      · rw [hsame]
        exact hsurplus
    | _ => exact absurd hc id
  · have hbacked := backed_step h hs fun env c hc hsettles => hsettle ⟨env, c, hc, hsettles⟩
    exact hsurplus.trans (hbacked C)

/-! ## Runs -/

/-- The record is closed. -/
def Closed (k : ItemKey) (w : World Store) : Prop :=
  ∃ item, w.store.item? k = some item ∧ item.held = false

section

variable {w : World Store} (h : Inv me w.store) {s : Step me Entry} (hs : ¬ Initializes s)
  {C : Address} (hC : w.store.NoCurrency C)

include h hs hC

theorem closed_step {k : ItemKey} (hclosed : Closed k w) : Closed k (step s w) := by
  obtain ⟨item, hitem, hnot⟩ := hclosed
  rcases quiet_or_releases h hs hC with hquiet | ⟨k', item', dst, hreleases⟩
  · exact ⟨item, hquiet.kept k item hitem, hnot⟩
  · have hne : k ≠ k' := by
      rintro rfl
      have hsame : item = item' := Option.some.inj (hitem.symm.trans hreleases.before)
      rw [hsame, hreleases.held] at hnot
      cases hnot
    exact ⟨item, (hreleases.others k hne).trans hitem, hnot⟩

/-- A record is closed by the step after which it is closed for the first time. -/
theorem closes_iff {k : ItemKey} : Closes k w s ↔ ¬ Closed k w ∧ Closed k (step s w) := by
  constructor
  · intro hcloses
    obtain ⟨item, hbefore, hheld, hafter⟩ := hcloses
    refine ⟨?_, ⟨_, hafter, rfl⟩⟩
    intro hclosed
    obtain ⟨item', hitem', hnot⟩ := hclosed
    have hsame : item' = item := Option.some.inj (hitem'.symm.trans hbefore)
    rw [hsame, hheld] at hnot
    cases hnot
  · intro hfirst
    obtain ⟨hopen, item, hitem, hnot⟩ := hfirst
    rcases quiet_or_releases h hs hC with hquiet | ⟨k', item', dst, hreleases⟩
    · rcases hquiet.opened k item hitem with hbefore | hheld
      · exact absurd ⟨item, hbefore, hnot⟩ hopen
      · rw [hheld] at hnot
        cases hnot
    · by_cases hk : k = k'
      · subst hk
        exact ⟨item', hreleases.before, hreleases.held, hreleases.after⟩
      · rw [hreleases.others k hk] at hitem
        exact absurd ⟨item, hitem, hnot⟩ hopen

/-- A step closes the record whose item it releases and no other, or it closes and releases
    nothing. -/
theorem releases_step :
    ((∀ k, ¬ Closes k w s) ∧ (step s w).tokens.sent C me = w.tokens.sent C me) ∨
      ∃ k item dst, Releases C k item dst w s ∧ ∀ k', Closes k' w s ↔ k' = k := by
  rcases quiet_or_releases h hs hC with hquiet | ⟨k, item, dst, hreleases⟩
  · left
    refine ⟨?_, hquiet.sent⟩
    intro k hcloses
    obtain ⟨item, hbefore, hheld, hafter⟩ := hcloses
    rw [hquiet.kept k item hbefore] at hafter
    have hsame : item = { item with held := false } := Option.some.inj hafter
    rw [hsame] at hheld
    cases hheld
  · right
    refine ⟨k, item, dst, hreleases, fun k' => ⟨?_, ?_⟩⟩
    · intro hcloses
      by_contra hne
      obtain ⟨item', hbefore, hheld, hafter⟩ := hcloses
      rw [hreleases.others k' hne, hbefore] at hafter
      have hsame : item' = { item' with held := false } := Option.some.inj hafter
      rw [hsame] at hheld
      cases hheld
    · rintro rfl
      exact ⟨item, hreleases.before, hreleases.held, hreleases.after⟩

end

section

variable {w : World Store} (h : Inv me w.store) {steps : List (Step me Entry)} {C : Address}
  (hsteps : ∀ x ∈ trace step w steps, ¬ Initializes x.2 ∧ x.1.store.NoCurrency C)

include h hsteps

theorem inv_of_mem_trace {x : World Store × Step me Entry} (hx : x ∈ trace step w steps) :
    Inv me x.1.store :=
  trace_induct_of_trace (P := fun w : World Store => Inv me w.store)
    (Q := fun w s => ¬ Initializes s ∧ w.store.NoCurrency C)
      (fun _ _ h hs => h.step hs.1) h hsteps hx

theorem itemsHeld_run (hsurplus : 0 ≤ (marketCustody me).surplus w C) :
    (run step w steps).store.itemsHeld C ≤ (run step w steps).tokens.balance C me := by
  have hend : Inv me (run step w steps).store ∧
      0 ≤ (marketCustody me).surplus (run step w steps) C := by
    apply run_induct_of_trace
      (P := fun w : World Store => Inv me w.store ∧ 0 ≤ (marketCustody me).surplus w C)
      (Q := fun w s => ¬ Initializes s ∧ w.store.NoCurrency C)
    · intro w s hw hs
      exact ⟨hw.1.step hs.1, surplus_step hw.1 hs.1 hs.2 hw.2⟩
    · exact ⟨h, hsurplus⟩
    · exact hsteps
  exact itemsHeld_le hend.1 hend.2

/-- A record that is closed at the end of a run and not at its start is closed by exactly one
    step. -/
theorem closes_once {k : ItemKey} (hnot : ¬ Closed k w) (hend : Closed k (run step w steps)) :
    ∃! pre, ∃ s post, steps = pre ++ s :: post ∧ Closes k (run step w pre) s := by
  have honce := exists_unique_step (P := fun w : World Store => Inv me w.store) (F := Closed k)
    (N := fun w s => ¬ Initializes s ∧ w.store.NoCurrency C) (fun _ _ h hs => h.step hs.1)
    (fun _ _ h hs hclosed => closed_step h hs.1 hs.2 hclosed) h hsteps hnot hend
  refine (existsUnique_congr fun pre => ?_).mp honce
  refine exists_congr fun s => exists_congr fun post => and_congr_right fun hsplit => ?_
  have hx : (run step w pre, s) ∈ trace step w steps := mem_trace_iff.mpr ⟨pre, post, hsplit, rfl⟩
  exact (closes_iff (inv_of_mem_trace h hsteps hx) (hsteps _ hx).1 (hsteps _ hx).2).symm

theorem not_closes_of_open {k : ItemKey} (hopen : ¬ Closed k (run step w steps))
    {x : World Store × Step me Entry} (hx : x ∈ trace step w steps) : ¬ Closes k x.1 x.2 := by
  obtain ⟨pre, post, rfl, hstate⟩ := mem_trace_iff.mp hx
  rw [trace_append, ← hstate, trace_cons] at hsteps
  have hnow := hsteps x (List.mem_append_right _ List.mem_cons_self)
  have hinv : Inv me x.1.store := by
    rw [hstate]
    apply run_induct_of_trace (P := fun w : World Store => Inv me w.store)
      (Q := fun w s => ¬ Initializes s ∧ w.store.NoCurrency C) (fun _ _ h hs => h.step hs.1) h
    intro y hy
    exact hsteps y (List.mem_append_left _ hy)
  intro hcloses
  have hclosed := ((closes_iff hinv hnow.1 hnow.2).mp hcloses).2
  apply hopen
  rw [run_append, ← hstate, run_cons]
  refine (run_induct_of_trace (P := fun w : World Store => Inv me w.store ∧ Closed k w)
    (Q := fun w s => ¬ Initializes s ∧ w.store.NoCurrency C) ?_ ⟨hinv.step hnow.1, hclosed⟩ ?_).2
  · intro w s hw hs
    exact ⟨hw.1.step hs.1, closed_step hw.1 hs.1 hs.2 hw.2⟩
  · intro y hy
    exact hsteps y (List.mem_append_right _ (List.mem_cons_of_mem _ hy))

end

theorem items_init {env : Env me} {admin recipient : Address} {fee increment : ℤ} {extension : ℕ}
    {tokens : TokenLedger} {w : World Store} {u : Unit}
    (h : init env admin fee recipient increment extension (World.deployed Store.empty tokens) =
      .ok u w) {C : Address} (hfunds : 0 ≤ tokens.balance C me) :
    0 ≤ (marketCustody me).surplus w C ∧ ∀ k, ¬ Closed k w := by
  cases init_done h with
  | init events hfee hincrement =>
    refine ⟨?_, ?_⟩
    · show 0 ≤ tokens.balance C me - 0
      omega
    · intro k hclosed
      obtain ⟨item, hitem, -⟩ := hclosed
      cases k with
      | listing id => cases hitem
      | auction id => cases hitem

/-- From the first `initialize` on, without another one, for every token `C` that is the currency of
      no record:
    * in every state the balance covers the items of `C` that are held;
    * every step closes nothing and sends nothing of `C`, or it closes one record and sends its
      item, to the buyer, the winning bidder or the seller, and nothing else of `C`;
    * a record that is closed at the end was closed by exactly one step, and no step closed the
      others;
    * records stay, a closed one does not change, and none changes its seller, item or currency;
    * no id of a listing or of an auction is given out twice. -/
theorem custody_released_once {env : Env me} {admin recipient : Address} {fee increment : ℤ}
    {extension : ℕ} {tokens : TokenLedger} {w : World Store}
    (hinit : init env admin fee recipient increment extension (World.deployed Store.empty tokens) =
      .ok () w) (steps : List (Step me Entry)) (honce : ∀ s ∈ steps, ¬ Initializes s) {C : Address}
    (hfunds : 0 ≤ tokens.balance C me)
    (hcurrency : ∀ x ∈ trace step w steps, x.1.store.NoCurrency C) :
    (∀ pre post, steps = pre ++ post →
      (run step w pre).store.itemsHeld C ≤ (run step w pre).tokens.balance C me) ∧
    (∀ x ∈ trace step w steps,
      ((∀ k, ¬ Closes k x.1 x.2) ∧ (step x.2 x.1).tokens.sent C me = x.1.tokens.sent C me) ∨
        ∃ k item dst, Releases C k item dst x.1 x.2 ∧ ∀ k', Closes k' x.1 x.2 ↔ k' = k) ∧
    (∀ k item, (run step w steps).store.item? k = some item →
      if item.held = true then ∀ x ∈ trace step w steps, ¬ Closes k x.1 x.2
      else ∃! pre, ∃ s post, steps = pre ++ s :: post ∧ Closes k (run step w pre) s) ∧
    (∀ pre post, steps = pre ++ post →
      LaterRecords (run step w pre).store (run step w steps).store) ∧
    ((trace step w steps).flatMap fun x => listedIds x.1 x.2).Nodup ∧
    ((trace step w steps).flatMap fun x => auctionedIds x.1 x.2).Nodup := by
  have hinv : Inv me w.store := Inv.start hinit
  obtain ⟨hsurplus, hnone⟩ := items_init hinit hfunds
  have hsteps : ∀ x ∈ trace step w steps, ¬ Initializes x.2 ∧ x.1.store.NoCurrency C :=
    fun x hx => ⟨honce x.2 (mem_of_mem_trace hx), hcurrency x hx⟩
  refine ⟨?_, ?_, ?_, ?_, listedIds_nodup hinv honce, auctionedIds_nodup hinv honce⟩
  · rintro pre post rfl
    apply itemsHeld_run hinv _ hsurplus
    intro x hx
    apply hsteps
    rw [trace_append]
    exact List.mem_append_left _ hx
  · intro x hx
    exact releases_step (inv_of_mem_trace hinv hsteps hx) (hsteps x hx).1 (hsteps x hx).2
  · intro k item hitem
    split_ifs with hheld
    · intro x hx
      apply not_closes_of_open hinv hsteps _ hx
      rintro ⟨item', hitem', hnot⟩
      have hsame : item' = item := Option.some.inj (hitem'.symm.trans hitem)
      rw [hsame] at hnot
      exact absurd hheld (by simp [hnot])
    · exact closes_once hinv hsteps (hnone k) ⟨item, hitem, by simpa using hheld⟩
  · rintro pre post rfl
    have hpre : ∀ s ∈ pre, ¬ Initializes s := fun s hs => honce s (List.mem_append_left _ hs)
    have hpost : ∀ s ∈ post, ¬ Initializes s := fun s hs => honce s (List.mem_append_right _ hs)
    rw [run_append]
    exact later_run (hinv.run hpre) hpost

/-- The run in which the buyer buys the listed item. -/
def boughtWith (n : ℕ) : List (Step ⟨0⟩ Entry) :=
  listedWith n ++ [.call (.signedBy ⟨0⟩ 2 2 [⟨3⟩]) (.buyNft ⟨3⟩ 1)]

theorem boughtWith_once (n : ℕ) : ∀ s ∈ boughtWith n, ¬ Initializes s := by
  intro s hs
  rw [boughtWith, List.mem_append, List.mem_singleton] at hs
  rcases hs with hs | rfl
  · exact listedWith_once n s hs
  · exact id

theorem boughtWith_noCurrency :
    ∀ x ∈ trace step opened (boughtWith 1), x.1.store.NoCurrency ⟨7⟩ := by
  intro x hx
  rw [boughtWith, trace_append] at hx
  rcases List.mem_append.mp hx with hx | hx
  · fin_cases hx <;> exact ⟨Table.Forall.empty _, Table.Forall.empty _, Table.Forall.empty _⟩
  · rw [List.mem_singleton.mp hx]
    refine ⟨?_, Table.Forall.empty _, Table.Forall.empty _⟩
    exact Table.Forall.set (Table.Forall.empty _) (v := listing) (by decide)

/-- The item of the listing is released once, by the sale. -/
theorem custody_released_once_bought :
    (run step opened (boughtWith 1)).store.item? (.listing 1) = some ⟨⟨2⟩, ⟨7⟩, 1, false⟩ ∧
      ∃! pre, ∃ s post, boughtWith 1 = pre ++ s :: post ∧
        Closes (.listing 1) (run step opened pre) s := by
  have hitem : (run step opened (boughtWith 1)).store.item? (.listing 1) =
      some ⟨⟨2⟩, ⟨7⟩, 1, false⟩ := rfl
  have hrun := custody_released_once init_opened (boughtWith 1) (boughtWith_once 1)
    (marketFunds_nonneg ⟨7⟩ ⟨0⟩) boughtWith_noCurrency
  exact ⟨hitem, hrun.2.2.1 _ _ hitem⟩

end Trellis.Market
