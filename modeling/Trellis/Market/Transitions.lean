import Trellis.Market.Contract

/-!
# What the entry points of the marketplace do

Results:
* `Store.bumpStats_some`: changing the counters of a collection touches nothing else, its royalties
  in particular.
* `escrowListing_ok`, `escrowAuction_ok`, `paySale_ok`: what the shared blocks leave.
* `exec_cases`: a call leaves the state alone, or it succeeds; `Done` says what it has checked then
  and which state it leaves.
-/

namespace Trellis.Market

open Exec

variable {me : Address}

/-! ## Guards -/

@[simp] theorem requireAdmin_ok {env : Env me} {caller : Address} {w w' : World Store} {u : Unit} :
    (requireAdmin env caller) w = .ok u w' ↔
      w.shared.admin = some caller ∧ env.signed caller = true ∧ w' = w := by
  simp only [requireAdmin, bind_ok, getAdmin_ok, failIf_ok, requireAuth_ok, ne_eq, not_not]
  constructor
  · rintro ⟨a, _, ⟨ha, rfl⟩, _, _, ⟨rfl, rfl⟩, hs, rfl⟩
    exact ⟨ha, hs, rfl⟩
  · rintro ⟨ha, hs, rfl⟩
    exact ⟨caller, w', ⟨ha, rfl⟩, (), w', ⟨rfl, rfl⟩, hs, rfl⟩

@[simp] theorem requireNotPaused_ok {w w' : World Store} {u : Unit} :
    requireNotPaused w = .ok u w' ↔ w.shared.paused.getD false = false ∧ w' = w := by
  simp [requireNotPaused]

@[simp] theorem validatePrice_ok {price : ℤ} {w w' : World Store} {u : Unit} :
    validatePrice price w = .ok u w' ↔ 0 < price ∧ w' = w := by
  simp [validatePrice]

@[simp] theorem validateCurrency_ok {currency : Address} {w w' : World Store} {u : Unit} :
    validateCurrency currency w = .ok u w' ↔
      w.store.isCurrencyWhitelisted currency = true ∧ w' = w := by
  simp [validateCurrency]

@[simp] theorem validateMetadataHash_ok {hash : Bytes} {w w' : World Store} {u : Unit} :
    validateMetadataHash hash w = .ok u w' ↔ hash.length = metadataHashLen ∧ w' = w := by
  simp [validateMetadataHash]

@[simp] theorem verifyCollection_ok {collection : Address} {w w' : World Store} {u : Unit} :
    verifyCollection collection w = .ok u w' ↔
      (w.store.collection? collection).isSome = true ∧ w' = w := by
  simp [verifyCollection, Option.isSome_iff_ne_none, and_comm]

@[simp] theorem validateDuration_ok {seconds : ℕ} {w w' : World Store} {u : Unit} :
    validateDuration seconds w = .ok u w' ↔ (0 < seconds ∧ seconds ≤ maxDuration) ∧ w' = w := by
  simp [validateDuration, Nat.pos_iff_ne_zero]

/-! ## Ids -/

/-- The id that `next_listing_id` gives out next. -/
def Store.nextListing (s : Store) : ℕ := s.listingSeq.getD 0 + 1

/-- The id that `next_auction_id` gives out next. -/
def Store.nextAuction (s : Store) : ℕ := s.auctionSeq.getD 0 + 1

/-- The id that `next_offer_id` gives out next. -/
def Store.nextOffer (s : Store) : ℕ := s.offerSeq.getD 0 + 1

theorem nextId_ok {current : Store → ℕ} {record : Store → ℕ → Store} {w w' : World Store} {id : ℕ} :
    (do
      let current ← read current
      let next ← okOr (checkedAddU64 current 1) .overflow
      write fun s => record s next
      pure next : Invocation Store MarketError ℕ) w = .ok id w' ↔
      current w.store + 1 < 2 ^ 64 ∧ id = current w.store + 1 ∧
        w' = { w with store := record w.store id } := by
  simp only [bind_ok, read_ok, okOr_ok, checkedAddU64_eq_some, write_ok, pure_ok]
  constructor
  · rintro ⟨_, _, ⟨rfl, rfl⟩, _, _, ⟨⟨hfits, rfl⟩, rfl⟩, _, _, rfl, rfl, rfl⟩
    exact ⟨hfits, rfl, rfl⟩
  · rintro ⟨hfits, rfl, rfl⟩
    exact ⟨_, w, ⟨rfl, rfl⟩, _, w, ⟨⟨hfits, rfl⟩, rfl⟩, (), _, rfl, rfl, rfl⟩

theorem nextListingId_ok {w w' : World Store} {id : ℕ} :
    nextListingId w = .ok id w' ↔ w.store.nextListing < 2 ^ 64 ∧ id = w.store.nextListing ∧
      w' = { w with store := { w.store with listingSeq := some id } } :=
  nextId_ok

theorem nextAuctionId_ok {w w' : World Store} {id : ℕ} :
    nextAuctionId w = .ok id w' ↔ w.store.nextAuction < 2 ^ 64 ∧ id = w.store.nextAuction ∧
      w' = { w with store := { w.store with auctionSeq := some id } } :=
  nextId_ok

theorem nextOfferId_ok {w w' : World Store} {id : ℕ} :
    nextOfferId w = .ok id w' ↔ w.store.nextOffer < 2 ^ 64 ∧ id = w.store.nextOffer ∧
      w' = { w with store := { w.store with offerSeq := some id } } :=
  nextId_ok

/-! ## Collections -/

/-- The royalty table of a registered collection. -/
def Store.royaltyConfig? (s : Store) (collection : Address) : Option RoyaltyConfig :=
  (s.collection? collection).map CollectionInfo.royaltyConfig

@[simp] theorem updateCollectionStats_ok {collection : Address} {dl da : ℤ} {w w' : World Store}
    {u : Unit} : updateCollectionStats collection dl da w = .ok u w' ↔
      ∃ s, w.store.bumpStats collection dl da = some s ∧ w' = { w with store := s } := by
  simp [updateCollectionStats]

theorem Store.collection?_set (s : Store) (collection : Address) (info : CollectionInfo)
    (a : Address) :
    Store.collection? { s with
      collections := some ((s.collections.getD ∅).insert collection info) } a =
        if a = collection then some info else s.collection? a :=
  Table.lookup_set _ _ _ _

/-- The counters of a collection are all that changes. -/
theorem Store.bumpStats_some {s s' : Store} {collection : Address} {dl da : ℤ}
    (h : s.bumpStats collection dl da = some s') :
    (∃ collections, s' = { s with collections := collections }) ∧
      ∀ a, s'.royaltyConfig? a = s.royaltyConfig? a := by
  unfold Store.bumpStats at h
  cases hinfo : s.collection? collection with
  | none =>
    rw [hinfo] at h
    cases h
    exact ⟨⟨_, rfl⟩, fun a => rfl⟩
  | some info =>
    rw [hinfo] at h
    simp only [Option.bind_eq_bind, Option.bind_eq_some_iff, Option.some.injEq] at h
    obtain ⟨listings, -, auctions, -, rfl⟩ := h
    refine ⟨⟨_, rfl⟩, fun a => ?_⟩
    unfold Store.royaltyConfig?
    rw [Store.collection?_set]
    split_ifs with ha
    · rw [ha, hinfo]
      rfl
    · rfl

/-- A table that passes the checks has its sum as total and all shares within the bounds. -/
theorem sumShares_ok {rs : List RoyaltyRecipient} {total total' : ℤ} {w w' : World Store}
    (h : sumShares rs total w = .ok total' w') :
    w' = w ∧ total' = total + (rs.map RoyaltyRecipient.shareBps).sum ∧
      ∀ r ∈ rs, 0 ≤ r.shareBps ∧ r.shareBps ≤ maxRoyaltyBps := by
  induction rs generalizing total w with
  | nil =>
    simp only [sumShares, pure_ok] at h
    obtain ⟨rfl, rfl⟩ := h
    simp
  | cons r rs ih =>
    simp only [sumShares, bind_ok, failIf_ok, expect_ok, checkedAdd_eq_some, not_or, not_lt] at h
    obtain ⟨_, _, ⟨hr, rfl⟩, _, _, ⟨⟨-, rfl⟩, rfl⟩, h⟩ := h
    obtain ⟨rfl, rfl, hrs⟩ := ih h
    refine ⟨rfl, ?_, List.forall_mem_cons.mpr ⟨hr, hrs⟩⟩
    rw [List.map_cons, List.sum_cons]
    ring

/-- A table of royalties that a setter has accepted. -/
structure RoyaltyConfig.Accepted (config : RoyaltyConfig) : Prop where
  total_eq : config.totalBps = (config.recipients.map RoyaltyRecipient.shareBps).sum
  bounds : ∀ r ∈ config.recipients, 0 ≤ r.shareBps ∧ r.shareBps ≤ maxRoyaltyBps

/-! ## Escrowed items -/

/-- The listing that `escrowListing` stores. -/
def Store.newListing (s : Store) (now : ℕ) (seller : Address) (item : BulkListingItem) : Listing :=
  ⟨s.nextListing, seller, item.collection, item.tokenId, item.amount, item.price, item.currency,
    .active, now, item.metadataHash⟩

/-- The storage with a new listing. -/
def Store.addListing (s : Store) (l : Listing) : Store :=
  { s with listingSeq := some l.id, listings := s.listings.insert l.id l }

/-- What taking in the item of a listing leaves. -/
structure Listed (env : Env me) (seller : Address) (item : BulkListingItem) (w w' : World Store) :
    Prop where
  fits : w.store.nextListing < 2 ^ 64
  store : (w.store.addListing (w.store.newListing env.timestamp seller item)).bumpStats
    item.collection 1 0 = some w'.store
  shared : w'.shared = w.shared
  tokens : w'.tokens = w.tokens.move ⟨item.collection, seller, me, item.amount⟩

theorem escrowListing_ok {env : Env me} {seller : Address} {item : BulkListingItem}
    {w w' : World Store} {id : ℕ} (h : escrowListing env seller item w = .ok id w') :
    Listed env seller item w w' ∧ id = w.store.nextListing := by
  simp only [escrowListing, bind_ok, nextListingId_ok, transfer_ok, write_ok,
    updateCollectionStats_ok, pure_ok] at h
  obtain ⟨_, _, ⟨hfits, rfl, rfl⟩, _, _, ⟨-, rfl⟩, _, _, rfl, _, _, ⟨s, hs, rfl⟩, rfl, rfl⟩ := h
  exact ⟨⟨hfits, hs, rfl, rfl⟩, rfl⟩

/-- The auction that `escrowAuction` stores. -/
def Store.newAuction (s : Store) (me : Address) (now : ℕ) (seller : Address)
    (item : BulkAuctionItem) (endTime : ℕ) : Auction :=
  ⟨s.nextAuction, item.auctionType, seller, item.collection, item.tokenId, item.amount,
    item.currency, item.startPrice, item.floorPrice, 0, me, .active, now, endTime,
    if item.auctionType = .english then s.getAutoExtensionSeconds else 0, item.metadataHash⟩

/-- The storage with a new auction. -/
def Store.addAuction (s : Store) (a : Auction) : Store :=
  { s with auctionSeq := some a.id, auctions := s.auctions.insert a.id a }

/-- What taking in the item of an auction leaves. -/
structure Auctioned (env : Env me) (seller : Address) (item : BulkAuctionItem) (endTime : ℕ)
    (w w' : World Store) : Prop where
  fits : w.store.nextAuction < 2 ^ 64
  store : (w.store.addAuction (w.store.newAuction me env.timestamp seller item endTime)).bumpStats
    item.collection 0 1 = some w'.store
  shared : w'.shared = w.shared
  tokens : w'.tokens = w.tokens.move ⟨item.collection, seller, me, item.amount⟩

theorem escrowAuction_ok {env : Env me} {seller : Address} {item : BulkAuctionItem}
    {endTime : Option ℕ} {w w' : World Store} {r : ℕ × ℕ}
    (h : escrowAuction env seller item endTime w = .ok r w') :
    endTime = some r.2 ∧ Auctioned env seller item r.2 w w' ∧ r.1 = w.store.nextAuction := by
  simp only [escrowAuction, bind_ok, nextAuctionId_ok, transfer_ok, okOr_ok, read_ok, write_ok,
    updateCollectionStats_ok, pure_ok] at h
  obtain ⟨_, _, ⟨hfits, rfl, rfl⟩, _, _, ⟨-, rfl⟩, e, _, ⟨he, rfl⟩, _, _, ⟨rfl, rfl⟩, _, _, rfl,
    _, _, ⟨s, hs, rfl⟩, rfl, rfl⟩ := h
  exact ⟨he, ⟨hfits, hs, rfl, rfl⟩, rfl⟩

/-! ## Sales -/

/-- What is left of the price for the seller. -/
def sellerProceeds (price platformFee : ℤ) (royaltyAmounts : List (Address × ℤ)) : ℤ :=
  price - platformFee - (royaltyAmounts.map Prod.snd).sum

/-- The payments of a sale: the fee, the royalties and the proceeds. -/
def Sale.payments (sale : Sale) (feeRecipient : Address) (platformFee : ℤ)
    (royaltyAmounts : List (Address × ℤ)) : List TokenTransfer :=
  Transfer.ifPos ⟨sale.currency, sale.payer, feeRecipient, platformFee⟩ ++
    royaltyAmounts.map (fun x => ⟨sale.currency, sale.payer, x.1, x.2⟩) ++
    Transfer.ifPos ⟨sale.currency, sale.payer, sale.seller,
      sellerProceeds sale.price platformFee royaltyAmounts⟩

/-- The transfer of the item. -/
def Sale.handover (me : Address) (sale : Sale) : TokenTransfer :=
  ⟨sale.collection, me, sale.receiver, sale.amount⟩

theorem onlyIf_transfer_ok {env : Env me} {token src dst : Address} {amount : ℤ}
    {w w' : World Store} {u : Unit}
    (h : onlyIf (amount > 0) (transfer env token src dst amount) w =
      (.ok u w' : Outcome (World Store) Trap MarketError Unit)) :
    w' = { w with tokens := w.tokens.moveAll (Transfer.ifPos ⟨token, src, dst, amount⟩) } := by
  rw [onlyIf_ok, transfer_ok] at h
  rcases h with ⟨hpos, -, rfl⟩ | ⟨hnot, rfl⟩
  · rw [Transfer.ifPos, if_pos hpos]
    rfl
  · rw [Transfer.ifPos, if_neg hnot]
    rfl

/-- The event of a royalty that is paid. -/
def royaltyEvent (tokenId paidAt : ℕ) (x : Address × ℤ) : Event :=
  ⟨["nft", "royal"], [.u64 tokenId, .address x.1, .i128 x.2, .u64 paidAt]⟩

/-- The royalties are paid in order, each with its event. -/
theorem distributeRoyalties_ok {env : Env me} {currency src : Address} {xs : List (Address × ℤ)}
    (hpos : ∀ x ∈ xs, 0 < x.2) {tokenId : ℕ} {w w' : World Store} {u : Unit}
    (h : distributeRoyalties env currency src xs tokenId w = .ok u w') :
    w' = { w with
      tokens := w.tokens.moveAll (xs.map fun x => ⟨currency, src, x.1, x.2⟩)
      events := w.events ++ xs.map (royaltyEvent tokenId env.timestamp) } := by
  induction xs generalizing w with
  | nil =>
    simp only [distributeRoyalties, pure_ok] at h
    obtain ⟨-, rfl⟩ := h
    rw [List.map_nil, List.map_nil, Ledger.moveAll_nil, List.append_nil]
  | cons x xs ih =>
    rw [List.forall_mem_cons] at hpos
    simp only [distributeRoyalties, bind_ok, onlyIf_ok, transfer_ok, emitRoyaltyPaid,
      publish_ok] at h
    obtain ⟨_, w₁, ⟨-, _, _, ⟨-, rfl⟩, rfl⟩ | ⟨hnot, -⟩, h⟩ := h
    · rw [ih hpos.2 h, List.map_cons, List.map_cons, Ledger.moveAll_cons]
      dsimp only
      rw [List.append_assoc]
      rfl
    · exact absurd hpos.1 hnot

theorem royaltyAmounts_pos {s : Store} {collection : Address} {price : ℤ} {x : Address × ℤ}
    (hx : x ∈ s.royaltyAmounts collection price) : 0 < x.2 := by
  unfold Store.royaltyAmounts at hx
  cases hinfo : s.collection? collection with
  | none =>
    rw [hinfo] at hx
    cases hx
  | some info =>
    rw [hinfo] at hx
    simp only [Option.map_some, Option.getD_some, computeRoyaltyAmounts] at hx
    split_ifs at hx
    · cases hx
    · simpa using (List.mem_filter.mp hx).2

theorem foldlM_checkedAdd {xs : List ℤ} {start total : ℤ}
    (h : xs.foldlM checkedAdd start = some total) : total = start + xs.sum := by
  induction xs generalizing start with
  | nil =>
    cases h
    simp
  | cons x xs ih =>
    simp only [List.foldlM_cons, Option.bind_eq_bind, Option.bind_eq_some_iff,
      checkedAdd_eq_some] at h
    obtain ⟨_, ⟨-, rfl⟩, h⟩ := h
    rw [ih h, List.sum_cons]
    ring

theorem sumI128_eq {xs : List ℤ} {total : ℤ} (h : sumI128 xs = some total) : total = xs.sum := by
  rw [foldlM_checkedAdd h, zero_add]

/-- What a sale that goes through leaves: the payments are made and the item is handed over. -/
structure Sold (me : Address) (sale : Sale) (feeRecipient : Address) (platformFee : ℤ)
    (w w' : World Store) : Prop where
  recipient : w.store.feeRecipient = some feeRecipient
  fee : computePlatformFee sale.price w.store.getPlatformFeeBps = .ok platformFee
  store : w'.store = w.store
  shared : w'.shared = w.shared
  tokens : w'.tokens = w.tokens.moveAll (sale.payments feeRecipient platformFee
    (w.store.royaltyAmounts sale.collection sale.price) ++ [sale.handover me])

theorem Sold.log {w w' : World Store} {sale : Sale} {feeRecipient : Address} {fee : ℤ}
    (hsold : Sold me sale feeRecipient fee w w') :
    w'.tokens.log = w.tokens.log ++ (sale.payments feeRecipient fee
      (w.store.royaltyAmounts sale.collection sale.price) ++ [sale.handover me]) := by
  rw [hsold.tokens, Ledger.log_moveAll]

theorem paySale_ok {env : Env me} {sale : Sale} {w w' : World Store} {u : Unit}
    (h : paySale env sale w = .ok u w') :
    ∃ feeRecipient platformFee, Sold me sale feeRecipient platformFee w w' ∧
      w'.events = w.events ++ (w.store.royaltyAmounts sale.collection sale.price).map
        (royaltyEvent sale.tokenId env.timestamp) := by
  simp [paySale, -onlyIf_ok, -sub_pos, -Int.sub_pos] at h
  obtain ⟨feeRecipient, hrecipient, platformFee, hfee, total, htotal, -, -, _, w₁, h₁, _, w₂, h₂, _,
    w₃, h₃, -, rfl⟩ := h
  obtain rfl := onlyIf_transfer_ok h₁
  obtain rfl := distributeRoyalties_ok (fun x hx => royaltyAmounts_pos hx) h₂
  obtain rfl := onlyIf_transfer_ok h₃
  refine ⟨feeRecipient, platformFee, ⟨hrecipient, hfee, rfl, rfl, ?_⟩, rfl⟩
  rw [sumI128_eq htotal]
  simp only [Sale.payments, Sale.handover, sellerProceeds, Ledger.moveAll_append,
    Ledger.moveAll_cons, Ledger.moveAll_nil]

/-! ## Calls -/

/-- An item of `bulk_list` is taken in or skipped. -/
def ListedOrSkipped (env : Env me) (seller : Address) (item : BulkListingItem)
    (w w' : World Store) : Prop :=
  if w.store.acceptsListing item = true then Listed env seller item w w' else w' = w

/-- An item of `bulk_create_auctions` is taken in or skipped. -/
def AuctionedOrSkipped (env : Env me) (seller : Address) (item : BulkAuctionItem)
    (w w' : World Store) : Prop :=
  if w.store.acceptsAuction item = true then
    Auctioned env seller item
      ((checkedAddU64 env.timestamp item.durationSeconds).getD (2 ^ 64 - 1)) w w'
  else w' = w

/-- What the taking in of a listing keeps, `bulk_list` keeps. -/
theorem keeps_listed {P : Store → Prop} {env : Env me} {seller : Address}
    (hP : ∀ item w w', P w.store → Listed env seller item w w' → P w'.store)
    {items : List BulkListingItem} {w w' : World Store}
    (heach : Each (ListedOrSkipped env seller) items w w') (h : P w.store) : P w'.store := by
  refine Each.keeps (P := fun w : World Store => P w.store) (fun item w w' hw hitem => ?_) heach h
  unfold ListedOrSkipped at hitem
  split_ifs at hitem
  · exact hP item w w' hw hitem
  · rwa [hitem]

/-- What the taking in of an auction keeps, `bulk_create_auctions` keeps. -/
theorem keeps_auctioned {P : Store → Prop} {env : Env me} {seller : Address}
    (hP : ∀ item endTime w w', P w.store → Auctioned env seller item endTime w w' → P w'.store)
    {items : List BulkAuctionItem} {w w' : World Store}
    (heach : Each (AuctionedOrSkipped env seller) items w w') (h : P w.store) : P w'.store := by
  refine Each.keeps (P := fun w : World Store => P w.store) (fun item w w' hw hitem => ?_) heach h
  unfold AuctionedOrSkipped at hitem
  split_ifs at hitem
  · exact hP item _ w w' hw hitem
  · rwa [hitem]

theorem bulkListLoop_ok {env : Env me} {seller : Address} {items : List BulkListingItem}
    {result result' : BulkResult} {w w' : World Store}
    (h : bulkListLoop env seller items result w = .ok result' w') :
    Each (ListedOrSkipped env seller) items w w' := by
  induction items generalizing result w with
  | nil =>
    simp only [bulkListLoop, pure_ok] at h
    obtain ⟨-, rfl⟩ := h
    exact .nil _
  | cons item items ih =>
    simp only [bulkListLoop, bind_ok, read_ok, ite_ok] at h
    obtain ⟨_, _, ⟨rfl, rfl⟩, ⟨haccepts, id, w₁, hitem, h⟩ | ⟨hskip, h⟩⟩ := h
    · refine .cons ?_ (ih h)
      rw [ListedOrSkipped, if_pos haccepts]
      exact (escrowListing_ok hitem).1
    · refine .cons ?_ (ih h)
      rw [ListedOrSkipped, if_neg hskip]

theorem bulkAuctionLoop_ok {env : Env me} {seller : Address} {items : List BulkAuctionItem}
    {result result' : BulkResult} {w w' : World Store}
    (h : bulkAuctionLoop env seller items result w = .ok result' w') :
    Each (AuctionedOrSkipped env seller) items w w' := by
  induction items generalizing result w with
  | nil =>
    simp only [bulkAuctionLoop, pure_ok] at h
    obtain ⟨-, rfl⟩ := h
    exact .nil _
  | cons item items ih =>
    simp only [bulkAuctionLoop, bind_ok, read_ok, ite_ok] at h
    obtain ⟨_, _, ⟨rfl, rfl⟩, ⟨haccepts, opened, w₁, hitem, h⟩ | ⟨hskip, h⟩⟩ := h
    · refine .cons ?_ (ih h)
      obtain ⟨hend, hitem, -⟩ := escrowAuction_ok hitem
      rw [AuctionedOrSkipped, if_pos haccepts, Option.some.inj hend]
      exact hitem
    · refine .cons ?_ (ih h)
      rw [AuctionedOrSkipped, if_neg hskip]

/-- What a successful call has checked, and the state it leaves. -/
inductive Done (env : Env me) (w : World Store) : Entry → World Store → Prop where
  | init {admin : Address} {fee : ℤ} {recipient : Address} {increment : ℤ} {extension : ℕ}
      (events : List Event) (hfee : 0 ≤ fee ∧ fee ≤ maxFeeBps)
      (hincrement : 0 ≤ increment ∧ increment ≤ 5000) :
      Done env w (.init admin fee recipient increment extension) { w with
        shared := { w.shared with admin := some admin }
        store := { w.store with
          platformFeeBps := some fee
          feeRecipient := some recipient
          bidIncrementBps := some increment
          autoExt := some extension
          currencies := some ∅
          collections := some ∅
          listingSeq := some 0
          auctionSeq := some 0
          offerSeq := some 0 }
        events := events }
  | setPlatformFee {caller : Address} {bps : ℤ} (events : List Event)
      (hadmin : w.shared.admin = some caller) (hsigned : env.signed caller = true)
      (hbps : 0 ≤ bps ∧ bps ≤ maxFeeBps) :
      Done env w (.setPlatformFee caller bps)
        { w with store := { w.store with platformFeeBps := some bps }, events := events }
  | setFeeRecipient {caller recipient : Address} (events : List Event)
      (hadmin : w.shared.admin = some caller) (hsigned : env.signed caller = true) :
      Done env w (.setFeeRecipient caller recipient)
        { w with store := { w.store with feeRecipient := some recipient }, events := events }
  | setBidIncrement {caller : Address} {bps : ℤ} (events : List Event)
      (hadmin : w.shared.admin = some caller) (hsigned : env.signed caller = true)
      (hbps : 0 ≤ bps ∧ bps ≤ 5000) :
      Done env w (.setBidIncrement caller bps)
        { w with store := { w.store with bidIncrementBps := some bps }, events := events }
  | setAutoExtension {caller : Address} {seconds : ℕ} (events : List Event)
      (hadmin : w.shared.admin = some caller) (hsigned : env.signed caller = true)
      (hseconds : seconds ≤ 3600) :
      Done env w (.setAutoExtension caller seconds)
        { w with store := { w.store with autoExt := some seconds }, events := events }
  | setCurrency {caller currency : Address} {whitelisted : Bool} (events : List Event)
      (hadmin : w.shared.admin = some caller) (hsigned : env.signed caller = true) :
      Done env w (.setCurrency caller currency whitelisted) { w with
        store := { w.store with
          currencies := some ((w.store.currencies.getD ∅).insert currency whitelisted) }
        events := events }
  | setOracle {caller oracle : Address} (events : List Event)
      (hadmin : w.shared.admin = some caller) (hsigned : env.signed caller = true) :
      Done env w (.setOracle caller oracle)
        { w with store := { w.store with oracle := some oracle }, events := events }
  | registerCollection {caller collection : Address} {name : Symbol} {uri hash : Bytes}
      {standard : TokenStandard} {royalties : List RoyaltyRecipient} (events : List Event)
      (totalBps : ℤ) (hadmin : w.shared.admin = some caller) (hsigned : env.signed caller = true)
      (hnew : w.store.collection? collection = none) (hhash : hash.length = metadataHashLen)
      (haccepted : RoyaltyConfig.Accepted ⟨royalties, totalBps⟩)
      (hlength : royalties.length ≤ maxRoyaltyRecipients) :
      Done env w (.registerCollection caller collection name uri hash standard royalties) { w with
        store := { w.store with
          collections := some ((w.store.collections.getD ∅).insert collection
            ⟨collection, caller, name, uri, hash, standard, ⟨royalties, totalBps⟩, env.timestamp,
              0, 0⟩) }
        events := events }
  | setCollectionRoyalties {caller collection : Address} {royalties : List RoyaltyRecipient}
      (info : CollectionInfo) (totalBps : ℤ) (hsigned : env.signed caller = true)
      (hinfo : w.store.collection? collection = some info) (howner : info.admin = caller)
      (haccepted : RoyaltyConfig.Accepted ⟨royalties, totalBps⟩) :
      Done env w (.setCollectionRoyalties caller collection royalties) { w with
        store := { w.store with
          collections := some ((w.store.collections.getD ∅).insert collection
            { info with royaltyConfig := ⟨royalties, totalBps⟩ }) } }
  | listNft {seller collection : Address} {tokenId amount : ℕ} {price : ℤ} {currency : Address}
      {hash : Bytes} (w₁ : World Store) (events : List Event)
      (hactive : w.shared.paused.getD false = false) (hsigned : env.signed seller = true)
      (hprice : 0 < price) (hcurrency : w.store.isCurrencyWhitelisted currency = true)
      (hhash : hash.length = metadataHashLen)
      (hcollection : (w.store.collection? collection).isSome = true)
      (hlisted : Listed env seller ⟨collection, tokenId, amount, price, currency, hash⟩ w w₁) :
      Done env w (.listNft seller collection tokenId amount price currency hash)
        { w₁ with events := events }
  | buyNft {buyer : Address} {id : ℕ} (l : Listing) (feeRecipient : Address) (platformFee : ℤ)
      (w₁ : World Store) (s : Store) (events : List Event)
      (hactive : w.shared.paused.getD false = false) (hsigned : env.signed buyer = true)
      (hl : w.store.listings.lookup id = some l) (hopen : l.status = .active)
      (hsold : Sold me (l.sale buyer) feeRecipient platformFee
        { w with store :=
          { w.store with listings := w.store.listings.insert id { l with status := .sold } } } w₁)
      (hstats : w₁.store.bumpStats l.collection (-1) 0 = some s) :
      Done env w (.buyNft buyer id) { w₁ with store := s, events := events }
  | cancelListing {caller : Address} {id : ℕ} (l : Listing) (s : Store)
      (hsigned : env.signed caller = true) (hl : w.store.listings.lookup id = some l)
      (hopen : l.status = .active) (hseller : l.seller = caller)
      (hstats : Store.bumpStats { w.store with
        listings := w.store.listings.insert id { l with status := .cancelled } }
        l.collection (-1) 0 = some s) :
      Done env w (.cancelListing caller id) { w with
        store := s
        tokens := w.tokens.move ⟨l.collection, me, l.seller, l.amount⟩ }
  | createEnglishAuction {seller collection : Address} {tokenId amount : ℕ} {start : ℤ}
      {currency : Address} {duration : ℕ} {hash : Bytes} (w₁ : World Store) (endTime : ℕ)
      (events : List Event)
      (hactive : w.shared.paused.getD false = false) (hsigned : env.signed seller = true)
      (hstart : 0 < start) (hcurrency : w.store.isCurrencyWhitelisted currency = true)
      (hhash : hash.length = metadataHashLen)
      (hcollection : (w.store.collection? collection).isSome = true)
      (hduration : 0 < duration ∧ duration ≤ maxDuration)
      (hend : checkedAddU64 env.timestamp duration = some endTime)
      (hauctioned : Auctioned env seller
        ⟨collection, tokenId, amount, .english, start, 0, currency, duration, hash⟩ endTime w w₁) :
      Done env w
        (.createEnglishAuction seller collection tokenId amount start currency duration hash)
        { w₁ with events := events }
  | placeBid {bidder : Address} {id : ℕ} {bid : ℤ} (a : Auction) (least : ℤ) (newEnd : ℕ)
      (events : List Event)
      (hactive : w.shared.paused.getD false = false) (hsigned : env.signed bidder = true)
      (hbid : 0 < bid) (ha : w.store.auctions.lookup id = some a) (hopen : a.status = .active)
      (htype : a.auctionType = .english) (htime : env.timestamp < a.endTime)
      (hleast : minBid a w.store.getBidIncrementBps = .ok least) (hle : least ≤ bid)
      (hother : ¬ (a.currentBid > 0 ∧ a.currentBidder = bidder))
      (hend : extendedEnd a env.timestamp = .ok newEnd) :
      Done env w (.placeBid bidder id bid) { w with
        store := { w.store with
          auctions := w.store.auctions.insert id { a with
            currentBid := bid
            currentBidder := bidder
            endTime := newEnd } }
        tokens := w.tokens.moveAll
          (Transfer.ifPos ⟨a.currency, me, a.currentBidder, a.currentBid⟩ ++
            [⟨a.currency, bidder, me, bid⟩])
        events := events }
  | settleUnsold {id : ℕ} (a : Auction) (s : Store)
      (hactive : w.shared.paused.getD false = false) (ha : w.store.auctions.lookup id = some a)
      (hopen : a.status = .active ∨ a.status = .ended) (htime : a.endTime ≤ env.timestamp)
      (hbid : a.currentBid = 0)
      (hstats : Store.bumpStats { w.store with
        auctions := w.store.auctions.insert id { a with status := .settled } }
        a.collection 0 (-1) = some s) :
      Done env w (.settleEnglishAuction id) { w with
        store := s
        tokens := w.tokens.move ⟨a.collection, me, a.seller, a.amount⟩ }
  | settleSold {id : ℕ} (a : Auction) (feeRecipient : Address) (platformFee : ℤ)
      (w₁ : World Store) (s : Store) (events : List Event)
      (hactive : w.shared.paused.getD false = false) (ha : w.store.auctions.lookup id = some a)
      (hopen : a.status = .active ∨ a.status = .ended) (htime : a.endTime ≤ env.timestamp)
      (hbid : a.currentBid ≠ 0)
      (hsold : Sold me (a.settlement me) feeRecipient platformFee { w with
        store := { w.store with
          auctions := w.store.auctions.insert id { a with status := .settled } } } w₁)
      (hstats : w₁.store.bumpStats a.collection 0 (-1) = some s) :
      Done env w (.settleEnglishAuction id) { w₁ with store := s, events := events }
  | createDutchAuction {seller collection : Address} {tokenId amount : ℕ} {start floor : ℤ}
      {currency : Address} {duration : ℕ} {hash : Bytes} (w₁ : World Store) (endTime : ℕ)
      (events : List Event)
      (hactive : w.shared.paused.getD false = false) (hsigned : env.signed seller = true)
      (hstart : 0 < start) (hfloor : 0 < floor)
      (hcurrency : w.store.isCurrencyWhitelisted currency = true)
      (hhash : hash.length = metadataHashLen)
      (hcollection : (w.store.collection? collection).isSome = true) (hprices : floor < start)
      (hduration : 0 < duration ∧ duration ≤ maxDuration)
      (hend : checkedAddU64 env.timestamp duration = some endTime)
      (hauctioned : Auctioned env seller
        ⟨collection, tokenId, amount, .dutch, start, floor, currency, duration, hash⟩ endTime w
        w₁) :
      Done env w
        (.createDutchAuction seller collection tokenId amount start floor currency duration hash)
        { w₁ with events := events }
  | buyDutchAuction {buyer : Address} {id : ℕ} (a : Auction) (price : ℤ) (feeRecipient : Address)
      (platformFee : ℤ) (w₁ : World Store) (s : Store) (events : List Event)
      (hactive : w.shared.paused.getD false = false) (hsigned : env.signed buyer = true)
      (ha : w.store.auctions.lookup id = some a) (hopen : a.status = .active)
      (htype : a.auctionType = .dutch) (hprice : dutchAuctionPrice env.timestamp a = .ok price)
      (hne : price ≠ 0)
      (hsold : Sold me (a.sale buyer price) feeRecipient platformFee { w with
        store := { w.store with
          auctions := w.store.auctions.insert id { a with status := .settled } } } w₁)
      (hstats : w₁.store.bumpStats a.collection 0 (-1) = some s) :
      Done env w (.buyDutchAuction buyer id) { w₁ with store := s, events := events }
  | cancelDutchAuction {caller : Address} {id : ℕ} (a : Auction) (s : Store)
      (hsigned : env.signed caller = true) (ha : w.store.auctions.lookup id = some a)
      (hopen : a.status = .active) (htype : a.auctionType = .dutch) (hseller : a.seller = caller)
      (hstats : Store.bumpStats { w.store with
        auctions := w.store.auctions.insert id { a with status := .cancelled } }
        a.collection 0 (-1) = some s) :
      Done env w (.cancelDutchAuction caller id) { w with
        store := s
        tokens := w.tokens.move ⟨a.collection, me, a.seller, a.amount⟩ }
  | makeOffer {offerer recipient collection : Address} {tokenId amount : ℕ} {offerAmount : ℤ}
      {currency nftCollection : Address} {nftTokenId duration : ℕ} (expiresAt : ℕ)
      (events : List Event)
      (hactive : w.shared.paused.getD false = false) (hsigned : env.signed offerer = true)
      (hamount : 0 < offerAmount) (hcurrency : w.store.isCurrencyWhitelisted currency = true)
      (hduration : 0 < duration ∧ duration ≤ maxDuration) (hfits : w.store.nextOffer < 2 ^ 64)
      (hexpires : checkedAddU64 env.timestamp duration = some expiresAt) :
      Done env w (.makeOffer offerer recipient collection tokenId amount offerAmount currency
        nftCollection nftTokenId duration) { w with
        store := { w.store with
          offerSeq := some w.store.nextOffer
          offers := w.store.offers.insert w.store.nextOffer ⟨w.store.nextOffer, offerer, recipient,
            collection, tokenId, amount, offerAmount, currency, nftCollection, nftTokenId,
            .pending, env.timestamp, expiresAt⟩ }
        tokens := w.tokens.move ⟨currency, offerer, me, offerAmount⟩
        events := events }
  | acceptOffer {caller : Address} {id : ℕ} (o : Offer) (platformFee : ℤ) (feeRecipient : Address)
      (events : List Event)
      (hactive : w.shared.paused.getD false = false) (hsigned : env.signed caller = true)
      (ho : w.store.offers.lookup id = some o) (hopen : o.status = .pending)
      (hrecipient : o.recipient = caller) (htime : env.timestamp ≤ o.expiresAt)
      (hfee : computePlatformFee o.offerAmount w.store.getPlatformFeeBps = .ok platformFee)
      (hfeeRecipient : w.store.feeRecipient = some feeRecipient) :
      Done env w (.acceptOffer caller id) { w with
        store := { w.store with
          offers := w.store.offers.insert id { o with status := .accepted } }
        tokens := w.tokens.moveAll
          (Transfer.ifPos ⟨o.currency, me, feeRecipient, platformFee⟩ ++
            Transfer.ifPos ⟨o.currency, me, o.recipient, o.offerAmount - platformFee⟩ ++
            [⟨o.collection, caller, o.offerer, o.amount⟩])
        events := events }
  | cancelOffer {caller : Address} {id : ℕ} (o : Offer) (hsigned : env.signed caller = true)
      (ho : w.store.offers.lookup id = some o) (hopen : o.status = .pending)
      (hofferer : o.offerer = caller) :
      Done env w (.cancelOffer caller id) { w with
        store := { w.store with
          offers := w.store.offers.insert id { o with status := .cancelled } }
        tokens := w.tokens.move ⟨o.currency, me, o.offerer, o.offerAmount⟩ }
  | bulkList {seller : Address} {items : List BulkListingItem} (w' : World Store)
      (hactive : w.shared.paused.getD false = false) (hsigned : env.signed seller = true)
      (hlength : 0 < items.length ∧ items.length ≤ maxBulkSize)
      (heach : Each (ListedOrSkipped env seller) items w w') :
      Done env w (.bulkList seller items) w'
  | bulkCreateAuctions {seller : Address} {items : List BulkAuctionItem} (w' : World Store)
      (hactive : w.shared.paused.getD false = false) (hsigned : env.signed seller = true)
      (hlength : 0 < items.length ∧ items.length ≤ maxBulkSize)
      (heach : Each (AuctionedOrSkipped env seller) items w w') :
      Done env w (.bulkCreateAuctions seller items) w'

theorem init_done {env : Env me} {admin : Address} {fee : ℤ} {recipient : Address}
    {increment : ℤ} {extension : ℕ} {w w' : World Store} {u : Unit}
    (h : init env admin fee recipient increment extension w = .ok u w') :
    Done env w (.init admin fee recipient increment extension) w' := by
  simp [init] at h
  obtain ⟨hfee, hincrement, rfl⟩ := h
  exact .init _ hfee hincrement

theorem setPlatformFee_done {env : Env me} {caller : Address} {bps : ℤ} {w w' : World Store}
    {u : Unit} (h : setPlatformFee env caller bps w = .ok u w') :
    Done env w (.setPlatformFee caller bps) w' := by
  simp [setPlatformFee] at h
  obtain ⟨⟨hadmin, hsigned⟩, hbps, rfl⟩ := h
  exact .setPlatformFee _ hadmin hsigned hbps

theorem setFeeRecipient_done {env : Env me} {caller recipient : Address} {w w' : World Store}
    {u : Unit} (h : setFeeRecipient env caller recipient w = .ok u w') :
    Done env w (.setFeeRecipient caller recipient) w' := by
  simp [setFeeRecipient] at h
  obtain ⟨⟨hadmin, hsigned⟩, rfl⟩ := h
  exact .setFeeRecipient _ hadmin hsigned

theorem setBidIncrement_done {env : Env me} {caller : Address} {bps : ℤ} {w w' : World Store}
    {u : Unit} (h : setBidIncrement env caller bps w = .ok u w') :
    Done env w (.setBidIncrement caller bps) w' := by
  simp [setBidIncrement] at h
  obtain ⟨⟨hadmin, hsigned⟩, hbps, rfl⟩ := h
  exact .setBidIncrement _ hadmin hsigned hbps

theorem setAutoExtension_done {env : Env me} {caller : Address} {seconds : ℕ} {w w' : World Store}
    {u : Unit} (h : setAutoExtension env caller seconds w = .ok u w') :
    Done env w (.setAutoExtension caller seconds) w' := by
  simp [setAutoExtension] at h
  obtain ⟨⟨hadmin, hsigned⟩, hseconds, rfl⟩ := h
  exact .setAutoExtension _ hadmin hsigned hseconds

theorem setCurrency_done {env : Env me} {caller currency : Address} {whitelisted : Bool}
    {w w' : World Store} {u : Unit} (h : setCurrency env caller currency whitelisted w = .ok u w') :
    Done env w (.setCurrency caller currency whitelisted) w' := by
  simp [setCurrency] at h
  obtain ⟨⟨hadmin, hsigned⟩, rfl⟩ := h
  exact .setCurrency _ hadmin hsigned

theorem setOracle_done {env : Env me} {caller oracle : Address} {w w' : World Store} {u : Unit}
    (h : setOracle env caller oracle w = .ok u w') : Done env w (.setOracle caller oracle) w' := by
  simp [setOracle] at h
  obtain ⟨⟨hadmin, hsigned⟩, rfl⟩ := h
  exact .setOracle _ hadmin hsigned

theorem registerCollection_done {env : Env me} {caller collection : Address} {name : Symbol}
    {uri hash : Bytes} {standard : TokenStandard} {royalties : List RoyaltyRecipient}
    {w w' : World Store} {u : Unit}
    (h : registerCollection env caller collection name uri hash standard royalties w = .ok u w') :
    Done env w (.registerCollection caller collection name uri hash standard royalties) w' := by
  simp [registerCollection] at h
  obtain ⟨⟨hadmin, hsigned⟩, hnew, hhash, total, w₁, hsum, hlength, rfl⟩ := h
  obtain ⟨rfl, htotal, hbounds⟩ := sumShares_ok hsum
  rw [zero_add] at htotal
  exact .registerCollection _ total hadmin hsigned hnew hhash ⟨htotal, hbounds⟩ hlength

theorem setCollectionRoyalties_done {env : Env me} {caller collection : Address}
    {royalties : List RoyaltyRecipient} {w w' : World Store} {u : Unit}
    (h : setCollectionRoyalties env caller collection royalties w = .ok u w') :
    Done env w (.setCollectionRoyalties caller collection royalties) w' := by
  simp [setCollectionRoyalties] at h
  obtain ⟨hsigned, collections, hcollections, info, hinfo, howner, total, w₁, hsum, rfl⟩ := h
  obtain ⟨rfl, htotal, hbounds⟩ := sumShares_ok hsum
  rw [zero_add] at htotal
  have htable : w₁.store.collections.getD ∅ = collections := by
    rw [hcollections]
    rfl
  rw [← htable] at hinfo ⊢
  exact .setCollectionRoyalties info total hsigned hinfo howner ⟨htotal, hbounds⟩

theorem listNft_done {env : Env me} {seller collection : Address} {tokenId amount : ℕ} {price : ℤ}
    {currency : Address} {hash : Bytes} {w w' : World Store} {id : ℕ}
    (h : listNft env seller collection tokenId amount price currency hash w = .ok id w') :
    Done env w (.listNft seller collection tokenId amount price currency hash) w' := by
  simp [listNft] at h
  obtain ⟨hactive, hsigned, hprice, hcurrency, hhash, hcollection, w₁, hitem, rfl⟩ := h
  obtain ⟨hlisted, -⟩ := escrowListing_ok hitem
  exact .listNft w₁ _ hactive hsigned hprice hcurrency hhash hcollection hlisted

theorem buyNft_done {env : Env me} {buyer : Address} {id : ℕ} {w w' : World Store} {u : Unit}
    (h : buyNft env buyer id w = .ok u w') : Done env w (.buyNft buyer id) w' := by
  simp [buyNft] at h
  obtain ⟨hactive, hsigned, l, hl, hopen, _, w₁, hpay, s, hstats, rfl⟩ := h
  obtain ⟨feeRecipient, platformFee, hsold, -⟩ := paySale_ok hpay
  exact .buyNft l feeRecipient platformFee w₁ s _ hactive hsigned hl hopen hsold hstats

theorem cancelListing_done {env : Env me} {caller : Address} {id : ℕ} {w w' : World Store}
    {u : Unit} (h : cancelListing env caller id w = .ok u w') :
    Done env w (.cancelListing caller id) w' := by
  simp [cancelListing] at h
  obtain ⟨hsigned, l, hl, hopen, hseller, -, s, hstats, rfl⟩ := h
  exact .cancelListing l s hsigned hl hopen hseller hstats

theorem createEnglishAuction_done {env : Env me} {seller collection : Address}
    {tokenId amount : ℕ} {start : ℤ} {currency : Address} {duration : ℕ} {hash : Bytes}
    {w w' : World Store} {id : ℕ}
    (h : createEnglishAuction env seller collection tokenId amount start currency duration hash w =
      .ok id w') :
    Done env w
      (.createEnglishAuction seller collection tokenId amount start currency duration hash) w' := by
  simp [createEnglishAuction] at h
  obtain ⟨hactive, hsigned, hstart, hcurrency, hhash, hcollection, hduration, endTime, w₁, hitem,
    rfl⟩ := h
  obtain ⟨hend, hauctioned, -⟩ := escrowAuction_ok hitem
  exact .createEnglishAuction w₁ endTime _ hactive hsigned hstart hcurrency hhash hcollection
    hduration hend hauctioned

theorem placeBid_done {env : Env me} {bidder : Address} {id : ℕ} {bid : ℤ} {w w' : World Store}
    {u : Unit} (h : placeBid env bidder id bid w = .ok u w') :
    Done env w (.placeBid bidder id bid) w' := by
  simp [placeBid, -onlyIf_ok] at h
  obtain ⟨hactive, hsigned, hbid, a, ha, hopen, htype, _, w₁, hlate, least, hleast, hle, hother, _,
    w₂, hrefund, -, newEnd, hend, rfl⟩ := h
  -- a late bid fails, and takes its write back with it
  obtain ⟨htime, rfl⟩ := onlyIf_ok_of_fails (by simp) hlate
  obtain rfl := onlyIf_transfer_ok hrefund
  dsimp only
  rw [← Ledger.moveAll_concat]
  exact .placeBid a least newEnd _ hactive hsigned hbid ha hopen htype (not_le.mp htime) hleast hle
    (not_and.mpr hother) hend

theorem settleEnglishAuction_done {env : Env me} {id : ℕ} {w w' : World Store} {u : Unit}
    (h : settleEnglishAuction env id w = .ok u w') : Done env w (.settleEnglishAuction id) w' := by
  simp [settleEnglishAuction] at h
  obtain ⟨hactive, a, ha, -, hstatus, htime, h⟩ := h
  have hopen : a.status = .active ∨ a.status = .ended := by
    by_cases hac : a.status = .active
    · exact .inl hac
    · exact .inr (hstatus hac)
  rcases h with ⟨hbid, -, s, hstats, rfl⟩ | ⟨hbid, _, w₁, hpay, s, hstats, rfl⟩
  · exact .settleUnsold a s hactive ha hopen htime hbid hstats
  · obtain ⟨feeRecipient, platformFee, hsold, -⟩ := paySale_ok hpay
    exact .settleSold a feeRecipient platformFee w₁ s _ hactive ha hopen htime hbid hsold hstats

theorem createDutchAuction_done {env : Env me} {seller collection : Address}
    {tokenId amount : ℕ} {start floor : ℤ} {currency : Address} {duration : ℕ} {hash : Bytes}
    {w w' : World Store} {id : ℕ}
    (h : createDutchAuction env seller collection tokenId amount start floor currency duration hash
      w = .ok id w') :
    Done env w
      (.createDutchAuction seller collection tokenId amount start floor currency duration hash)
      w' := by
  simp [createDutchAuction] at h
  obtain ⟨hactive, hsigned, hstart, hfloor, hcurrency, hhash, hcollection, hprices, hduration,
    endTime, w₁, hitem, rfl⟩ := h
  obtain ⟨hend, hauctioned, -⟩ := escrowAuction_ok hitem
  exact .createDutchAuction w₁ endTime _ hactive hsigned hstart hfloor hcurrency hhash hcollection
    hprices hduration hend hauctioned

theorem buyDutchAuction_done {env : Env me} {buyer : Address} {id : ℕ} {w w' : World Store}
    {u : Unit} (h : buyDutchAuction env buyer id w = .ok u w') :
    Done env w (.buyDutchAuction buyer id) w' := by
  simp [buyDutchAuction] at h
  obtain ⟨hactive, hsigned, a, ha, hopen, htype, price, hprice, hne, _, w₁, hpay, s, hstats,
    rfl⟩ := h
  obtain ⟨feeRecipient, platformFee, hsold, -⟩ := paySale_ok hpay
  exact .buyDutchAuction a price feeRecipient platformFee w₁ s _ hactive hsigned ha hopen htype
    hprice hne hsold hstats

theorem cancelDutchAuction_done {env : Env me} {caller : Address} {id : ℕ} {w w' : World Store}
    {u : Unit} (h : cancelDutchAuction env caller id w = .ok u w') :
    Done env w (.cancelDutchAuction caller id) w' := by
  simp [cancelDutchAuction] at h
  obtain ⟨hsigned, a, ha, hopen, htype, hseller, -, s, hstats, rfl⟩ := h
  exact .cancelDutchAuction a s hsigned ha hopen htype hseller hstats

theorem makeOffer_done {env : Env me} {offerer recipient collection : Address}
    {tokenId amount : ℕ} {offerAmount : ℤ} {currency nftCollection : Address}
    {nftTokenId duration : ℕ} {w w' : World Store} {id : ℕ}
    (h : makeOffer env offerer recipient collection tokenId amount offerAmount currency
      nftCollection nftTokenId duration w = .ok id w') :
    Done env w (.makeOffer offerer recipient collection tokenId amount offerAmount currency
      nftCollection nftTokenId duration) w' := by
  simp [makeOffer, nextOfferId_ok] at h
  obtain ⟨hactive, hsigned, hamount, hcurrency, hduration, hfits, hexpires, -, rfl, rfl⟩ := h
  exact .makeOffer _ _ hactive hsigned hamount hcurrency hduration hfits
    (checkedAddU64_eq_some.mpr ⟨hexpires, rfl⟩)

theorem acceptOffer_done {env : Env me} {caller : Address} {id : ℕ} {w w' : World Store} {u : Unit}
    (h : acceptOffer env caller id w = .ok u w') : Done env w (.acceptOffer caller id) w' := by
  simp [acceptOffer, -onlyIf_ok, -sub_pos, -Int.sub_pos] at h
  obtain ⟨hactive, hsigned, o, ho, hopen, hrecipient, _, w₁, hlate, platformFee, hfee, -,
    feeRecipient, hfeeRecipient, _, w₂, hpayFee, _, w₃, hpaySeller, -, rfl⟩ := h
  -- accepting an expired offer fails, and takes its write and its refund back with it
  obtain ⟨htime, rfl⟩ := onlyIf_ok_of_fails (by simp) hlate
  obtain rfl := onlyIf_transfer_ok hpayFee
  obtain rfl := onlyIf_transfer_ok hpaySeller
  dsimp only
  rw [← Ledger.moveAll_append, ← Ledger.moveAll_concat]
  exact .acceptOffer o platformFee feeRecipient _ hactive hsigned ho hopen hrecipient
    (not_lt.mp htime) hfee hfeeRecipient

theorem cancelOffer_done {env : Env me} {caller : Address} {id : ℕ} {w w' : World Store} {u : Unit}
    (h : cancelOffer env caller id w = .ok u w') : Done env w (.cancelOffer caller id) w' := by
  simp [cancelOffer] at h
  obtain ⟨hsigned, o, ho, hopen, hofferer, -, rfl⟩ := h
  exact .cancelOffer o hsigned ho hopen hofferer

theorem bulkList_done {env : Env me} {seller : Address} {items : List BulkListingItem}
    {result : BulkResult} {w w' : World Store} (h : bulkList env seller items w = .ok result w') :
    Done env w (.bulkList seller items) w' := by
  simp [bulkList] at h
  obtain ⟨hactive, hsigned, ⟨hne, hlength⟩, hloop⟩ := h
  exact .bulkList w' hactive hsigned ⟨List.length_pos_iff.mpr hne, hlength⟩ (bulkListLoop_ok hloop)

theorem bulkCreateAuctions_done {env : Env me} {seller : Address} {items : List BulkAuctionItem}
    {result : BulkResult} {w w' : World Store}
    (h : bulkCreateAuctions env seller items w = .ok result w') :
    Done env w (.bulkCreateAuctions seller items) w' := by
  simp [bulkCreateAuctions] at h
  obtain ⟨hactive, hsigned, ⟨hne, hlength⟩, hloop⟩ := h
  exact .bulkCreateAuctions w' hactive hsigned ⟨List.length_pos_iff.mpr hne, hlength⟩
    (bulkAuctionLoop_ok hloop)

/-- A call leaves the state alone, or it succeeds and does what `Done` says. -/
theorem exec_cases (env : Env me) (c : Entry) (w : World Store) :
    exec env c w = w ∨ Done env w c (exec env c w) := by
  cases c with
  | init => exact commit_imp fun _ _ => init_done
  | setPlatformFee => exact commit_imp fun _ _ => setPlatformFee_done
  | setFeeRecipient => exact commit_imp fun _ _ => setFeeRecipient_done
  | setBidIncrement => exact commit_imp fun _ _ => setBidIncrement_done
  | setAutoExtension => exact commit_imp fun _ _ => setAutoExtension_done
  | setCurrency => exact commit_imp fun _ _ => setCurrency_done
  | setOracle => exact commit_imp fun _ _ => setOracle_done
  | registerCollection => exact commit_imp fun _ _ => registerCollection_done
  | setCollectionRoyalties => exact commit_imp fun _ _ => setCollectionRoyalties_done
  | listNft => exact commit_imp fun _ _ => listNft_done
  | buyNft => exact commit_imp fun _ _ => buyNft_done
  | cancelListing => exact commit_imp fun _ _ => cancelListing_done
  | createEnglishAuction => exact commit_imp fun _ _ => createEnglishAuction_done
  | placeBid => exact commit_imp fun _ _ => placeBid_done
  | settleEnglishAuction => exact commit_imp fun _ _ => settleEnglishAuction_done
  | createDutchAuction => exact commit_imp fun _ _ => createDutchAuction_done
  | buyDutchAuction => exact commit_imp fun _ _ => buyDutchAuction_done
  | cancelDutchAuction => exact commit_imp fun _ _ => cancelDutchAuction_done
  | makeOffer => exact commit_imp fun _ _ => makeOffer_done
  | acceptOffer => exact commit_imp fun _ _ => acceptOffer_done
  | cancelOffer => exact commit_imp fun _ _ => cancelOffer_done
  | bulkList => exact commit_imp fun _ _ => bulkList_done
  | bulkCreateAuctions => exact commit_imp fun _ _ => bulkCreateAuctions_done

theorem step_cases (s : Step me Entry) (w : World Store) :
    (∃ (env : Env me) (x : TokenTransfer), step s w = outsideTransfer env x w) ∨ step s w = w ∨
      ∃ env c w', s = .call env c ∧ step s w = w' ∧ Done env w c w' :=
  Step.cases exec_cases s w

end Trellis.Market
