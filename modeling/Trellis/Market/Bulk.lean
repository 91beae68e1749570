import Trellis.Lib.Lockstep
import Trellis.Market.Sales

/-!
# Bulk operations against single ones

`bulk_list` and `bulk_create_auctions` make the checks and take in the items of `list_nft`, and of
the two auction constructors, in a loop of their own, without the events. The states of the bulk and
of the single operations are compared up to their events.

Results:
* `bulkListLoop_eq`, `bulkAuctionLoop_eq`: the loops skip what their checks reject and count it.
* `listItem_eq`, `createItem_eq`: a single operation is its checks, the taking in of the item and an
  event.
* `bulkList_agrees`: `bulk_list` does what `list_nft` does for the items that its checks accept, and
  nothing at all when one of them cannot be taken in.
* `bulkCreateAuctions_agrees_iff`: `bulk_create_auctions` agrees with the auction constructors
  exactly when every item that it accepts is one that they accept, with the same floor price and
  end.
-/

namespace Trellis.Market

open Exec

variable {me : Address}

/-! ## States up to their events -/

/-- What a state holds beside its events. -/
def contents (w : World Store) : SharedStore × Store × TokenLedger := (w.shared, w.store, w.tokens)

theorem contents_eq {w v : World Store} :
    contents w = contents v ↔ w.shared = v.shared ∧ w.store = v.store ∧ w.tokens = v.tokens := by
  simp [contents]

theorem lockstep_read {α : Type} (g : Store → α) :
    Lockstep contents (read g : Invocation Store MarketError α) (read g) := by
  apply Lockstep.gets
  intro w v hwv
  rw [(contents_eq.mp hwv).2.1]

theorem lockstep_write (g : Store → Store) :
    Lockstep contents (write g : Invocation Store MarketError Unit) (write g) := by
  apply Lockstep.update
  intro w v hwv
  obtain ⟨hshared, hstore, htokens⟩ := contents_eq.mp hwv
  exact contents_eq.mpr ⟨hshared, congrArg g hstore, htokens⟩

theorem lockstep_transfer (env : Env me) (token src dst : Address) (amount : ℤ) :
    Lockstep contents (transfer env token src dst amount : Invocation Store MarketError Unit)
      (transfer env token src dst amount) := by
  unfold transfer
  refine (Lockstep.trapIf _ _).bind fun _ => (Lockstep.trapIf _ _).bind fun _ => ?_
  refine (Lockstep.gets ?_).bind fun tokens => ?_
  · intro w v hwv
    exact (contents_eq.mp hwv).2.2
  refine (Lockstep.trapIf _ _).bind fun _ => (Lockstep.trapIf _ _).bind fun _ => ?_
  apply Lockstep.update
  intro w v hwv
  obtain ⟨hshared, hstore, htokens⟩ := contents_eq.mp hwv
  exact contents_eq.mpr ⟨hshared, hstore, congrArg (Ledger.move · _) htokens⟩

theorem lockstep_updateCollectionStats (collection : Address) (dl da : ℤ) :
    Lockstep contents (updateCollectionStats collection dl da)
      (updateCollectionStats collection dl da) :=
  (lockstep_read _).bind fun _ => (Lockstep.expect _ _).bind fun _ => lockstep_write _

theorem lockstep_escrowListing (env : Env me) (seller : Address) (item : BulkListingItem) :
    Lockstep contents (escrowListing env seller item) (escrowListing env seller item) := by
  have hid : Lockstep contents nextListingId nextListingId :=
    (lockstep_read _).bind fun _ => (Lockstep.okOr _ _).bind fun _ =>
      (lockstep_write _).bind fun _ =>
      Lockstep.pure _
  unfold escrowListing
  refine hid.bind fun id => (lockstep_transfer _ _ _ _ _).bind fun _ => ?_
  exact (lockstep_write _).bind fun _ => (lockstep_updateCollectionStats _ _ _).bind fun _ =>
    Lockstep.pure _

theorem lockstep_escrowAuction (env : Env me) (seller : Address) (item : BulkAuctionItem)
    (endTime : Option ℕ) :
    Lockstep contents (escrowAuction env seller item endTime)
      (escrowAuction env seller item endTime) := by
  have hid : Lockstep contents nextAuctionId nextAuctionId :=
    (lockstep_read _).bind fun _ => (Lockstep.okOr _ _).bind fun _ =>
      (lockstep_write _).bind fun _ =>
      Lockstep.pure _
  unfold escrowAuction
  refine hid.bind fun id => (lockstep_transfer _ _ _ _ _).bind fun _ => ?_
  refine (Lockstep.okOr _ _).bind fun _ => (lockstep_read _).bind fun _ => ?_
  exact (lockstep_write _).bind fun _ => (lockstep_updateCollectionStats _ _ _).bind fun _ =>
    Lockstep.pure _

/-! ## The loops -/

/-- The checks of `bulk_list` accept the item in the state. -/
def BulkListingItem.accepted (item : BulkListingItem) (w : World Store) : Bool :=
  w.store.acceptsListing item

/-- The checks of `bulk_create_auctions` accept the item in the state. -/
def BulkAuctionItem.accepted (item : BulkAuctionItem) (w : World Store) : Bool :=
  w.store.acceptsAuction item

/-- The result after `count` more items, of which those with the given ids were taken in. -/
def BulkResult.after (r : BulkResult) (ids : List ℕ) (count : ℕ) : BulkResult :=
  ⟨r.succeeded + ids.length, r.failed + (count - ids.length), r.ids ++ ids⟩

/-- A loop that takes in or skips each of its items collects the ids of those that it takes in. -/
theorem bulkLoop_eq {ι : Type} {accepts : ι → World Store → Bool}
    {op : ι → Invocation Store MarketError ℕ}
    {L : List ι → BulkResult → Invocation Store MarketError BulkResult}
    (hnil : ∀ r, L [] r = pure r)
    (htake : ∀ i is r w, accepts i w = true →
      L (i :: is) r w = (op i >>= fun id => L is (r.success id)) w)
    (hskip : ∀ i is r w, accepts i w = false → L (i :: is) r w = L is r.failure w)
    (is : List ι) (r : BulkResult) :
    L is r = collect accepts op is >>= fun ids => pure (r.after ids is.length) := by
  induction is generalizing r with
  | nil =>
    rw [hnil]
    funext w
    show Outcome.ok r w = .ok (r.after [] 0) w
    simp [BulkResult.after]
  | cons i is ih =>
    funext w
    by_cases haccepts : accepts i w = true
    · rw [htake i is r w haccepts]
      cases hop : op i w with
      | fail e w₁ =>
        rw [bind_of_fail hop, bind_of_fail]
        rw [collect_take haccepts, bind_of_fail hop]
      | ok id w₁ =>
        rw [bind_of_ok hop, ih]
        cases hrest : collect accepts op is w₁ with
        | fail e w₂ =>
          rw [bind_of_fail hrest, bind_of_fail]
          rw [collect_take haccepts, bind_of_ok hop, bind_of_fail hrest]
        | ok ids w₂ =>
          have hwhole : collect accepts op (i :: is) w = .ok (id :: ids) w₂ :=
            (collect_take_ok haccepts).mpr ⟨id, w₁, ids, hop, hrest, rfl⟩
          rw [bind_of_ok hrest, bind_of_ok hwhole]
          show Outcome.ok _ w₂ = .ok _ w₂
          simp [BulkResult.after, BulkResult.success, Nat.add_assoc, Nat.add_comm 1]
    · have hskipped : accepts i w = false := Bool.not_eq_true _ ▸ haccepts
      rw [hskip i is r w hskipped, ih]
      cases hrest : collect accepts op is w with
      | fail e w₁ =>
        rw [bind_of_fail hrest, bind_of_fail]
        rw [collect_skip hskipped, hrest]
      | ok ids w₁ =>
        have hwhole : collect accepts op (i :: is) w = .ok ids w₁ := by
          rw [collect_skip hskipped, hrest]
        have hlength := collect_length hrest
        have hcount : r.failed + 1 + (is.length - ids.length) =
            r.failed + (is.length + 1 - ids.length) := by omega
        rw [bind_of_ok hrest, bind_of_ok hwhole]
        show Outcome.ok _ w₁ = .ok _ w₁
        simp [BulkResult.after, BulkResult.failure, hcount]

/-- The taking in of an item, as the loop of `bulk_create_auctions` does it. -/
def bulkAuctionItem (env : Env me) (seller : Address) (item : BulkAuctionItem) :
    Invocation Store MarketError ℕ := do
  let opened ← escrowAuction env seller item
    (some ((checkedAddU64 env.timestamp item.durationSeconds).getD (2 ^ 64 - 1)))
  pure opened.1

theorem bulkListLoop_eq (env : Env me) (seller : Address) (items : List BulkListingItem)
    (result : BulkResult) : bulkListLoop env seller items result =
      collect BulkListingItem.accepted (escrowListing env seller) items >>=
        fun ids => pure (result.after ids items.length) := by
  refine bulkLoop_eq (L := bulkListLoop env seller) (fun r => rfl) ?_ ?_ items result
  · intro item items r w haccepts
    show (if item.accepted w = true then _ else _ : Invocation _ _ _) w = _
    rw [if_pos haccepts]
  · intro item items r w hskip
    show (if item.accepted w = true then _ else _ : Invocation _ _ _) w = _
    rw [if_neg (by rw [hskip]; exact Bool.false_ne_true)]

theorem bulkAuctionLoop_eq (env : Env me) (seller : Address) (items : List BulkAuctionItem)
    (result : BulkResult) : bulkAuctionLoop env seller items result =
      collect BulkAuctionItem.accepted (bulkAuctionItem env seller) items >>=
        fun ids => pure (result.after ids items.length) := by
  refine bulkLoop_eq (L := bulkAuctionLoop env seller) (fun r => rfl) ?_ ?_ items result
  · intro item items r w haccepts
    show (if item.accepted w = true then _ else _ : Invocation _ _ _) w = _
    rw [if_pos haccepts, bulkAuctionItem, bind_bind]
    rfl
  · intro item items r w hskip
    show (if item.accepted w = true then _ else _ : Invocation _ _ _) w = _
    rw [if_neg (by rw [hskip]; exact Bool.false_ne_true)]

/-! ## `list_nft`, item by item -/

/-- `list_nft` with the fields of an item. -/
def listItem (env : Env me) (seller : Address) (item : BulkListingItem) :
    Invocation Store MarketError ℕ :=
  listNft env seller item.collection item.tokenId item.amount item.price item.currency
    item.metadataHash

/-- The checks that `list_nft` makes before it takes in the item
    (contracts/nft-marketplace/src/lib.rs:749–755). -/
def listChecks (env : Env me) (seller : Address) (item : BulkListingItem) :
    Invocation Store MarketError Unit := do
  requireNotPaused
  requireAuth env seller
  validatePrice item.price
  validateCurrency item.currency
  validateMetadataHash item.metadataHash
  verifyCollection item.collection

theorem listItem_eq (env : Env me) (seller : Address) (item : BulkListingItem) :
    listItem env seller item = listChecks env seller item >>= fun _ =>
      escrowListing env seller item >>= fun id => (do
        emitNftListed id seller item.collection item.tokenId item.price item.currency env.timestamp
        pure id) := by
  simp only [listChecks, bind_bind]
  rfl

theorem listChecks_ok {env : Env me} {seller : Address} {item : BulkListingItem}
    {w w' : World Store} {u : Unit} : listChecks env seller item w = .ok u w' ↔
      (w.shared.paused.getD false = false ∧ env.signed seller = true ∧
        w.store.acceptsListing item = true) ∧ w' = w := by
  simp [listChecks, Store.acceptsListing, and_assoc]

/-- `list_nft` for the items in order, skipping those that its checks reject. -/
def listEach (env : Env me) (seller : Address) :
    List BulkListingItem → Invocation Store MarketError (List ℕ) :=
  collect (fun item w => ((listChecks env seller item).value w).isSome) (listItem env seller)

section

variable {env : Env me} {seller : Address} {w v : World Store}

/-- The checks of `list_nft` that `bulk_list` makes once are those of the caller. -/
theorem listChecks_succeed (hactive : w.shared.paused.getD false = false)
    (hsigned : env.signed seller = true) (item : BulkListingItem) :
    ((listChecks env seller item).value w).isSome = w.store.acceptsListing item := by
  rw [Bool.eq_iff_iff, Option.isSome_iff_exists]
  constructor
  · rintro ⟨u, hvalue⟩
    exact (listChecks_ok.mp (value_eq_some.mp hvalue)).1.2.2
  · intro haccepts
    exact ⟨(), value_of_ok (listChecks_ok.mpr ⟨⟨hactive, hsigned, haccepts⟩, rfl⟩)⟩

theorem alike_listItem (hactive : w.shared.paused.getD false = false)
    (hsigned : env.signed seller = true) {item : BulkListingItem} (hwv : contents w = contents v)
    (haccepts : w.store.acceptsListing item = true) :
    (escrowListing env seller item w).Alike contents (listItem env seller item v) := by
  obtain ⟨hshared, hstore, -⟩ := contents_eq.mp hwv
  rw [hshared] at hactive
  rw [hstore] at haccepts
  have hchecks : listChecks env seller item v = .ok () v :=
    listChecks_ok.mpr ⟨⟨hactive, hsigned, haccepts⟩, rfl⟩
  rw [listItem_eq, bind_of_ok hchecks]
  refine (lockstep_escrowListing env seller item w v hwv).hide ?_
  exact fun id v' => ⟨_, rfl, rfl⟩

theorem alike_listEach (hactive : w.shared.paused.getD false = false)
    (hsigned : env.signed seller = true) (items : List BulkListingItem)
    (hwv : contents w = contents v) :
    (collect BulkListingItem.accepted (escrowListing env seller) items w).Alike
      contents (listEach env seller items v) := by
  refine collect_alike (I := fun w : World Store => w.shared.paused.getD false = false) ?_ ?_ ?_
    hactive hwv
  · intro item _ w v hactive hwv
    obtain ⟨hshared, hstore, -⟩ := contents_eq.mp hwv
    rw [listChecks_succeed (hshared ▸ hactive) hsigned, BulkListingItem.accepted, hstore]
  · intro item _ w v hactive hwv haccepts
    exact alike_listItem hactive hsigned hwv haccepts
  · intro item _ w id w' hactive _ hitem
    rw [(escrowListing_ok hitem).1.shared]
    exact hactive

/-- What `bulk_list` has done when it returns. -/
theorem bulkList_ok {items : List BulkListingItem} {result : BulkResult} {w' : World Store} :
    bulkList env seller items w = .ok result w' ↔
      (w.shared.paused.getD false = false ∧ env.signed seller = true ∧
        0 < items.length ∧ items.length ≤ maxBulkSize) ∧
      ∃ ids, collect BulkListingItem.accepted (escrowListing env seller) items w =
        .ok ids w' ∧ result = BulkResult.after ⟨0, 0, []⟩ ids items.length := by
  simp only [bulkList, bulkListLoop_eq, bind_ok, requireNotPaused_ok, requireAuth_ok, failIf_ok,
    pure_ok, not_or, not_lt]
  constructor
  · rintro ⟨_, _, ⟨hactive, rfl⟩, _, _, ⟨hsigned, rfl⟩, _, _, ⟨hlength, rfl⟩, ids, _,
      hloop, rfl, rfl⟩
    exact ⟨⟨hactive, hsigned, Nat.pos_of_ne_zero hlength.1, hlength.2⟩, ids, hloop, rfl⟩
  · rintro ⟨⟨hactive, hsigned, hpos, hlength⟩, ids, hloop, rfl⟩
    exact ⟨(), w, ⟨hactive, rfl⟩, (), w, ⟨hsigned, rfl⟩, (), w, ⟨⟨hpos.ne', hlength⟩, rfl⟩, ids, w',
      hloop, rfl, rfl⟩

theorem after_counts {ids : List ℕ} {count : ℕ} (hle : ids.length ≤ count) :
    (BulkResult.after ⟨0, 0, []⟩ ids count).ids = ids ∧
      (BulkResult.after ⟨0, 0, []⟩ ids count).succeeded = ids.length ∧
      (BulkResult.after ⟨0, 0, []⟩ ids count).succeeded +
        (BulkResult.after ⟨0, 0, []⟩ ids count).failed = count := by
  refine ⟨List.nil_append ids, Nat.zero_add _, ?_⟩
  show 0 + ids.length + (0 + (count - ids.length)) = count
  omega

end

/-- When `bulk_list` returns, it has done what `list_nft` does for the items in order, skipping
    those that its checks reject. When an item that they accept cannot be taken in, it changes
    nothing. -/
theorem bulkList_agrees (env : Env me) (seller : Address) (items : List BulkListingItem)
    (w : World Store) :
    (∀ result w', bulkList env seller items w = .ok result w' →
      result.succeeded = result.ids.length ∧ result.succeeded + result.failed = items.length ∧
        ∃ w₁, listEach env seller items w = .ok result.ids w₁ ∧ contents w' = contents w₁) ∧
    ∀ before item after ids w₁, items = before ++ item :: after →
      listEach env seller before w = .ok ids w₁ → (listChecks env seller item).Succeeds w₁ →
      ¬ (listItem env seller item).Succeeds w₁ → exec env (.bulkList seller items) w = w := by
  constructor
  · intro result w' h
    obtain ⟨⟨hactive, hsigned, -⟩, ids, hloop, rfl⟩ := bulkList_ok.mp h
    obtain ⟨hids, hsucceeded, hcount⟩ := after_counts (collect_length hloop)
    obtain ⟨w₁, heach, hsame⟩ := (alike_listEach hactive hsigned items rfl).of_ok hloop
    rw [hids]
    exact ⟨hsucceeded, hcount, w₁, heach, hsame⟩
  · intro before item after ids w₁ hsplit hreach hchecks hnot
    apply commit_of_fails
    rintro ⟨result, w', h⟩
    obtain ⟨⟨hactive, hsigned, -⟩, ids', hloop, -⟩ := bulkList_ok.mp h
    obtain ⟨v, heach, -⟩ := (alike_listEach hactive hsigned items rfl).of_ok hloop
    -- a loop of single operations that succeeds has listed every item that passes the checks
    subst hsplit
    refine hnot (collect_succeeds_at ⟨_, _, heach⟩ hreach ?_)
    obtain ⟨u, w₂, hok⟩ := hchecks
    rw [value_of_ok hok]
    rfl

/-- The item of the seller for a price. -/
def itemFor (price : ℤ) : BulkListingItem := ⟨⟨7⟩, 1, 1, price, ⟨9⟩, someHash⟩

/-- The seller lists in bulk. -/
def bulkEnv : Env ⟨0⟩ := .signedBy ⟨0⟩ 2 2 [⟨2⟩]

/-- An item without a price is skipped and the other listed; the item a second time is too much. -/
theorem bulkList_agrees_two :
    (∃ w₁, listEach bulkEnv ⟨2⟩ [itemFor 0, itemFor 10] (run step opened (openedWith 1)) =
      .ok [1] w₁ ∧ contents (exec bulkEnv (.bulkList ⟨2⟩ [itemFor 0, itemFor 10])
        (run step opened (openedWith 1))) = contents w₁) ∧
    exec bulkEnv (.bulkList ⟨2⟩ [itemFor 10, itemFor 20]) (run step opened (openedWith 1)) =
      run step opened (openedWith 1) := by
  constructor
  · exact ((bulkList_agrees bulkEnv ⟨2⟩ [itemFor 0, itemFor 10] (run step opened (openedWith 1))).1
      ⟨1, 1, [1]⟩ _ rfl).2.2
  · exact (bulkList_agrees bulkEnv ⟨2⟩ [itemFor 10, itemFor 20]
      (run step opened (openedWith 1))).2 [itemFor 10] (itemFor 20) [] [1]
        ((listEach bulkEnv ⟨2⟩ [itemFor 10]).commit (run step opened (openedWith 1))) rfl rfl
        ⟨(), _, rfl⟩ (value_eq_none.mp rfl)

/-! ## The auction constructors, item by item -/

/-- The constructor of the type of an item, with its fields. -/
def createItem (env : Env me) (seller : Address) (item : BulkAuctionItem) :
    Invocation Store MarketError ℕ :=
  match item.auctionType with
  | .english => createEnglishAuction env seller item.collection item.tokenId item.amount
      item.startPrice item.currency item.durationSeconds item.metadataHash
  | .dutch => createDutchAuction env seller item.collection item.tokenId item.amount
      item.startPrice item.floorPrice item.currency item.durationSeconds item.metadataHash

/-- The checks that the constructors make before they take in the item
    (contracts/nft-marketplace/src/lib.rs:908–918 and 1150–1164). -/
def createChecks (env : Env me) (seller : Address) (item : BulkAuctionItem) :
    Invocation Store MarketError Unit := do
  requireNotPaused
  requireAuth env seller
  validatePrice item.startPrice
  onlyIf (item.auctionType = .dutch) (validatePrice item.floorPrice)
  validateCurrency item.currency
  validateMetadataHash item.metadataHash
  verifyCollection item.collection
  onlyIf (item.auctionType = .dutch)
    (failIf (item.floorPrice ≥ item.startPrice) .invalidDutchAuctionPrices)
  validateDuration item.durationSeconds

/-- The item as its constructor stores it: an English auction has no floor price. -/
def BulkAuctionItem.single (item : BulkAuctionItem) : BulkAuctionItem :=
  { item with floorPrice := if item.auctionType = .english then 0 else item.floorPrice }

theorem createItem_eq (env : Env me) (seller : Address) (item : BulkAuctionItem) :
    createItem env seller item = createChecks env seller item >>= fun _ =>
      escrowAuction env seller item.single (checkedAddU64 env.timestamp item.durationSeconds) >>=
        fun opened => (do
          emitNftAuction opened.1 seller item.collection item.tokenId item.startPrice opened.2
          pure opened.1) := by
  obtain ⟨collection, tokenId, amount, type, start, floor, currency, duration, hash⟩ := item
  simp only [createChecks, bind_bind]
  cases type <;> rfl

theorem createChecks_ok {env : Env me} {seller : Address} {item : BulkAuctionItem}
    {w w' : World Store} {u : Unit} : createChecks env seller item w = .ok u w' ↔
      ((w.shared.paused.getD false = false ∧ env.signed seller = true) ∧
        w.store.acceptsAuction item = true ∧
        (item.auctionType = .dutch → 0 < item.floorPrice) ∧
        w.store.isCurrencyWhitelisted item.currency = true ∧
        item.metadataHash.length = metadataHashLen) ∧ w' = w := by
  by_cases htype : item.auctionType = .dutch <;>
    simp [createChecks, Store.acceptsAuction, htype, and_assoc, Nat.pos_iff_ne_zero] <;> tauto

/-- The constructors for the items in order that `bulk_create_auctions` accepts. -/
def createEach (env : Env me) (seller : Address) :
    List BulkAuctionItem → Invocation Store MarketError (List ℕ) :=
  collect BulkAuctionItem.accepted (createItem env seller)

/-- What the constructor of an item asks beyond the checks of `bulk_create_auctions`, and where it
    stores what `bulk_create_auctions` stores: the currency is whitelisted, the hash has its length,
    a Dutch auction has a positive floor price and an English one none, and the end fits. -/
structure BulkAuctionItem.Sound (env : Env me) (s : Store) (item : BulkAuctionItem) : Prop where
  currency : s.isCurrencyWhitelisted item.currency = true
  hash : item.metadataHash.length = metadataHashLen
  floor : if item.auctionType = .english then item.floorPrice = 0 else 0 < item.floorPrice
  ends : env.timestamp + item.durationSeconds < 2 ^ 64

section

variable {env : Env me} {seller : Address} {item : BulkAuctionItem} {w v w' : World Store} {id : ℕ}

/-- What an auction constructor that succeeds has checked, and what it leaves. -/
theorem createItem_ok (h : createItem env seller item w = .ok id w') :
    ((item.auctionType = .dutch → 0 < item.floorPrice) ∧
        w.store.isCurrencyWhitelisted item.currency = true ∧
        item.metadataHash.length = metadataHashLen) ∧
      env.timestamp + item.durationSeconds < 2 ^ 64 ∧
      ∃ w₁, Auctioned env seller item.single (env.timestamp + item.durationSeconds) w w₁ ∧
        w'.store = w₁.store := by
  rw [createItem_eq] at h
  obtain ⟨u, w₁, hchecks, hrest⟩ := bind_ok.mp h
  obtain ⟨⟨-, -, hextra⟩, rfl⟩ := createChecks_ok.mp hchecks
  obtain ⟨opened, w₂, hopened, hlast⟩ := bind_ok.mp hrest
  obtain ⟨hend, hauctioned, -⟩ := escrowAuction_ok hopened
  obtain ⟨hfits, hend⟩ := checkedAddU64_eq_some.mp hend
  rw [hend] at hauctioned
  simp only [emitNftAuction, bind_ok, publish_ok, pure_ok] at hlast
  obtain ⟨_, _, rfl, -, rfl⟩ := hlast
  exact ⟨hextra, hfits, w₂, hauctioned, rfl⟩

theorem alike_createItem (hactive : w.shared.paused.getD false = false)
    (hsigned : env.signed seller = true) (hwv : contents w = contents v)
    (haccepts : w.store.acceptsAuction item = true) (hsound : item.Sound env w.store) :
    (bulkAuctionItem env seller item w).Alike contents (createItem env seller item v) := by
  obtain ⟨hshared, hstore, -⟩ := contents_eq.mp hwv
  have hfloor : item.auctionType = .dutch → 0 < item.floorPrice := by
    intro htype
    have h := hsound.floor
    rwa [htype, if_neg (by decide)] at h
  have hsingle : item.single = item := by
    unfold BulkAuctionItem.single
    by_cases htype : item.auctionType = .english
    · have h := hsound.floor
      rw [if_pos htype] at h
      rw [if_pos htype, ← h]
    · rw [if_neg htype]
  have hend : checkedAddU64 env.timestamp item.durationSeconds =
      some (env.timestamp + item.durationSeconds) := checkedAddU64_eq_some.mpr ⟨hsound.ends, rfl⟩
  have hchecks : createChecks env seller item v = .ok () v := by
    rw [createChecks_ok, ← hshared, ← hstore]
    exact ⟨⟨⟨hactive, hsigned⟩, haccepts, hfloor, hsound.currency, hsound.hash⟩, rfl⟩
  rw [createItem_eq, bind_of_ok hchecks, hsingle, bulkAuctionItem, hend]
  refine alike_bind (lockstep_escrowAuction env seller item _ w v hwv) ?_
  intro opened w' v' _ _ hsame
  exact .ok hsame

/-! ## What both loops keep -/

/-- The acceptance of auctions depends on the same settings. -/
structure SameSettings (s s' : Store) : Prop where
  currencies : s'.currencies = s.currencies
  registered : ∀ c, (s'.collection? c).isSome = (s.collection? c).isSome

theorem SameSettings.accepts {s s' : Store} (h : SameSettings s s') (item : BulkAuctionItem) :
    s'.acceptsAuction item = s.acceptsAuction item := by
  unfold Store.acceptsAuction
  rw [h.registered]

theorem SameSettings.sound {s s' : Store} (h : SameSettings s s') :
    item.Sound env s' ↔ item.Sound env s := by
  have hcurrency :
      s'.isCurrencyWhitelisted item.currency = s.isCurrencyWhitelisted item.currency := by
    unfold Store.isCurrencyWhitelisted
    rw [h.currencies]
  constructor
  · rintro ⟨hlisted, hhash, hfloor, hends⟩
    exact ⟨hcurrency ▸ hlisted, hhash, hfloor, hends⟩
  · rintro ⟨hlisted, hhash, hfloor, hends⟩
    exact ⟨hcurrency ▸ hlisted, hhash, hfloor, hends⟩

/-- An auction that is taken in is stored under the next id, and the settings stay. -/
theorem Auctioned.spec {endTime : ℕ} (h : Auctioned env seller item endTime w w') :
    w'.store.auctions = w.store.auctions.insert w.store.nextAuction
        (w.store.newAuction me env.timestamp seller item endTime) ∧
      w'.store.nextAuction = w.store.nextAuction + 1 ∧ SameSettings w.store w'.store := by
  obtain ⟨⟨collections, heq⟩, hroyalties⟩ := Store.bumpStats_some h.store
  refine ⟨by rw [heq]; rfl, by rw [heq]; rfl, by rw [heq]; rfl, fun c => ?_⟩
  have hc := congrArg Option.isSome (hroyalties c)
  rwa [Store.royaltyConfig?, Store.royaltyConfig?, Option.isSome_map, Option.isSome_map] at hc

theorem Auctioned.keeps {endTime n : ℕ} {a : Auction}
    (h : Auctioned env seller item endTime w w')
    (ha : n < w.store.nextAuction ∧ w.store.auctions.lookup n = some a) :
    n < w'.store.nextAuction ∧ w'.store.auctions.lookup n = some a := by
  obtain ⟨hauctions, hnext, -⟩ := h.spec
  rw [hnext, hauctions, Table.lookup_set, if_neg ha.1.ne]
  exact ⟨Nat.lt_succ_of_lt ha.1, ha.2⟩

theorem Auctioned.stored {endTime : ℕ} (h : Auctioned env seller item endTime w w') :
    w.store.nextAuction < w'.store.nextAuction ∧ w'.store.auctions.lookup w.store.nextAuction =
      some (w.store.newAuction me env.timestamp seller item endTime) := by
  obtain ⟨hauctions, hnext, -⟩ := h.spec
  rw [hnext, hauctions, Table.lookup_set, if_pos rfl]
  exact ⟨Nat.lt_succ_self _, rfl⟩

theorem bulkAuctionItem_ok (h : bulkAuctionItem env seller item w = .ok id w') :
    ∃ endTime, Auctioned env seller item endTime w w' := by
  obtain ⟨opened, w₁, hopened, hlast⟩ := bind_ok.mp h
  obtain ⟨-, rfl⟩ := pure_ok.mp hlast
  exact ⟨_, (escrowAuction_ok hopened).2.1⟩

variable {items : List BulkAuctionItem} {ids : List ℕ} {v' : World Store} {n : ℕ} {a : Auction}

theorem stored_bulk (ha : n < w.store.nextAuction ∧ w.store.auctions.lookup n = some a)
    (h : collect BulkAuctionItem.accepted (bulkAuctionItem env seller) items w = .ok ids w') :
    n < w'.store.nextAuction ∧ w'.store.auctions.lookup n = some a := by
  refine collect_keeps (I := fun s : World Store =>
    n < s.store.nextAuction ∧ s.store.auctions.lookup n = some a) ?_ ha h
  intro item _ s id s' hs _ hop
  obtain ⟨endTime, hauctioned⟩ := bulkAuctionItem_ok hop
  exact hauctioned.keeps hs

theorem stored_each (ha : n < w.store.nextAuction ∧ w.store.auctions.lookup n = some a)
    (h : createEach env seller items w = .ok ids w') :
    n < w'.store.nextAuction ∧ w'.store.auctions.lookup n = some a := by
  refine collect_keeps (I := fun s : World Store =>
    n < s.store.nextAuction ∧ s.store.auctions.lookup n = some a) ?_ ha h
  intro item _ s id s' hs _ hop
  obtain ⟨-, -, s₁, hauctioned, hstore⟩ := createItem_ok hop
  rw [hstore]
  exact hauctioned.keeps hs

/-- An item that the constructors take in, and whose floor price they keep, is sound. -/
theorem sound_of_floor (hcurrency : w.store.isCurrencyWhitelisted item.currency = true)
    (hhash : item.metadataHash.length = metadataHashLen)
    (hends : env.timestamp + item.durationSeconds < 2 ^ 64)
    (hfloor : item.single.floorPrice = item.floorPrice)
    (hdutch : item.auctionType = .dutch → 0 < item.floorPrice) : item.Sound env w.store := by
  refine ⟨hcurrency, hhash, ?_, hends⟩
  by_cases htype : item.auctionType = .english
  · rw [if_pos htype, ← hfloor, BulkAuctionItem.single, if_pos htype]
  · rw [if_neg htype]
    apply hdutch
    cases hkind : item.auctionType with
    | english => exact absurd hkind htype
    | dutch => rfl

theorem sound_of_same (hactive : w.shared.paused.getD false = false)
    (hsigned : env.signed seller = true) (hwv : contents w = contents v)
    (hbulk : collect BulkAuctionItem.accepted (bulkAuctionItem env seller) items w =
      .ok ids w')
    (heach : createEach env seller items v = .ok ids v') (hsame : contents w' = contents v') :
    ∀ item ∈ items, w.store.acceptsAuction item = true → item.Sound env w.store := by
  induction items generalizing w v ids with
  | nil =>
    intro item hitem
    cases hitem
  | cons item items ih =>
    have hstore : w.store = v.store := (contents_eq.mp hwv).2.1
    rw [List.forall_mem_cons]
    have hagree : ∀ j : BulkAuctionItem, j.accepted v = j.accepted w := by
      intro j
      rw [BulkAuctionItem.accepted, BulkAuctionItem.accepted, hstore]
    by_cases haccepts : item.accepted w = true
    · obtain ⟨id, w₁, rest, hitem, hloop, rfl⟩ := (collect_take_ok haccepts).mp hbulk
      obtain ⟨id', v₁, rest', hcreate, hrest, hids⟩ :=
        (collect_take_ok ((hagree item).trans haccepts)).mp heach
      obtain ⟨endTime, hauctioned⟩ := bulkAuctionItem_ok hitem
      obtain ⟨hextra, hends, v₂, hsingle, hv₂⟩ := createItem_ok hcreate
      -- the two records of the item are still there at the end
      have hstored := hsingle.stored
      rw [← hv₂, ← hstore] at hstored
      have hrecord := (stored_bulk hauctioned.stored hloop).2
      rw [(contents_eq.mp hsame).2.1, (stored_each hstored hrest).2] at hrecord
      have hfloor : item.single.floorPrice = item.floorPrice :=
        congrArg Auction.floorPrice (Option.some.inj hrecord)
      have hsound : item.Sound env w.store :=
        sound_of_floor (hstore ▸ hextra.2.1) hextra.2.2 hends hfloor hextra.1
      -- so that both go on from the same state
      obtain ⟨v₃, hv₃, hnext⟩ := (alike_createItem hactive hsigned hwv haccepts hsound).of_ok hitem
      rw [hcreate] at hv₃
      cases hv₃
      obtain ⟨-, rfl⟩ := List.cons.inj hids
      obtain ⟨-, -, hsettings⟩ := hauctioned.spec
      refine ⟨fun _ => hsound, fun j hj haccept => ?_⟩
      apply hsettings.sound.mp
      exact ih (hauctioned.shared ▸ hactive) hnext hloop hrest j hj (by rwa [hsettings.accepts])
    · have hskip : item.accepted w = false := Bool.not_eq_true _ ▸ haccepts
      rw [collect_skip hskip] at hbulk
      rw [createEach, collect_skip ((hagree item).trans hskip)] at heach
      exact ⟨fun h => absurd h haccepts, ih hactive hwv hbulk heach⟩

theorem alike_createEach (hactive : w.shared.paused.getD false = false)
    (hsigned : env.signed seller = true) (hwv : contents w = contents v)
    (hsound : ∀ item ∈ items, w.store.acceptsAuction item = true → item.Sound env w.store) :
    (collect BulkAuctionItem.accepted (bulkAuctionItem env seller) items w).Alike
      contents (createEach env seller items v) := by
  refine collect_alike (I := fun s : World Store =>
    s.shared.paused.getD false = false ∧ SameSettings w.store s.store) ?_ ?_ ?_
    ⟨hactive, rfl, fun _ => rfl⟩ hwv
  · intro item _ s t _ hst
    rw [BulkAuctionItem.accepted, BulkAuctionItem.accepted, (contents_eq.mp hst).2.1]
  · intro item hitem s t hs hst haccepts
    refine alike_createItem hs.1 hsigned hst haccepts (hs.2.sound.mpr (hsound item hitem ?_))
    rwa [BulkAuctionItem.accepted, hs.2.accepts] at haccepts
  · intro item _ s id s' hs _ hop
    obtain ⟨endTime, hauctioned⟩ := bulkAuctionItem_ok hop
    obtain ⟨-, -, hsettings⟩ := hauctioned.spec
    refine ⟨hauctioned.shared ▸ hs.1, ?_, fun c => ?_⟩
    · rw [hsettings.currencies, hs.2.currencies]
    · rw [hsettings.registered, hs.2.registered]

end

/-- What `bulk_create_auctions` has done when it returns. -/
theorem bulkCreateAuctions_ok {env : Env me} {seller : Address} {items : List BulkAuctionItem}
    {result : BulkResult} {w w' : World Store}
    (h : bulkCreateAuctions env seller items w = .ok result w') :
    (w.shared.paused.getD false = false ∧ env.signed seller = true) ∧
      ∃ ids, collect BulkAuctionItem.accepted (bulkAuctionItem env seller) items w = .ok ids w' ∧
        result = BulkResult.after ⟨0, 0, []⟩ ids items.length := by
  simp only [bulkCreateAuctions, bulkAuctionLoop_eq, bind_ok, requireNotPaused_ok, requireAuth_ok,
    failIf_ok, pure_ok] at h
  obtain ⟨_, _, ⟨hactive, rfl⟩, _, _, ⟨hsigned, rfl⟩, _, _, ⟨-, rfl⟩, ids, _, hloop, rfl, rfl⟩ := h
  exact ⟨⟨hactive, hsigned⟩, ids, hloop, rfl⟩

/-- `bulk_create_auctions`, which has returned `result` and left `w'`, agrees with the single
    operations: it has accepted the items that their checks accept in the state it had reached, the
    auctions and the balances are theirs for the items accepted, and every item is counted. -/
structure AgreesWithSingles (env : Env me) (seller : Address) (items : List BulkAuctionItem)
    (w w' : World Store) (result : BulkResult) : Prop where
  accepted : ∀ before item after result₁ w₁, items = before ++ item :: after →
    bulkAuctionLoop env seller before ⟨0, 0, []⟩ w = .ok result₁ w₁ →
      (w₁.store.acceptsAuction item = true ↔ (createChecks env seller item).Succeeds w₁)
  final : ∃ w₁, createEach env seller items w = .ok result.ids w₁ ∧ contents w' = contents w₁
  count : result.succeeded + result.failed = items.length

/-- `bulk_create_auctions` agrees with the single operations exactly when every item that it accepts
    is sound. -/
theorem bulkCreateAuctions_agrees_iff {env : Env me} {seller : Address}
    {items : List BulkAuctionItem} {result : BulkResult} {w w' : World Store}
    (h : bulkCreateAuctions env seller items w = .ok result w') :
    AgreesWithSingles env seller items w w' result ↔
      ∀ item ∈ items, w.store.acceptsAuction item = true → item.Sound env w.store := by
  obtain ⟨⟨hactive, hsigned⟩, ids, hloop, rfl⟩ := bulkCreateAuctions_ok h
  obtain ⟨hids, -, hcount⟩ := after_counts (collect_length hloop)
  constructor
  · intro hagrees
    obtain ⟨w₁, heach, hsame⟩ := hagrees.final
    rw [hids] at heach
    exact sound_of_same hactive hsigned rfl hloop heach hsame
  · intro hsound
    refine ⟨?_, ?_, hcount⟩
    · intro before item after result₁ w₁ hsplit hreach
      rw [bulkAuctionLoop_eq] at hreach
      obtain ⟨ids₁, w₂, hbefore, hend⟩ := bind_ok.mp hreach
      obtain ⟨-, rfl⟩ := pure_ok.mp hend
      -- the settings and the lock are those of the start
      have hkept := collect_keeps (I := fun s : World Store =>
        s.shared = w.shared ∧ SameSettings w.store s.store) ?_ ⟨rfl, rfl, fun _ => rfl⟩ hbefore
      · have hitem : item ∈ items := by simp [hsplit]
        constructor
        · intro haccepts
          have hs := hkept.2.sound.mpr (hsound item hitem (by rwa [hkept.2.accepts] at haccepts))
          have hfloor : item.auctionType = .dutch → 0 < item.floorPrice := by
            intro htype
            have hfloor := hs.floor
            rwa [htype, if_neg (by decide)] at hfloor
          exact ⟨(), w₁, createChecks_ok.mpr ⟨⟨⟨hkept.1 ▸ hactive, hsigned⟩, haccepts, hfloor,
            hs.currency, hs.hash⟩, rfl⟩⟩
        · rintro ⟨u, w₂, hchecks⟩
          exact (createChecks_ok.mp hchecks).1.2.1
      · intro i _ s b s' hs _ hop
        obtain ⟨endTime, hauctioned⟩ := bulkAuctionItem_ok hop
        obtain ⟨-, -, hsettings⟩ := hauctioned.spec
        refine ⟨hauctioned.shared.trans hs.1, ?_, fun c => ?_⟩
        · rw [hsettings.currencies, hs.2.currencies]
        · rw [hsettings.registered, hs.2.registered]
    · obtain ⟨w₁, heach, hsame⟩ :=
        (alike_createEach (v := w) hactive hsigned rfl hsound).of_ok hloop
      rw [hids]
      exact ⟨w₁, heach, hsame⟩

/-- An English auction of the item of the seller, in a currency and with a hash. -/
def auctionIn (currency : Address) (hash : Bytes) : BulkAuctionItem :=
  ⟨⟨7⟩, 1, 1, .english, 10, 0, currency, 100, hash⟩

/-- The market of `openedWith 1`, with two items in the hands of the seller. -/
def twoItems : World Store :=
  run step ((init (Env.signedBy ⟨0⟩ 1 1 []) ⟨1⟩ 1000 ⟨8⟩ 500 300).commit
    (World.deployed Store.empty (.ofList [(⟨7⟩, ⟨2⟩, 2)]))) (openedWith 1)

/-- An English auction, one without a start price, and a Dutch auction. -/
def soundItems : List BulkAuctionItem :=
  [auctionIn ⟨9⟩ someHash, { auctionIn ⟨9⟩ someHash with startPrice := 0 },
    { auctionIn ⟨9⟩ someHash with auctionType := .dutch, floorPrice := 4 }]

/-- The first and the last are accepted, the one in the middle is left out. -/
theorem bulkCreateAuctions_agrees_iff_sound :
    AgreesWithSingles bulkEnv ⟨2⟩ soundItems twoItems
      (exec bulkEnv (.bulkCreateAuctions ⟨2⟩ soundItems) twoItems) ⟨2, 1, [1, 2]⟩ := by
  have hok : bulkCreateAuctions bulkEnv ⟨2⟩ soundItems twoItems =
      .ok ⟨2, 1, [1, 2]⟩ (exec bulkEnv (.bulkCreateAuctions ⟨2⟩ soundItems) twoItems) := rfl
  refine (bulkCreateAuctions_agrees_iff hok).mpr ?_
  intro item hitem haccepts
  simp only [soundItems, List.mem_cons, List.not_mem_nil, or_false] at hitem
  rcases hitem with rfl | rfl | rfl
  · exact ⟨rfl, rfl, rfl, by decide⟩
  · cases haccepts
  · exact ⟨rfl, rfl, by decide, by decide⟩

/-- The seller auctions in bulk. -/
def auctionedIn (currency : Address) (hash : Bytes) : World Store :=
  exec bulkEnv (.bulkCreateAuctions ⟨2⟩ [auctionIn currency hash]) (run step opened (openedWith 1))

/-- An auction in a currency that is not whitelisted and with an empty hash is accepted, and
    `create_english_auction` rejects it. -/
theorem bulkCreateAuctions_unchecked :
    bulkCreateAuctions bulkEnv ⟨2⟩ [auctionIn ⟨6⟩ []] (run step opened (openedWith 1)) =
      .ok ⟨1, 0, [1]⟩ (auctionedIn ⟨6⟩ []) ∧
    (createItem bulkEnv ⟨2⟩ (auctionIn ⟨6⟩ [])).value (run step opened (openedWith 1)) = none ∧
    ¬ AgreesWithSingles bulkEnv ⟨2⟩ [auctionIn ⟨6⟩ []] (run step opened (openedWith 1))
      (auctionedIn ⟨6⟩ []) ⟨1, 0, [1]⟩ := by
  refine ⟨rfl, rfl, fun hagrees => ?_⟩
  have hrejects : ¬ (createChecks bulkEnv ⟨2⟩ (auctionIn ⟨6⟩ [])).Succeeds
      (run step opened (openedWith 1)) := value_eq_none.mp rfl
  exact hrejects ((hagrees.accepted [] (auctionIn ⟨6⟩ []) [] ⟨0, 0, []⟩ _ rfl rfl).mp rfl)

end Trellis.Market
