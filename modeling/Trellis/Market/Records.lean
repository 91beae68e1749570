import Trellis.Market.Effects

/-!
# Records that are kept, and their ids

Results:
* `later_step`, `later_run`: no record is removed, and it changes only while it is open, but never
  its seller, item or currency.
* `listedIds_step`, `auctionedIds_step`: the calls give out the ids in order.
* `listedIds_nodup`, `auctionedIds_nodup`: no id is given out twice in a run.
-/

namespace Trellis.Market

open Exec

variable {me : Address}

/-! ## Records that are kept -/

/-- The later state of a listing: seller, item, amount and currency stay, and a closed one stays as
    it is. -/
structure Listing.Later (l l' : Listing) : Prop where
  seller : l'.seller = l.seller
  collection : l'.collection = l.collection
  tokenId : l'.tokenId = l.tokenId
  amount : l'.amount = l.amount
  currency : l'.currency = l.currency
  closed : l.status ≠ .active → l' = l

/-- The later state of an auction. -/
structure Auction.Later (a a' : Auction) : Prop where
  seller : a'.seller = a.seller
  collection : a'.collection = a.collection
  tokenId : a'.tokenId = a.tokenId
  amount : a'.amount = a.amount
  currency : a'.currency = a.currency
  closed : a.isOpen = false → a' = a

theorem Listing.Later.refl (l : Listing) : l.Later l := ⟨rfl, rfl, rfl, rfl, rfl, fun _ => rfl⟩

theorem Listing.Later.trans (l l' l'' : Listing) (h : l.Later l') (h' : l'.Later l'') :
    l.Later l'' := by
  refine ⟨h'.seller.trans h.seller, h'.collection.trans h.collection, h'.tokenId.trans h.tokenId,
    h'.amount.trans h.amount, h'.currency.trans h.currency, fun hclosed => ?_⟩
  have hsame := h.closed hclosed
  rw [hsame] at h'
  exact h'.closed hclosed

theorem Auction.Later.refl (a : Auction) : a.Later a := ⟨rfl, rfl, rfl, rfl, rfl, fun _ => rfl⟩

theorem Auction.Later.trans (a a' a'' : Auction) (h : a.Later a') (h' : a'.Later a'') :
    a.Later a'' := by
  refine ⟨h'.seller.trans h.seller, h'.collection.trans h.collection, h'.tokenId.trans h.tokenId,
    h'.amount.trans h.amount, h'.currency.trans h.currency, fun hclosed => ?_⟩
  have hsame := h.closed hclosed
  rw [hsame] at h'
  exact h'.closed hclosed

/-- Every listing and every auction is still there, later. -/
def LaterRecords (s s' : Store) : Prop :=
  Table.Evolves Listing.Later s.listings s'.listings ∧
    Table.Evolves Auction.Later s.auctions s'.auctions

theorem LaterRecords.refl (s : Store) : LaterRecords s s :=
  ⟨Table.Evolves.refl Listing.Later.refl _, Table.Evolves.refl Auction.Later.refl _⟩

theorem LaterRecords.trans {s s' s'' : Store} (h : LaterRecords s s') (h' : LaterRecords s' s'') :
    LaterRecords s s'' :=
  ⟨Table.Evolves.trans Listing.Later.trans h.1 h'.1,
    Table.Evolves.trans Auction.Later.trans h.2 h'.2⟩

theorem later_of_same {s s' : Store} (hlistings : s'.listings = s.listings)
    (hauctions : s'.auctions = s.auctions) : LaterRecords s s' := by
  rw [LaterRecords, hlistings, hauctions]
  exact LaterRecords.refl s

theorem later_listed {env : Env me} {seller : Address} {item : BulkListingItem} {w w' : World Store}
    (h : Inv me w.store) (hl : Listed env seller item w w') : LaterRecords w.store w'.store := by
  obtain ⟨hlistings, hauctions⟩ := same_bumpStats hl.store
  rw [LaterRecords, hlistings.table, hauctions.table]
  exact ⟨Table.Evolves.set_new Listing.Later.refl (fresh_of_forall h.listingIds) _,
    Table.Evolves.refl Auction.Later.refl _⟩

theorem later_auctioned {env : Env me} {seller : Address} {item : BulkAuctionItem} {endTime : ℕ}
    {w w' : World Store} (h : Inv me w.store) (ha : Auctioned env seller item endTime w w') :
    LaterRecords w.store w'.store := by
  obtain ⟨hlistings, hauctions⟩ := same_bumpStats ha.store
  rw [LaterRecords, hlistings.table, hauctions.table]
  exact ⟨Table.Evolves.refl Listing.Later.refl _,
    Table.Evolves.set_new Auction.Later.refl (fresh_of_forall h.auctionIds) _⟩

/-- A step other than `initialize` removes no record, and changes open ones only. -/
theorem later_step {w : World Store} (h : Inv me w.store) {s : Step me Entry}
    (hs : ¬ Initializes s) : LaterRecords w.store (step s w).store := by
  cases effect_step h hs with
  | idle paid hlistings hauctions => exact later_of_same hlistings.table hauctions.table
  | listed w₁ _ hsigned heach hstore htokens =>
    rw [hstore]
    refine (heach.induct (P := fun w => Inv me w.store)
      (T := fun w w' => LaterRecords w.store w'.store) (fun w => LaterRecords.refl w.store)
      (fun _ _ _ => LaterRecords.trans) ?_ h).2
    intro item w w' hw hitem
    rcases hitem with hlisted | rfl
    · exact ⟨hw.listed hlisted, later_listed hw hlisted⟩
    · exact ⟨hw, LaterRecords.refl w'.store⟩
  | auctioned w₁ _ hsigned heach hstore htokens =>
    rw [hstore]
    refine (heach.induct (P := fun w => Inv me w.store)
      (T := fun w w' => LaterRecords w.store w'.store) (fun w => LaterRecords.refl w.store)
      (fun _ _ _ => LaterRecords.trans) ?_ h).2
    intro item w w' hw hitem
    rcases hitem with ⟨-, endTime, hauctioned⟩ | rfl
    · exact ⟨hw.auctioned hsigned hauctioned, later_auctioned hw hauctioned⟩
    · exact ⟨hw, LaterRecords.refl w'.store⟩
  | bid a endTime paid _ _ ha hopen hlistings hauctions =>
    rw [LaterRecords, hlistings.table, hauctions]
    refine ⟨Table.Evolves.refl Listing.Later.refl _, Table.Evolves.set_old Auction.Later.refl ha ?_⟩
    refine ⟨rfl, rfl, rfl, rfl, rfl, fun hclosed => ?_⟩
    rw [isOpen_of_active hopen] at hclosed
    cases hclosed
  | listingClosed l status dst paid hrelease hdst hl hopen hstatus hlistings hseq hauctions =>
    rw [LaterRecords, hlistings, hauctions.table]
    refine ⟨Table.Evolves.set_old Listing.Later.refl hl ?_, Table.Evolves.refl Auction.Later.refl _⟩
    exact ⟨rfl, rfl, rfl, rfl, rfl, fun hclosed => absurd hopen hclosed⟩
  | auctionClosed a status dst paid hrelease hdst ha hopen hstatus hlistings hauctions =>
    rw [LaterRecords, hlistings.table, hauctions]
    refine ⟨Table.Evolves.refl Listing.Later.refl _, Table.Evolves.set_old Auction.Later.refl ha ?_⟩
    refine ⟨rfl, rfl, rfl, rfl, rfl, fun hclosed => ?_⟩
    rw [hopen] at hclosed
    cases hclosed

/-! ## Ids -/

/-- The ids that a call gives to new listings. -/
def listedIds (w : World Store) : Step me Entry → List ℕ
  | .call env (.listNft seller collection tokenId amount price currency hash) =>
    ((listNft env seller collection tokenId amount price currency hash).value w).toList
  | .call env (.bulkList seller items) =>
    (((bulkList env seller items).value w).map BulkResult.ids).getD []
  | _ => []

/-- The ids that a call gives to new auctions. -/
def auctionedIds (w : World Store) : Step me Entry → List ℕ
  | .call env (.createEnglishAuction seller collection tokenId amount start currency duration
      hash) =>
    ((createEnglishAuction env seller collection tokenId amount start currency duration
      hash).value w).toList
  | .call env (.createDutchAuction seller collection tokenId amount start floor currency duration
      hash) =>
    ((createDutchAuction env seller collection tokenId amount start floor currency duration
      hash).value w).toList
  | .call env (.bulkCreateAuctions seller items) =>
    (((bulkCreateAuctions env seller items).value w).map BulkResult.ids).getD []
  | _ => []

theorem nextListing_of_seq {s s' : Store} (h : s'.listingSeq = s.listingSeq) :
    s'.nextListing = s.nextListing := by
  rw [Store.nextListing, Store.nextListing, h]

theorem nextAuction_of_seq {s s' : Store} (h : s'.auctionSeq = s.auctionSeq) :
    s'.nextAuction = s.nextAuction := by
  rw [Store.nextAuction, Store.nextAuction, h]

theorem Listed.nextListing {env : Env me} {seller : Address} {item : BulkListingItem}
    {w w' : World Store} (hl : Listed env seller item w w') :
    w'.store.nextListing = w.store.nextListing + 1 := by
  obtain ⟨hlistings, -⟩ := same_bumpStats hl.store
  rw [Store.nextListing, hlistings.seq]
  rfl

theorem Listed.sameAuctions {env : Env me} {seller : Address} {item : BulkListingItem}
    {w w' : World Store} (hl : Listed env seller item w w') : SameAuctions w.store w'.store := by
  obtain ⟨-, hauctions⟩ := same_bumpStats hl.store
  exact ⟨hauctions.table, hauctions.seq⟩

theorem Auctioned.nextAuction {env : Env me} {seller : Address} {item : BulkAuctionItem}
    {endTime : ℕ} {w w' : World Store} (ha : Auctioned env seller item endTime w w') :
    w'.store.nextAuction = w.store.nextAuction + 1 := by
  obtain ⟨-, hauctions⟩ := same_bumpStats ha.store
  rw [Store.nextAuction, hauctions.seq]
  rfl

theorem Auctioned.sameListings {env : Env me} {seller : Address} {item : BulkAuctionItem}
    {endTime : ℕ} {w w' : World Store} (ha : Auctioned env seller item endTime w w') :
    SameListings w.store w'.store := by
  obtain ⟨hlistings, -⟩ := same_bumpStats ha.store
  exact ⟨hlistings.table, hlistings.seq⟩

/-- The ids that `bulk_list` returns follow each other. -/
theorem bulkListLoop_ids {env : Env me} {seller : Address} {items : List BulkListingItem}
    {result result' : BulkResult} {w w' : World Store}
    (h : bulkListLoop env seller items result w = .ok result' w') :
    ∃ n, result'.ids = result.ids ++ List.range' w.store.nextListing n ∧
      w'.store.nextListing = w.store.nextListing + n := by
  induction items generalizing result w with
  | nil =>
    simp only [bulkListLoop, pure_ok] at h
    obtain ⟨rfl, rfl⟩ := h
    exact ⟨0, (List.append_nil _).symm, rfl⟩
  | cons item items ih =>
    simp only [bulkListLoop, bind_ok, read_ok, ite_ok] at h
    obtain ⟨_, _, ⟨rfl, rfl⟩, ⟨-, id, w₁, hitem, h⟩ | ⟨-, h⟩⟩ := h
    · obtain ⟨hlisted, rfl⟩ := escrowListing_ok hitem
      obtain ⟨n, hids, hnext⟩ := ih h
      refine ⟨n + 1, ?_, ?_⟩
      · rw [hids, hlisted.nextListing, BulkResult.success, List.append_assoc, List.range'_succ]
        rfl
      · rw [hnext, hlisted.nextListing]
        omega
    · obtain ⟨n, hids, hnext⟩ := ih h
      exact ⟨n, hids, hnext⟩

/-- The ids that `bulk_create_auctions` returns follow each other. -/
theorem bulkAuctionLoop_ids {env : Env me} {seller : Address} {items : List BulkAuctionItem}
    {result result' : BulkResult} {w w' : World Store}
    (h : bulkAuctionLoop env seller items result w = .ok result' w') :
    ∃ n, result'.ids = result.ids ++ List.range' w.store.nextAuction n ∧
      w'.store.nextAuction = w.store.nextAuction + n := by
  induction items generalizing result w with
  | nil =>
    simp only [bulkAuctionLoop, pure_ok] at h
    obtain ⟨rfl, rfl⟩ := h
    exact ⟨0, (List.append_nil _).symm, rfl⟩
  | cons item items ih =>
    simp only [bulkAuctionLoop, bind_ok, read_ok, ite_ok] at h
    obtain ⟨_, _, ⟨rfl, rfl⟩, ⟨-, opened, w₁, hitem, h⟩ | ⟨-, h⟩⟩ := h
    · obtain ⟨-, hauctioned, hid⟩ := escrowAuction_ok hitem
      obtain ⟨n, hids, hnext⟩ := ih h
      refine ⟨n + 1, ?_, ?_⟩
      · rw [hids, hauctioned.nextAuction, BulkResult.success, hid, List.append_assoc,
          List.range'_succ]
        rfl
      · rw [hnext, hauctioned.nextAuction]
        omega
    · obtain ⟨n, hids, hnext⟩ := ih h
      exact ⟨n, hids, hnext⟩

/-- The next `n` ids of a counter are given out, and it is raised by as many. -/
def NextIds (count : Store → ℕ) (ids : List ℕ) (w w' : World Store) : Prop :=
  ∃ n, ids = List.range' (count w.store) n ∧ count w'.store = count w.store + n

theorem nextIds_none {count : Store → ℕ} {w w' : World Store}
    (h : count w'.store = count w.store) : NextIds count [] w w' := ⟨0, rfl, h⟩

theorem nextIds_commit {α : Type} {x : Invocation Store MarketError α} {count : Store → ℕ}
    {ids : α → List ℕ} {w : World Store}
    (h : ∀ a w', x w = .ok a w' → NextIds count (ids a) w w') :
    NextIds count (((x.value w).map ids).getD []) w (x.commit w) :=
  value_commit_induct (G := fun o w' => NextIds count ((o.map ids).getD []) w w')
    (nextIds_none rfl) h

theorem nextIds_commit_one {x : Invocation Store MarketError ℕ} {count : Store → ℕ}
    {w : World Store}
    (h : ∀ id w', x w = .ok id w' → id = count w.store ∧ count w'.store = count w.store + 1) :
    NextIds count (x.value w).toList w (x.commit w) := by
  have hone : (x.value w).toList = ((x.value w).map fun id => [id]).getD [] := by
    cases x.value w <;> rfl
  rw [hone]
  apply nextIds_commit
  intro id w' hok
  obtain ⟨hid, hcount⟩ := h id w' hok
  exact ⟨1, by rw [hid]; rfl, hcount⟩

theorem listNft_id {env : Env me} {seller collection : Address} {tokenId amount : ℕ} {price : ℤ}
    {currency : Address} {hash : Bytes} {w w' : World Store} {id : ℕ}
    (h : listNft env seller collection tokenId amount price currency hash w = .ok id w') :
    id = w.store.nextListing ∧ w'.store.nextListing = w.store.nextListing + 1 := by
  simp [listNft] at h
  obtain ⟨-, -, -, -, -, -, w₁, hitem, rfl⟩ := h
  obtain ⟨hlisted, hid⟩ := escrowListing_ok hitem
  exact ⟨hid, hlisted.nextListing⟩

theorem createEnglishAuction_id {env : Env me} {seller collection : Address}
    {tokenId amount : ℕ} {start : ℤ} {currency : Address} {duration : ℕ} {hash : Bytes}
    {w w' : World Store} {id : ℕ}
    (h : createEnglishAuction env seller collection tokenId amount start currency duration hash w =
      .ok id w') :
    id = w.store.nextAuction ∧ w'.store.nextAuction = w.store.nextAuction + 1 := by
  simp [createEnglishAuction] at h
  obtain ⟨-, -, -, -, -, -, -, endTime, w₁, hitem, rfl⟩ := h
  obtain ⟨-, hauctioned, hid⟩ := escrowAuction_ok hitem
  exact ⟨hid, hauctioned.nextAuction⟩

theorem createDutchAuction_id {env : Env me} {seller collection : Address}
    {tokenId amount : ℕ} {start floor : ℤ} {currency : Address} {duration : ℕ} {hash : Bytes}
    {w w' : World Store} {id : ℕ}
    (h : createDutchAuction env seller collection tokenId amount start floor currency duration hash
      w = .ok id w') :
    id = w.store.nextAuction ∧ w'.store.nextAuction = w.store.nextAuction + 1 := by
  simp [createDutchAuction] at h
  obtain ⟨-, -, -, -, -, -, -, -, -, endTime, w₁, hitem, rfl⟩ := h
  obtain ⟨-, hauctioned, hid⟩ := escrowAuction_ok hitem
  exact ⟨hid, hauctioned.nextAuction⟩

theorem bulkList_ids {env : Env me} {seller : Address} {items : List BulkListingItem}
    {result : BulkResult} {w w' : World Store} (h : bulkList env seller items w = .ok result w') :
    NextIds Store.nextListing result.ids w w' := by
  simp [bulkList] at h
  obtain ⟨-, -, -, hloop⟩ := h
  obtain ⟨n, hids, hnext⟩ := bulkListLoop_ids hloop
  exact ⟨n, hids, hnext⟩

theorem bulkCreateAuctions_ids {env : Env me} {seller : Address} {items : List BulkAuctionItem}
    {result : BulkResult} {w w' : World Store}
    (h : bulkCreateAuctions env seller items w = .ok result w') :
    NextIds Store.nextAuction result.ids w w' := by
  simp [bulkCreateAuctions] at h
  obtain ⟨-, -, -, hloop⟩ := h
  obtain ⟨n, hids, hnext⟩ := bulkAuctionLoop_ids hloop
  exact ⟨n, hids, hnext⟩

theorem sameListings_auctions {env : Env me} {seller : Address} {items : List BulkAuctionItem}
    {w w' : World Store}
    (heach : Each (fun item w w' => (0 < item.startPrice ∧
      ∃ endTime, Auctioned env seller item endTime w w') ∨ w' = w) items w w') :
    SameListings w.store w'.store := by
  induction heach with
  | nil => exact ⟨rfl, rfl⟩
  | cons hitem _ ih =>
    rcases hitem with ⟨-, endTime, hauctioned⟩ | rfl
    · have hfirst := hauctioned.sameListings
      exact ⟨ih.table.trans hfirst.table, ih.seq.trans hfirst.seq⟩
    · exact ih

theorem sameAuctions_listings {env : Env me} {seller : Address} {items : List BulkListingItem}
    {w w' : World Store}
    (heach : Each (fun item w w' => Listed env seller item w w' ∨ w' = w) items w w') :
    SameAuctions w.store w'.store := by
  induction heach with
  | nil => exact ⟨rfl, rfl⟩
  | cons hitem _ ih =>
    rcases hitem with hlisted | rfl
    · have hfirst := hlisted.sameAuctions
      exact ⟨ih.table.trans hfirst.table, ih.seq.trans hfirst.seq⟩
    · exact ih

theorem nextListing_step {w : World Store} (h : Inv me w.store) {s : Step me Entry}
    (hs : ¬ Initializes s) (hlists : ¬ Lists s) :
    (step s w).store.nextListing = w.store.nextListing := by
  cases effect_step h hs with
  | idle paid hlistings => exact nextListing_of_seq hlistings.seq
  | listed w₁ hs' => exact absurd hs' hlists
  | auctioned w₁ _ hsigned heach hstore htokens =>
    rw [hstore]
    exact nextListing_of_seq (sameListings_auctions heach).seq
  | bid a endTime paid _ _ ha hopen hlistings => exact nextListing_of_seq hlistings.seq
  | listingClosed l status dst paid hrelease hdst hl hopen hstatus hlistings hseq =>
    exact nextListing_of_seq hseq
  | auctionClosed a status dst paid hrelease hdst ha hopen hstatus hlistings =>
    exact nextListing_of_seq hlistings.seq

theorem nextAuction_step {w : World Store} (h : Inv me w.store) {s : Step me Entry}
    (hs : ¬ Initializes s) (hauctions : ¬ Auctions s) :
    (step s w).store.nextAuction = w.store.nextAuction := by
  cases effect_step h hs with
  | idle paid _ hsame => exact nextAuction_of_seq hsame.seq
  | auctioned w₁ hs' => exact absurd hs' hauctions
  | listed w₁ _ hsigned heach hstore htokens =>
    rw [hstore]
    exact nextAuction_of_seq (sameAuctions_listings heach).seq
  | bid a endTime paid _ _ ha hopen _ _ hseq => exact nextAuction_of_seq hseq
  | listingClosed l status dst paid hrelease hdst hl hopen hstatus _ _ hsame =>
    exact nextAuction_of_seq hsame.seq
  | auctionClosed a status dst paid hrelease hdst ha hopen hstatus _ _ hseq =>
    exact nextAuction_of_seq hseq

/-- A step gives the next ids to the listings that it takes in. -/
theorem listedIds_step {w : World Store} (h : Inv me w.store) {s : Step me Entry}
    (hs : ¬ Initializes s) : NextIds Store.nextListing (listedIds w s) w (step s w) := by
  by_cases hlists : Lists s
  swap
  · have hnone : listedIds w s = [] := by
      unfold listedIds
      split
      · exact absurd trivial hlists
      · exact absurd trivial hlists
      · rfl
    rw [hnone]
    exact nextIds_none (nextListing_step h hs hlists)
  cases s with
  | outside env x => exact absurd hlists id
  | call env c =>
    cases c with
    | listNft => exact nextIds_commit_one fun id w' hok => listNft_id hok
    | bulkList => exact nextIds_commit fun result w' hok => bulkList_ids hok
    | _ => exact absurd hlists id

/-- A step gives the next ids to the auctions that it takes in. -/
theorem auctionedIds_step {w : World Store} (h : Inv me w.store) {s : Step me Entry}
    (hs : ¬ Initializes s) : NextIds Store.nextAuction (auctionedIds w s) w (step s w) := by
  by_cases hauctions : Auctions s
  swap
  · have hnone : auctionedIds w s = [] := by
      unfold auctionedIds
      split
      · exact absurd trivial hauctions
      · exact absurd trivial hauctions
      · exact absurd trivial hauctions
      · rfl
    rw [hnone]
    exact nextIds_none (nextAuction_step h hs hauctions)
  cases s with
  | outside env x => exact absurd hauctions id
  | call env c =>
    cases c with
    | createEnglishAuction => exact nextIds_commit_one fun id w' hok => createEnglishAuction_id hok
    | createDutchAuction => exact nextIds_commit_one fun id w' hok => createDutchAuction_id hok
    | bulkCreateAuctions => exact nextIds_commit fun result w' hok => bulkCreateAuctions_ids hok
    | _ => exact absurd hauctions id

/-! ## Runs -/

section

variable {w : World Store} (h : Inv me w.store) {steps : List (Step me Entry)}
  (honce : ∀ s ∈ steps, ¬ Initializes s)

include h honce

/-- Over a run no record is removed, and a closed one does not change. -/
theorem later_run : LaterRecords w.store (run step w steps).store :=
  run_related_of_trace (P := fun w : World Store => Inv me w.store)
    (Q := fun _ s => ¬ Initializes s)
    (R := fun w w' => LaterRecords w.store w'.store) (fun w => LaterRecords.refl w.store)
    (fun _ _ _ => LaterRecords.trans) (fun _ _ h hs => h.step hs)
      (fun _ _ h hs => later_step h hs) h
    fun x hx => honce x.2 (mem_of_mem_trace hx)

theorem inv_step_of_mem_trace {x : World Store × Step me Entry} (hx : x ∈ trace step w steps) :
    Inv me x.1.store ∧ ¬ Initializes x.2 := by
  have hnone : ∀ x ∈ trace step w steps, ¬ Initializes x.2 :=
    fun x hx => honce x.2 (mem_of_mem_trace hx)
  exact ⟨trace_induct_of_trace (P := fun w : World Store => Inv me w.store)
    (Q := fun _ s => ¬ Initializes s) (fun _ _ h hs => h.step hs) h hnone hx, hnone x hx⟩

/-- No id of a listing is given out twice. -/
theorem listedIds_nodup : ((trace step w steps).flatMap fun x => listedIds x.1 x.2).Nodup := by
  obtain ⟨n, hids, -⟩ := flatMap_counter (O := listedIds)
    (N := fun w s => Inv me w.store ∧ ¬ Initializes s) (fun w => w.store.nextListing)
    (fun w s hs => listedIds_step hs.1 hs.2) fun x hx => inv_step_of_mem_trace h honce hx
  rw [hids]
  exact List.nodup_range'

/-- No id of an auction is given out twice. -/
theorem auctionedIds_nodup :
    ((trace step w steps).flatMap fun x => auctionedIds x.1 x.2).Nodup := by
  obtain ⟨n, hids, -⟩ := flatMap_counter (O := auctionedIds)
    (N := fun w s => Inv me w.store ∧ ¬ Initializes s) (fun w => w.store.nextAuction)
    (fun w s hs => auctionedIds_step hs.1 hs.2) fun x hx => inv_step_of_mem_trace h honce hx
  rw [hids]
  exact List.nodup_range'

end

end Trellis.Market
