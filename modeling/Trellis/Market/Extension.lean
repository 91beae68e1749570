import Trellis.Market.Bidding
import Trellis.Market.Settlement

/-!
# How far an auction is extended

A late bid moves the end of an English auction to a window after it. The window is the one in force
when the auction was opened. `set_auto_extension` accepts at most 3600 s; `initialize` accepts any
window.

Results:
* `opensAt_bulk`: what the auctions of `bulk_create_auctions` start with.
* `endChange_step`: what a step can do to the start and the end of an auction.
* `limited_step`: a step keeps the limits exactly when it is no `initialize` with a longer window.
* `endLimited_run`: from its opening on, an auction ends within its duration or 3600 s after its
  last bid.
* `extension_limited_iff`: when this and the limits hold over a run from the deployment.
-/

namespace Trellis.Market

open Exec

variable {me : Address}

/-! ## Opening an auction -/

/-- The auctions that a call opens: their ids, and the durations asked for. -/
def durationsOf (w : World Store) : Step me Entry → List (ℕ × ℕ)
  | .call env (.createEnglishAuction seller collection tokenId amount start currency duration
      hash) =>
    ((createEnglishAuction env seller collection tokenId amount start currency duration
      hash).value w).toList.map fun id => (id, duration)
  | .call env (.createDutchAuction seller collection tokenId amount start floor currency duration
      hash) =>
    ((createDutchAuction env seller collection tokenId amount start floor currency duration
      hash).value w).toList.map fun id => (id, duration)
  | .call env (.bulkCreateAuctions seller items) =>
    ((((bulkCreateAuctions env seller items).value w).map BulkResult.ids).getD []).zip
      ((items.filter w.store.acceptsAuction).map BulkAuctionItem.durationSeconds)
  | _ => []

/-- The step opens the auction `id`. -/
def Opens (id : ℕ) (w : World Store) (s : Step me Entry) : Prop :=
  ∃ duration, (id, duration) ∈ durationsOf w s

/-- The time of the ledger at a step. -/
def timeOf : Step me Entry → ℕ
  | .call env _ => env.timestamp
  | .outside env _ => env.timestamp

/-- The auctions in the list are opened at the time `now`, and end within their durations; the
    others are left alone. -/
def OpensAt (now : ℕ) (opened : List (ℕ × ℕ)) (s s' : Store) : Prop :=
  ∀ id, ((∀ duration, (id, duration) ∉ opened) ∧ s'.auctions.lookup id = s.auctions.lookup id) ∨
    ∃ duration a, (id, duration) ∈ opened ∧ s'.auctions.lookup id = some a ∧ a.startTime = now ∧
      a.endTime ≤ now + duration

theorem opensAt_nil (now : ℕ) (s : Store) : OpensAt now [] s s :=
  fun _ => .inl ⟨fun _ => List.not_mem_nil, rfl⟩

theorem OpensAt.append {now : ℕ} {opened opened' : List (ℕ × ℕ)} {s s' s'' : Store}
    (h : OpensAt now opened s s') (h' : OpensAt now opened' s' s'') :
    OpensAt now (opened ++ opened') s s'' := by
  intro id
  rcases h' id with ⟨hnot', hsame'⟩ | ⟨duration, a, hmem, ha⟩
  · rcases h id with ⟨hnot, hsame⟩ | ⟨duration, a, hmem, ha, hstart, hend⟩
    · refine .inl ⟨fun duration hmem => ?_, hsame'.trans hsame⟩
      rcases List.mem_append.mp hmem with hmem | hmem
      · exact hnot duration hmem
      · exact hnot' duration hmem
    · exact .inr ⟨duration, a, List.mem_append_left _ hmem, hsame'.trans ha, hstart, hend⟩
  · exact .inr ⟨duration, a, List.mem_append_right _ hmem, ha⟩

section

variable {env : Env me} {seller : Address} {w w' : World Store}

theorem opensAt_auctioned {item : BulkAuctionItem} {endTime : ℕ}
    (h : Auctioned env seller item endTime w w')
    (hend : endTime ≤ env.timestamp + item.durationSeconds) :
    OpensAt env.timestamp [(w.store.nextAuction, item.durationSeconds)] w.store w'.store := by
  intro id
  obtain ⟨hauctions, -, -⟩ := h.spec
  rw [hauctions, Table.lookup_set]
  by_cases hid : id = w.store.nextAuction
  · rw [if_pos hid, hid]
    exact .inr ⟨_, _, List.mem_singleton_self _, rfl, rfl, hend⟩
  · rw [if_neg hid]
    refine .inl ⟨fun duration hmem => hid ?_, rfl⟩
    exact congrArg Prod.fst (List.mem_singleton.mp hmem)

theorem saturated_le (now duration : ℕ) :
    (checkedAddU64 now duration).getD (2 ^ 64 - 1) ≤ now + duration := by
  cases hsum : checkedAddU64 now duration with
  | some e =>
    have he := (checkedAddU64_eq_some.mp hsum).2
    rw [Option.getD_some]
    omega
  | none =>
    have hlarge : ¬ now + duration < 2 ^ 64 := by
      intro hfits
      rw [checkedAddU64_eq_some.mpr ⟨hfits, rfl⟩] at hsum
      cases hsum
    rw [Option.getD_none]
    omega

/-- The auctions of `bulk_create_auctions` are those of the items that it accepts, in order. -/
theorem opensAt_loop {items : List BulkAuctionItem} {ids : List ℕ}
    (h : collect BulkAuctionItem.accepted (bulkAuctionItem env seller) items w = .ok ids w') :
    OpensAt env.timestamp
      (ids.zip ((items.filter w.store.acceptsAuction).map BulkAuctionItem.durationSeconds))
      w.store w'.store := by
  induction items generalizing w ids with
  | nil =>
    obtain ⟨rfl, rfl⟩ := pure_ok.mp h
    exact opensAt_nil _ _
  | cons item items ih =>
    by_cases haccepts : item.accepted w = true
    · have htaken : w.store.acceptsAuction item = true := haccepts
      obtain ⟨id, w₁, rest, hitem, hloop, rfl⟩ := (collect_take_ok haccepts).mp h
      obtain ⟨opened, w₂, hopened, hlast⟩ := bind_ok.mp hitem
      obtain ⟨rfl, rfl⟩ := pure_ok.mp hlast
      obtain ⟨hend, hauctioned, hid⟩ := escrowAuction_ok hopened
      have hfirst := opensAt_auctioned hauctioned
        (Option.some.inj hend ▸ saturated_le env.timestamp item.durationSeconds)
      have hrest := ih hloop
      -- the loop changes no setting that the acceptance depends on
      have hsame : items.filter w₁.store.acceptsAuction = items.filter w.store.acceptsAuction :=
        List.filter_congr fun j _ => hauctioned.spec.2.2.accepts j
      rw [hsame] at hrest
      rw [List.filter_cons_of_pos htaken, List.map_cons, List.zip_cons_cons, hid]
      exact hfirst.append hrest
    · have hskipped : ¬ w.store.acceptsAuction item = true := haccepts
      rw [collect_skip (Bool.not_eq_true _ ▸ haccepts)] at h
      rw [List.filter_cons_of_neg hskipped]
      exact ih h

/-- A constructor opens one auction, or fails and opens none. -/
theorem opensAt_commit {x : Invocation Store MarketError ℕ} {duration : ℕ}
    (h : ∀ id w', x w = .ok id w' →
      OpensAt env.timestamp [(id, duration)] w.store w'.store) :
    OpensAt env.timestamp ((x.value w).toList.map fun id => (id, duration)) w.store
      (x.commit w).store :=
  value_commit_induct
    (G := fun o (w' : World Store) =>
      OpensAt env.timestamp (o.toList.map fun id => (id, duration)) w.store w'.store)
    (opensAt_nil _ _) h

theorem opensAt_call {c : Entry} (h : Auctions (.call env c)) :
    OpensAt env.timestamp (durationsOf w (.call env c)) w.store (exec env c w).store := by
  cases c with
  | createEnglishAuction seller collection tokenId amount start currency duration hash =>
    apply opensAt_commit
    intro id w' hok
    rw [(createEnglishAuction_id hok).1]
    cases createEnglishAuction_done hok with
    | createEnglishAuction w₁ e events hactive hsigned hstart hcurrency hhash hcollection hduration
        hend hauctioned =>
      exact opensAt_auctioned hauctioned (checkedAddU64_eq_some.mp hend).2.le
  | createDutchAuction seller collection tokenId amount start floor currency duration hash =>
    apply opensAt_commit
    intro id w' hok
    rw [(createDutchAuction_id hok).1]
    cases createDutchAuction_done hok with
    | createDutchAuction w₁ e events hactive hsigned hstart hfloor hcurrency hhash hcollection
        hprices hduration hend hauctioned =>
      exact opensAt_auctioned hauctioned (checkedAddU64_eq_some.mp hend).2.le
  | bulkCreateAuctions seller items =>
    refine value_commit_induct (G := fun o (w' : World Store) => OpensAt env.timestamp
      (((o.map BulkResult.ids).getD []).zip _) w.store w'.store) (opensAt_nil _ _) ?_
    intro result w' hok
    obtain ⟨-, ids, hloop, hresult⟩ := bulkCreateAuctions_ok hok
    rw [Option.map_some, Option.getD_some, hresult, BulkResult.after, List.nil_append]
    exact opensAt_loop hloop
  | _ => exact absurd h id

end

/-! ## The start and the end of an auction -/

/-- The start and the end of the auction `id`. -/
def Store.schedule? (s : Store) (id : ℕ) : Option (ℕ × ℕ) :=
  (s.auctions.lookup id).map fun a => (a.startTime, a.endTime)

/-- The status of an auction is no matter for its schedule. -/
theorem schedule_close {s : Store} {id : ℕ} {a : Auction} {status : AuctionStatus}
    (ha : s.auctions.lookup id = some a) (n : ℕ) :
    Store.schedule? { s with auctions := s.auctions.insert id { a with status := status } } n =
      s.schedule? n := by
  unfold Store.schedule?
  dsimp only
  rw [Table.lookup_set]
  by_cases hid : n = id
  · rw [if_pos hid, hid, ha]
    rfl
  · rw [if_neg hid]

theorem schedule_bumpStats {s s' : Store} {collection : Address} {dl da : ℤ}
    (h : s.bumpStats collection dl da = some s') (n : ℕ) : s'.schedule? n = s.schedule? n := by
  unfold Store.schedule?
  rw [lookup_bumpStats h]

/-- A call that opens no auction, and is no bid on this one, leaves its schedule. -/
theorem schedule_done {env : Env me} {c : Entry} {w w' : World Store} (hdone : Done env w c w')
    (hopens : ¬ Auctions (.call env c)) {id : ℕ}
    (hbid : ∀ bidder amount, c ≠ .placeBid bidder id amount) :
    w'.store.schedule? id = w.store.schedule? id := by
  cases hdone with
  | init | setPlatformFee | setFeeRecipient | setBidIncrement | setAutoExtension | setCurrency
  | setOracle | registerCollection | setCollectionRoyalties | makeOffer | acceptOffer
  | cancelOffer => rfl
  | listNft w₁ events hactive hsigned hprice hcurrency hhash hcollection hlisted =>
    exact schedule_bumpStats hlisted.store id
  | buyNft l feeRecipient fee w₁ s events hactive hsigned hl hopen hsold hstats =>
    rw [hsold.store] at hstats
    exact schedule_bumpStats hstats id
  | cancelListing l s hsigned hl hopen hseller hstats => exact schedule_bumpStats hstats id
  | createEnglishAuction | createDutchAuction | bulkCreateAuctions => exact absurd trivial hopens
  | @placeBid bidder id' bid a least newEnd events hactive hsigned hpos ha =>
    have hother : id ≠ id' := fun heq => hbid bidder bid (by rw [heq])
    unfold Store.schedule?
    dsimp only
    rw [Table.lookup_set, if_neg hother]
  | settleUnsold a s hactive ha hopen hend hbid hstats =>
    exact (schedule_bumpStats hstats id).trans (schedule_close ha id)
  | settleSold a feeRecipient fee w₁ s events hactive ha hopen hend hbid hsold hstats =>
    rw [hsold.store] at hstats
    exact (schedule_bumpStats hstats id).trans (schedule_close ha id)
  | buyDutchAuction a price feeRecipient fee w₁ s events hactive hsigned ha hopen htype hprice hpos
      hsold hstats =>
    rw [hsold.store] at hstats
    exact (schedule_bumpStats hstats id).trans (schedule_close ha id)
  | cancelDutchAuction a s hsigned ha hopen htype hseller hstats =>
    exact (schedule_bumpStats hstats id).trans (schedule_close ha id)
  | bulkList w' hactive hsigned hlength heach =>
    refine keeps_listed (P := fun s => s.schedule? id = w.store.schedule? id)
      (fun item w₁ w₂ h hitem => ?_) heach rfl
    exact (schedule_bumpStats hitem.store id).trans h

/-- What a step can do to the start and the end of the auction `id`. -/
inductive EndChange (id : ℕ) (w : World Store) (s : Step me Entry) (w' : World Store) : Prop where
  | kept (hbid : bidOn id w s = none) (hopens : ¬ Opens id w s)
      (hsame : w'.store.schedule? id = w.store.schedule? id)
  | opened (duration : ℕ) (a : Auction) (hbid : bidOn id w s = none)
      (hopens : (id, duration) ∈ durationsOf w s) (ha : w'.store.auctions.lookup id = some a)
      (hstart : a.startTime = timeOf s) (hend : a.endTime ≤ timeOf s + duration)
  | bid (amount : ℤ) (a a' : Auction) (hbid : bidOn id w s = some amount) (hopens : ¬ Opens id w s)
      (ha : w.store.auctions.lookup id = some a) (ha' : w'.store.auctions.lookup id = some a')
      (hstart : a'.startTime = a.startTime)
      (hend : a'.endTime = max a.endTime (timeOf s + a.autoExtensionWindow))

theorem not_opens {id : ℕ} {w : World Store} {s : Step me Entry} (h : ¬ Auctions s) :
    ¬ Opens id w s := by
  rintro ⟨duration, hmem⟩
  unfold durationsOf at hmem
  split at hmem
  · exact h trivial
  · exact h trivial
  · exact h trivial
  · exact absurd hmem List.not_mem_nil

theorem bidOn_of_other {id : ℕ} {w : World Store} {env : Env me} {c : Entry}
    (h : ∀ bidder amount, c ≠ .placeBid bidder id amount) : bidOn id w (.call env c) = none := by
  cases c with
  | placeBid bidder id' amount =>
    have hne : id' ≠ id := by
      rintro rfl
      exact h bidder amount rfl
    exact if_neg hne
  | _ => rfl

theorem endChange_bid (env : Env me) (bidder : Address) (id : ℕ) (amount : ℤ) (w : World Store) :
    EndChange id w (.call env (.placeBid bidder id amount))
      ((placeBid env bidder id amount).commit w) := by
  have hopens : ¬ Opens id w (.call env (.placeBid bidder id amount)) := not_opens fun h => h
  have hbidOn : bidOn id w (.call env (.placeBid bidder id amount)) =
      ((placeBid env bidder id amount).value w).map fun _ => amount := if_pos rfl
  rcases commit_cases (placeBid env bidder id amount) w with ⟨u, hok⟩ | ⟨hfails, hsame⟩
  · rw [value_eq_some.mpr hok, Option.map_some] at hbidOn
    have hdone := placeBid_done hok
    generalize (placeBid env bidder id amount).commit w = w' at hdone
    cases hdone with
    | placeBid a least newEnd events hactive hsigned hpos ha hopen htype htime hleast hle hother
        hend =>
      refine .bid amount a
        { a with currentBid := amount, currentBidder := bidder, endTime := newEnd }
        hbidOn hopens ha ?_ rfl (extendedEnd_ok htime hend)
      dsimp only
      rw [Table.lookup_set, if_pos rfl]
  · rw [value_eq_none.mpr hfails, Option.map_none] at hbidOn
    refine .kept hbidOn hopens ?_
    rw [hsame]

theorem endChange_step (id : ℕ) (w : World Store) (s : Step me Entry) :
    EndChange id w s (step s w) := by
  cases s with
  | outside env x =>
    refine .kept rfl (not_opens fun h => h) ?_
    show (outsideTransfer env x w).store.schedule? id = _
    rw [store_outsideTransfer]
  | call env c =>
    by_cases hauctions : Auctions (.call env c)
    · have hnone : bidOn id w (.call env c) = none := by
        apply bidOn_of_other
        rintro bidder amount rfl
        exact hauctions
      rcases opensAt_call (w := w) hauctions id with
        ⟨hnot, hsame⟩ | ⟨duration, a, hmem, ha, hstart, hend⟩
      · refine .kept hnone ?_ ?_
        · rintro ⟨duration, hmem⟩
          exact hnot duration hmem
        · show Option.map _ ((exec env c w).store.auctions.lookup id) = _
          rw [hsame]
          rfl
      · exact .opened duration a hnone hmem ha hstart hend
    by_cases hcall : ∃ bidder amount, c = .placeBid bidder id amount
    · obtain ⟨bidder, amount, rfl⟩ := hcall
      exact endChange_bid env bidder id amount w
    · have hother : ∀ bidder amount, c ≠ .placeBid bidder id amount :=
        fun bidder amount heq => hcall ⟨bidder, amount, heq⟩
      refine .kept (bidOn_of_other hother) (not_opens hauctions) ?_
      show (exec env c w).store.schedule? id = _
      rcases exec_cases env c w with hsame | hdone
      · rw [hsame]
      · exact schedule_done hdone hauctions hother

/-! ## The limits -/

/-- The settings are within what their setters accept, and so are the windows of the auctions. -/
structure Limited (s : Store) : Prop where
  fee : 0 ≤ s.getPlatformFeeBps ∧ s.getPlatformFeeBps ≤ 1000
  increment : 0 ≤ s.getBidIncrementBps ∧ s.getBidIncrementBps ≤ 5000
  extension : s.getAutoExtensionSeconds ≤ 3600
  windows : s.auctions.Forall fun _ a => a.autoExtensionWindow ≤ 3600

namespace Limited

variable {s s' : Store}

theorem bumpStats (h : Limited s) {collection : Address} {dl da : ℤ}
    (hs : s.bumpStats collection dl da = some s') : Limited s' := by
  obtain ⟨⟨collections, rfl⟩, -⟩ := Store.bumpStats_some hs
  exact ⟨h.fee, h.increment, h.extension, h.windows⟩

theorem closeListing (h : Limited s) {listings : Table ℕ Listing} {collection : Address} {dl da : ℤ}
    (hs : Store.bumpStats { s with listings := listings } collection dl da = some s') :
    Limited s' := by
  have hset : Limited { s with listings := listings } :=
    ⟨h.fee, h.increment, h.extension, h.windows⟩
  exact hset.bumpStats hs

theorem setAuction (h : Limited s) {id : ℕ} {a : Auction} (ha : a.autoExtensionWindow ≤ 3600) :
    Limited { s with auctions := s.auctions.insert id a } :=
  ⟨h.fee, h.increment, h.extension, h.windows.set ha⟩

theorem closeAuction (h : Limited s) {id : ℕ} {a : Auction} {status : AuctionStatus}
    (ha : s.auctions.lookup id = some a) {collection : Address} {dl da : ℤ}
    (hs : Store.bumpStats { s with auctions := s.auctions.insert id { a with status := status } }
      collection dl da = some s') : Limited s' := by
  have hset : Limited { s with auctions := s.auctions.insert id { a with status := status } } :=
    h.setAuction (h.windows id a ha)
  exact hset.bumpStats hs

theorem listed {env : Env me} {seller : Address} {item : BulkListingItem} {w w' : World Store}
    (h : Limited w.store) (hl : Listed env seller item w w') : Limited w'.store := by
  have hadded : Limited (w.store.addListing (w.store.newListing env.timestamp seller item)) :=
    ⟨h.fee, h.increment, h.extension, h.windows⟩
  exact hadded.bumpStats hl.store

theorem auctioned {env : Env me} {seller : Address} {item : BulkAuctionItem} {endTime : ℕ}
    {w w' : World Store} (h : Limited w.store) (ha : Auctioned env seller item endTime w w') :
    Limited w'.store := by
  have hwindow :
      (w.store.newAuction me env.timestamp seller item endTime).autoExtensionWindow ≤ 3600 := by
    show (if item.auctionType = .english then w.store.getAutoExtensionSeconds else 0) ≤ 3600
    split_ifs
    · exact h.extension
    · omega
  have hadded : Limited
      (w.store.addAuction (w.store.newAuction me env.timestamp seller item endTime)) :=
    ⟨h.fee, h.increment, h.extension, h.windows.set hwindow⟩
  exact hadded.bumpStats ha.store

/-- Every successful call but `initialize` keeps the limits, and that one with a window within
    them. -/
theorem done {env : Env me} {c : Entry} {w w' : World Store} (h : Limited w.store)
    (hdone : Done env w c w')
    (hinit : ∀ admin fee recipient increment extension,
      c = .init admin fee recipient increment extension → extension ≤ 3600) : Limited w'.store := by
  cases hdone with
  | init events hfee hincrement => exact ⟨hfee, hincrement, hinit _ _ _ _ _ rfl, h.windows⟩
  | setPlatformFee events hadmin hsigned hfee => exact ⟨hfee, h.increment, h.extension, h.windows⟩
  | setBidIncrement events hadmin hsigned hincrement =>
    exact ⟨h.fee, hincrement, h.extension, h.windows⟩
  | setAutoExtension events hadmin hsigned hextension =>
    exact ⟨h.fee, h.increment, hextension, h.windows⟩
  | setFeeRecipient | setCurrency | setOracle | registerCollection
  | setCollectionRoyalties | makeOffer
  | acceptOffer | cancelOffer => exact ⟨h.fee, h.increment, h.extension, h.windows⟩
  | listNft w₁ events hactive hsigned hprice hcurrency hhash hcollection hlisted =>
    show Limited w₁.store
    exact h.listed hlisted
  | buyNft l feeRecipient fee w₁ s events hactive hsigned hl hopen hsold hstats =>
    rw [hsold.store] at hstats
    exact h.closeListing hstats
  | cancelListing l s hsigned hl hopen hseller hstats => exact h.closeListing hstats
  | createEnglishAuction w₁ e events hactive hsigned hstart hcurrency hhash hcollection hduration
      hend hauctioned =>
    show Limited w₁.store
    exact h.auctioned hauctioned
  | placeBid a least newEnd events hactive hsigned hbid ha => exact h.setAuction (h.windows _ a ha)
  | settleUnsold a s hactive ha hopen htime hbid hstats => exact h.closeAuction ha hstats
  | settleSold a feeRecipient fee w₁ s events hactive ha hopen htime hbid hsold hstats =>
    rw [hsold.store] at hstats
    exact h.closeAuction ha hstats
  | createDutchAuction w₁ e events hactive hsigned hstart hfloor hcurrency hhash hcollection hprices
      hduration hend hauctioned =>
    show Limited w₁.store
    exact h.auctioned hauctioned
  | buyDutchAuction a price feeRecipient fee w₁ s events hactive hsigned ha hopen htype hprice hne
      hsold hstats =>
    rw [hsold.store] at hstats
    exact h.closeAuction ha hstats
  | cancelDutchAuction a s hsigned ha hopen htype hseller hstats => exact h.closeAuction ha hstats
  | bulkList w' hactive hsigned hlength heach =>
    exact keeps_listed (fun _ _ _ hw hitem => hw.listed hitem) heach h
  | bulkCreateAuctions w' hactive hsigned hlength heach =>
    exact keeps_auctioned (fun _ _ _ _ hw hitem => hw.auctioned hitem) heach h

end Limited

/-- A bid that the step is leaves the end where it was, or at most 3600 s after the step. -/
def BidLimited (w : World Store) (s : Step me Entry) : Prop :=
  ∀ id amount a a', bidOn id w s = some amount → w.store.auctions.lookup id = some a →
    (step s w).store.auctions.lookup id = some a' → a'.endTime ≤ max a.endTime (timeOf s + 3600)

/-- An `initialize` whose other checks pass has a window of at most 3600 s. -/
def InitLimited : Step me Entry → Prop
  | .call _ (.init _ fee _ increment extension) =>
    (0 ≤ fee ∧ fee ≤ 1000) → (0 ≤ increment ∧ increment ≤ 5000) → extension ≤ 3600
  | _ => True

theorem bidLimited {w : World Store} (h : Limited w.store) (s : Step me Entry) :
    BidLimited w s := by
  intro id amount a a' hbidOn ha ha'
  cases endChange_step id w s with
  | kept hbid | opened _ _ hbid =>
    rw [hbid] at hbidOn
    cases hbidOn
  | bid _ b b' hbid hopens hb hb' hstart hend =>
    rw [ha] at hb
    rw [ha'] at hb'
    cases hb
    cases hb'
    have hwindow := h.windows id a ha
    omega

theorem limited_step_iff {w : World Store} (h : Limited w.store) (s : Step me Entry) :
    BidLimited w s ∧ Limited (step s w).store ↔ InitLimited s := by
  rw [and_iff_right (bidLimited h s)]
  constructor
  · intro hafter
    unfold InitLimited
    split
    · rename_i env admin fee recipient increment extension
      intro hfee hincrement
      obtain ⟨w', hok⟩ : ∃ w', init env admin fee recipient increment extension w = .ok () w' := by
        have hfee' : 0 ≤ fee ∧ fee ≤ maxFeeBps := hfee
        simp [init, hfee', hincrement]
      have hstep : step (.call env (.init admin fee recipient increment extension)) w = w' :=
        commit_of_ok hok
      rw [hstep] at hafter
      cases init_done hok with
      | init events => exact hafter.extension
    · trivial
  · intro hinit
    rcases step_cases s w with ⟨env, x, hx⟩ | hx | ⟨env, c, w', rfl, hx, hdone⟩
    · rwa [hx, store_outsideTransfer]
    · rwa [hx]
    · rw [hx]
      apply h.done hdone
      rintro admin fee recipient increment extension rfl
      cases hdone with
      | init events hfee hincrement => exact hinit hfee hincrement

/-! ## Every run -/

/-- The time of the bid on the auction that the step is, if it is accepted. -/
def bidTime (id : ℕ) (w : World Store) (s : Step me Entry) : Option ℕ :=
  (bidOn id w s).map fun _ => timeOf s

/-- The latest end of an auction that was to end at `planned`, and had its last bid at the time
    `last`. -/
def latestEnd (planned : ℕ) (last : Option ℕ) : ℕ :=
  last.elim planned fun t => max planned (t + 3600)

/-- The time of the ledger never goes back. -/
def InOrder (steps : List (Step me Entry)) : Prop := (steps.map timeOf).Pairwise (· ≤ ·)

/-- Every auction that is stored after the run was opened by one of its steps, the last to open this
    id: it starts at that step, and ends within the duration asked for or 3600 s after the last bid
    since. -/
def EndLimited (w : World Store) (steps : List (Step me Entry)) : Prop :=
  ∀ id a, (run step w steps).store.auctions.lookup id = some a →
    ∃ pre s post duration, steps = pre ++ s :: post ∧
      (id, duration) ∈ durationsOf (run step w pre) s ∧
      (∀ x ∈ trace step (step s (run step w pre)) post, ¬ Opens id x.1 x.2) ∧
      a.startTime = timeOf s ∧
      a.endTime ≤ latestEnd (a.startTime + duration)
        (yields step (bidTime id) (step s (run step w pre)) post).getLast?

/-- The auction `id` started at `start`, and ends by `planned` or 3600 s after a bid at one of the
    times. -/
def Within (id start planned : ℕ) (times : List ℕ) (w : World Store) : Prop :=
  ∃ endTime, w.store.schedule? id = some (start, endTime) ∧
    (endTime ≤ planned ∨ ∃ t ∈ times, endTime ≤ t + 3600)

/-- A step that does not open the auction keeps it within its duration or 3600 s after a bid. -/
theorem within_step {id start planned : ℕ} (times : List ℕ) (w : World Store) (s : Step me Entry)
    (h : Limited w.store ∧ ¬ Opens id w s) (hwithin : Within id start planned times w) :
    Within id start planned (times ++ (bidTime id w s).toList) (step s w) := by
  obtain ⟨endTime, hschedule, hend⟩ := hwithin
  have hlater : endTime ≤ planned ∨ ∃ t ∈ times ++ (bidTime id w s).toList, endTime ≤ t + 3600 := by
    refine hend.imp_right ?_
    rintro ⟨t, ht, hle⟩
    exact ⟨t, List.mem_append_left _ ht, hle⟩
  cases endChange_step id w s with
  | kept hbid hopens hsame => exact ⟨endTime, hsame.trans hschedule, hlater⟩
  | opened duration a hbid hopens => exact absurd ⟨duration, hopens⟩ h.2
  | bid amount a a' hbid hopens ha ha' hstart hmax =>
    have hwindow := h.1.windows id a ha
    unfold Store.schedule? at hschedule
    rw [ha] at hschedule
    obtain ⟨rfl, rfl⟩ := Prod.mk.inj (Option.some.inj hschedule)
    refine ⟨a'.endTime, ?_, ?_⟩
    · unfold Store.schedule?
      rw [ha', ← hstart]
      rfl
    · by_cases hlate : a.endTime ≤ timeOf s + a.autoExtensionWindow
      · have htime : timeOf s ∈ times ++ (bidTime id w s).toList := by
          rw [bidTime, hbid]
          exact List.mem_append_right _ (List.mem_singleton_self _)
        rw [max_eq_right hlate] at hmax
        exact .inr ⟨timeOf s, htime, hmax.trans_le (Nat.add_le_add_left hwindow _)⟩
      · rw [max_eq_left (not_le.mp hlate).le] at hmax
        rwa [hmax]

theorem stored_step_iff (id : ℕ) (w : World Store) (s : Step me Entry) :
    ((step s w).store.schedule? id).isSome = true ↔
      Opens id w s ∨ (w.store.schedule? id).isSome = true ∧ ¬ Opens id w s := by
  unfold Store.schedule?
  cases endChange_step id w s with
  | kept hbid hopens hsame =>
    unfold Store.schedule? at hsame
    rw [hsame]
    simp [hopens]
  | opened duration a hbid hopens ha =>
    have hopened : Opens id w s := ⟨duration, hopens⟩
    simp [ha, hopened]
  | bid amount a a' hbid hopens ha ha' => simp [ha, ha', hopens]

/-- The latest end in terms of some bid is also one in terms of the last. -/
theorem le_latestEnd {times : List ℕ} (horder : times.Pairwise (· ≤ ·)) {endTime planned : ℕ}
    (h : endTime ≤ planned ∨ ∃ t ∈ times, endTime ≤ t + 3600) :
    endTime ≤ latestEnd planned times.getLast? := by
  unfold latestEnd
  rcases h with hplanned | ⟨t, ht, hle⟩
  · cases times.getLast? with
    | none => exact hplanned
    | some last => exact hplanned.trans (le_max_left _ _)
  · have hlast : t ≤ times.getLast (List.ne_nil_of_mem ht) := horder.rel_getLast ht
    rw [List.getLast?_eq_getLast_of_ne_nil (List.ne_nil_of_mem ht)]
    show endTime ≤ max planned (times.getLast _ + 3600)
    omega

/-- An auction that is stored at the end of a run, and was not at its start, has been opened by a
    step, the last one that opened it. -/
theorem opens_of_stored {w : World Store} {steps : List (Step me Entry)} {id : ℕ} {a : Auction}
    (hempty : w.store.auctions = ∅) (ha : (run step w steps).store.auctions.lookup id = some a) :
    ∃ pre s post, steps = pre ++ s :: post ∧ Opens id (run step w pre) s ∧
      ∀ x ∈ trace step (step s (run step w pre)) post, ¬ Opens id x.1 x.2 := by
  have hstored : ((run step w steps).store.schedule? id).isSome = true := by
    rw [Store.schedule?, ha]
    rfl
  have hnone : ¬ (w.store.schedule? id).isSome = true := by
    rw [Store.schedule?, hempty]
    simp
  have hsince := (run_iff_set_since (P := fun _ => True) (N := fun _ _ => True)
    (F := fun w : World Store => (w.store.schedule? id).isSome = true) (S := Opens id)
      (C := Opens id)
    (fun _ _ _ _ => trivial) (fun w s _ _ => stored_step_iff id w s) trivial
    (fun _ _ => trivial)).mp hstored
  rcases hsince with ⟨hstart, -⟩ | hopened
  · exact absurd hstart hnone
  · exact hopened

/-- In a run whose states are all within the limits, the ends are. -/
theorem endLimited_run {w : World Store} {steps : List (Step me Entry)}
    (hempty : w.store.auctions = ∅) (hlimited : ∀ x ∈ trace step w steps, Limited x.1.store)
    (horder : InOrder steps) : EndLimited w steps := by
  intro id a ha
  obtain ⟨pre, s, post, rfl, hopens, hsince⟩ := opens_of_stored hempty ha
  cases endChange_step id (run step w pre) s with
  | kept _ hnot | bid _ _ _ _ hnot => exact absurd hopens hnot
  | opened duration b hbid hmem hb hstart hend =>
    have hfirst : Within id (timeOf s) (timeOf s + duration) [] (step s (run step w pre)) := by
      refine ⟨b.endTime, ?_, .inl hend⟩
      rw [Store.schedule?, hb, ← hstart]
      rfl
    have hlast : Within id (timeOf s) (timeOf s + duration)
        (yields step (bidTime id) (step s (run step w pre)) post)
        (run step (step s (run step w pre)) post) := by
      apply yields_induct within_step hfirst
      intro x hx
      refine ⟨hlimited x ?_, hsince x hx⟩
      rw [trace_append]
      exact List.mem_append_right _ (List.mem_cons_of_mem _ hx)
    obtain ⟨endTime, hschedule, hbound⟩ := hlast
    rw [run_append, run_cons] at ha
    rw [Store.schedule?, ha] at hschedule
    obtain ⟨hstartTime, rfl⟩ := Prod.mk.inj (Option.some.inj hschedule)
    refine ⟨pre, s, post, duration, rfl, hmem, hsince, hstartTime, ?_⟩
    rw [hstartTime]
    apply le_latestEnd _ hbound
    -- the times of the bids are among those of the later steps
    have hsub : (yields step (bidTime id) (step s (run step w pre)) post).Sublist
        (post.map timeOf) := by
      apply yields_sublist
      intro w s t ht
      obtain ⟨_, -, htime⟩ := Option.map_eq_some_iff.mp ht
      exact htime
    refine horder.sublist (hsub.trans ?_)
    rw [List.map_append, List.map_cons]
    exact (List.sublist_cons_self _ _).trans (List.sublist_append_right _ _)

/-- Over every run from the deployment, with any number of calls of `initialize`, every state is
    within the limits, every bid leaves the end where it was or at most 3600 s away, and every
    stored auction ends within its duration or 3600 s after its last bid, exactly when no
    `initialize` sets a longer window. -/
theorem extension_limited_iff (tokens : TokenLedger) (steps : List (Step me Entry)) :
    ((∀ x ∈ trace step (World.deployed Store.empty tokens) steps,
        BidLimited x.1 x.2 ∧ Limited (step x.2 x.1).store) ∧
      (InOrder steps → EndLimited (World.deployed Store.empty tokens) steps)) ↔
    ∀ x ∈ trace step (World.deployed Store.empty tokens) steps, InitLimited x.2 := by
  have hstart : Limited (World.deployed Store.empty tokens).store := by
    show Limited Store.empty
    exact ⟨by decide, by decide, by decide, Table.Forall.empty _⟩
  have hiff := trace_forall_and_iff (P := fun _ => True) (N := fun _ _ => True)
    (G := fun w : World Store => Limited w.store) (A := fun w (s : Step me Entry) => BidLimited w s)
    (Q := fun _ s => InitLimited s) (fun _ _ _ _ => trivial)
    (fun w s _ _ hlimited => limited_step_iff hlimited s) trivial hstart
    (fun (x : World Store × Step me Entry) (_ : x ∈ trace step _ steps) => trivial)
  constructor
  · rintro ⟨hstates, -⟩
    exact hiff.mp hstates
  · intro hinits
    refine ⟨hiff.mpr hinits, fun horder => endLimited_run rfl ?_ horder⟩
    intro x hx
    apply trace_induct_of_trace (P := fun w : World Store => Limited w.store)
      (Q := fun _ (s : Step me Entry) => InitLimited s) _ hstart hinits hx
    intro w s hlimited hinit
    exact ((limited_step_iff hlimited s).mpr hinit).2

/-- A run from the deployment that sets a window of `window` seconds, opens an auction for 10 s, and
    bids on it after one. -/
def extendedBy (window : ℕ) : List (Step ⟨0⟩ Entry) :=
  .call (.signedBy ⟨0⟩ 1 1 []) (.init ⟨1⟩ 1000 ⟨8⟩ 500 window) :: biddenWith 1

/-- With a window of 300 s the auction ends at most 3600 s after the bid. -/
theorem extension_limited_iff_bidden :
    EndLimited (World.deployed Store.empty marketFunds) (extendedBy 300) := by
  have horder : InOrder (extendedBy 300) := by
    show ((extendedBy 300).map timeOf).Pairwise (· ≤ ·)
    decide
  refine ((extension_limited_iff marketFunds (extendedBy 300)).mpr ?_).2 horder
  intro x hx
  have hstep := mem_of_mem_trace hx
  simp only [extendedBy, biddenWith, openedWith, List.cons_append, List.nil_append, List.mem_cons,
    List.not_mem_nil, or_false] at hstep
  rcases hstep with h | h | h | h | h | h
  · rw [h]
    intro _ _
    decide
  all_goals
    rw [h]
    trivial

/-- A window of 7200 s, which `set_auto_extension` rejects, is accepted. The auction, opened for 10
    s at the time 1, ends 7200 s after the bid at the time 2. -/
theorem extension_not_limited :
    ∃ a,
      (run step (World.deployed Store.empty marketFunds)
        (extendedBy 7200)).store.auctions.lookup 1 = some a ∧
      a.auctionType = .english ∧ a.startTime = 1 ∧ ¬ a.autoExtensionWindow ≤ 3600 ∧
      durationsOf (run step (World.deployed Store.empty marketFunds)
        (.call (.signedBy ⟨0⟩ 1 1 []) (.init ⟨1⟩ 1000 ⟨8⟩ 500 7200) :: openedWith 1))
        (.call (.signedBy ⟨0⟩ 1 1 [⟨2⟩])
          (.createEnglishAuction ⟨2⟩ ⟨7⟩ 1 1 10 ⟨9⟩ 10 someHash)) = [(1, 10)] ∧
      yields step (bidTime 1) (World.deployed Store.empty marketFunds) (extendedBy 7200) = [2] ∧
      ¬ a.endTime ≤ latestEnd (a.startTime + 10) (some 2) :=
  ⟨_, rfl, rfl, rfl, by decide, rfl, rfl, by decide⟩

end Trellis.Market
