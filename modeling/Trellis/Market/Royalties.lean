import Trellis.Market.Sales

/-!
# Royalties

A collection has a table of royalties. The three sales of an item pay them, each rounded down, but a
product of price and share beyond `i128` counts as nothing; an accepted offer pays none.

Results:
* `sumTo_royaltyAmounts`: what a sale pays to an address, entry by entry.
* `share_paid_iff`: when an entry is paid what is due.
* `paysRoyalties_iff`: a sale pays what is due exactly when every share is zero or its product with
  a price that is not negative fits.
* `royalties_enforced_iff`: when the four ways of selling an item pay what is due, in every
  reachable state.
-/

namespace Trellis.Market

open Exec

variable {me : Address}

/-! ## What is due and what is paid -/

/-- The sum of the entries of an address. -/
def sumTo (b : Address) (xs : List (Address × ℤ)) : ℤ :=
  ((xs.filter fun x => decide (x.1 = b)).map Prod.snd).sum

/-- The recipient and the amount of the event of a royalty. -/
def royaltyPaid? : Event → Option (Address × ℤ)
  | ⟨["nft", "royal"], [.u64 _, .address recipient, .i128 amount, .u64 _]⟩ =>
    some (recipient, amount)
  | _ => none

/-- The royalties that were paid from `w` to `w'`, by the events. -/
def royaltiesPaid (w w' : World Store) : List (Address × ℤ) :=
  (w'.events.drop w.events.length).filterMap royaltyPaid?

/-- The royalty of an entry: the share of the price, rounded down, whatever its size. -/
def Sale.due (sale : Sale) (r : RoyaltyRecipient) : ℤ := sale.price * r.shareBps / bpsDenom

/-- The call from `w` to `w'` pays the royalties of the sale: every recipient of the table gets what
    is due, summed over its entries, and each payment is among the transfers of the call. -/
structure Sale.PaysRoyalties (sale : Sale) (w w' : World Store) : Prop where
  paid : ∀ r ∈ w.store.recipients sale.collection, sumTo r.address (royaltiesPaid w w') =
    sumTo r.address ((w.store.recipients sale.collection).map fun r => (r.address, sale.due r))
  transferred : ∃ before after, w'.tokens.log = w.tokens.log ++ (before ++
    (royaltiesPaid w w').map (fun x => ⟨sale.currency, sale.payer, x.1, x.2⟩) ++ after)

/-- Every share is zero, or the price is not negative and its product with the share is an
    `i128`. -/
def Sale.RoyaltiesFit (sale : Sale) (s : Store) : Prop :=
  ∀ r ∈ s.recipients sale.collection,
    r.shareBps = 0 ∨ 0 ≤ sale.price ∧ sale.price * r.shareBps < 2 ^ 127

instance (sale : Sale) (s : Store) : Decidable (sale.RoyaltiesFit s) :=
  inferInstanceAs (Decidable (∀ r ∈ s.recipients sale.collection, _ ∨ _))

/-- The sale of an item for an offered amount, paid from the marketplace. -/
def Offer.sale (me : Address) (o : Offer) : Sale :=
  ⟨me, o.recipient, o.offerer, o.collection, o.tokenId, o.amount, o.currency, o.offerAmount⟩

/-! ## Sums by address -/

theorem sumTo_map (b : Address) (rs : List RoyaltyRecipient) (f : RoyaltyRecipient → ℤ) :
    sumTo b (rs.map fun r => (r.address, f r)) =
      ((rs.filter fun r => decide (r.address = b)).map f).sum := by
  unfold sumTo
  rw [List.filter_map, List.map_map]
  rfl

theorem sumTo_filter_pos (b : Address) (xs : List (Address × ℤ)) :
    sumTo b (xs.filter fun x => decide (x.2 > 0)) = sumTo b (xs.map fun x => (x.1, max x.2 0)) := by
  unfold sumTo
  induction xs with
  | nil => rfl
  | cons x xs ih =>
    by_cases hpos : x.2 > 0
    · have hmax : max x.2 0 = x.2 := max_eq_left hpos.le
      by_cases hb : x.1 = b
      · simp [hpos, hb, hmax] at ih ⊢
        exact ih
      · simpa [hpos, hb] using ih
    · have hmax : max x.2 0 = 0 := max_eq_right (by omega)
      by_cases hb : x.1 = b
      · simpa [hpos, hb, hmax] using ih
      · simpa [hpos, hb] using ih

/-- When no entry of one kind is above the other, the sums of every address agree exactly when all
    entries do. -/
theorem sumTo_eq_iff {rs : List RoyaltyRecipient} {f g : RoyaltyRecipient → ℤ}
    (hle : ∀ r ∈ rs, f r ≤ g r) :
    (∀ r ∈ rs, sumTo r.address (rs.map fun r => (r.address, f r)) =
      sumTo r.address (rs.map fun r => (r.address, g r))) ↔ ∀ r ∈ rs, f r = g r := by
  constructor
  · intro hsums r hr
    by_contra hne
    have hlt : f r < g r := lt_of_le_of_ne (hle r hr) hne
    have hmem : r ∈ rs.filter fun r' => decide (r'.address = r.address) :=
      List.mem_filter.mpr ⟨hr, by simp⟩
    have hsum : ((rs.filter fun r' => decide (r'.address = r.address)).map f).sum <
        ((rs.filter fun r' => decide (r'.address = r.address)).map g).sum :=
      List.sum_lt_sum _ _ (fun r' hr' => hle r' (List.mem_filter.mp hr').1) ⟨r, hmem, hlt⟩
    have heq := hsums r hr
    rw [sumTo_map, sumTo_map] at heq
    omega
  · intro hentries r _
    have hmap : (rs.map fun r => (r.address, f r)) = rs.map fun r => (r.address, g r) :=
      List.map_congr_left fun r hr => by rw [hentries r hr]
    rw [hmap]

/-! ## One entry -/

theorem royaltyAmount_zero (price : ℤ) : royaltyAmount price 0 = 0 := by
  have hzero : checkedMul price 0 = some 0 := by
    rw [checkedMul_eq_some, mul_zero]
    exact ⟨by decide, rfl⟩
  rw [royaltyAmount, hzero]
  rfl

theorem royaltyAmount_nonpos {price share : ℤ} (hprice : price ≤ 0) (hshare : 0 ≤ share) :
    royaltyAmount price share ≤ 0 := by
  have hproduct : (checkedMul price share).getD 0 ≤ 0 := by
    cases hmul : checkedMul price share with
    | none => exact le_rfl
    | some product =>
      obtain ⟨-, rfl⟩ := checkedMul_eq_some.mp hmul
      exact mul_nonpos_of_nonpos_of_nonneg hprice hshare
  unfold royaltyAmount
  generalize (checkedMul price share).getD 0 = product at hproduct
  cases hdiv : checkedDiv product bpsDenom with
  | none => exact le_rfl
  | some quotient =>
    obtain ⟨-, -, rfl⟩ := checkedDiv_eq_some.mp hdiv
    show product.tdiv bpsDenom ≤ 0
    have hneg : 0 ≤ (-product).tdiv bpsDenom := Int.tdiv_nonneg (by omega) (by decide)
    rw [Int.neg_tdiv] at hneg
    omega

/-- What an entry is paid. -/
def paidShare (price : ℤ) (r : RoyaltyRecipient) : ℤ := max (royaltyAmount price r.shareBps) 0

/-- At a price that is not negative an entry is paid what is due if the product fits, and nothing
    otherwise. -/
theorem paidShare_of_nonneg {price : ℤ} {r : RoyaltyRecipient} (hprice : 0 ≤ price)
    (hshare : 0 ≤ r.shareBps) : paidShare price r = royaltyDue price r.shareBps := by
  rw [paidShare, royaltyAmount_eq hprice hshare]
  exact max_eq_left (royaltyDue_nonneg hprice hshare)

theorem paidShare_of_neg {price : ℤ} {r : RoyaltyRecipient} (hprice : price ≤ 0)
    (hshare : 0 ≤ r.shareBps) : paidShare price r = 0 :=
  max_eq_right (royaltyAmount_nonpos hprice hshare)

theorem paidShare_le_due {sale : Sale} {r : RoyaltyRecipient} (hprice : 0 ≤ sale.price)
    (hshare : 0 ≤ r.shareBps) : paidShare sale.price r ≤ sale.due r := by
  have hprod : 0 ≤ sale.price * r.shareBps := mul_nonneg hprice hshare
  rw [paidShare_of_nonneg hprice hshare]
  unfold royaltyDue Sale.due
  split_ifs
  · exact le_rfl
  · exact Int.ediv_nonneg hprod (by decide)

/-- At a negative price nothing is paid, and what is due is below that. -/
theorem due_le_paidShare {sale : Sale} {r : RoyaltyRecipient} (hprice : sale.price ≤ 0)
    (hshare : 0 ≤ r.shareBps) : sale.due r ≤ paidShare sale.price r := by
  have hprod : sale.price * r.shareBps ≤ 0 := mul_nonpos_of_nonpos_of_nonneg hprice hshare
  rw [paidShare_of_neg hprice hshare]
  unfold Sale.due bpsDenom
  omega

/-- An entry is paid what is due exactly when its share is zero, or the price is not negative and
    its product with the share is an `i128`. -/
theorem share_paid_iff {sale : Sale} {r : RoyaltyRecipient} (hshare : 0 ≤ r.shareBps) :
    paidShare sale.price r = sale.due r ↔
      r.shareBps = 0 ∨ 0 ≤ sale.price ∧ sale.price * r.shareBps < 2 ^ 127 := by
  by_cases hzero : r.shareBps = 0
  · have hdue : sale.due r = 0 := by
      rw [Sale.due, hzero, mul_zero]
      rfl
    rw [paidShare, hdue, hzero, royaltyAmount_zero]
    exact iff_of_true rfl (.inl rfl)
  have hpos : 0 < r.shareBps := lt_of_le_of_ne hshare (Ne.symm hzero)
  by_cases hprice : 0 ≤ sale.price
  · rw [paidShare_of_nonneg hprice hshare]
    unfold royaltyDue Sale.due
    split_ifs with hfits
    · exact iff_of_true rfl (.inr ⟨hprice, hfits⟩)
    · refine iff_of_false ?_ ?_
      · unfold bpsDenom
        omega
      · intro hcond
        rcases hcond with hcond | hcond
        · exact hzero hcond
        · exact hfits hcond.2
  · have hprod : sale.price * r.shareBps < 0 := mul_neg_of_neg_of_pos (by omega) hpos
    rw [paidShare_of_neg (by omega) hshare]
    refine iff_of_false ?_ ?_
    · unfold Sale.due bpsDenom
      omega
    · intro hcond
      rcases hcond with hcond | hcond
      · exact hzero hcond
      · exact hprice hcond.1

/-! ## The sales -/

/-- A sale pays every address the entries of its table. -/
theorem Accepting.sumTo_royaltyAmounts {s : Store} (h : Accepting s) (collection : Address)
    (price : ℤ) (b : Address) : sumTo b (s.royaltyAmounts collection price) =
      sumTo b ((s.recipients collection).map fun r => (r.address, paidShare price r)) := by
  unfold Store.royaltyAmounts Store.recipients Store.royaltyConfig?
  cases hinfo : s.collection? collection with
  | none => rfl
  | some info =>
    have hconfig : s.royaltyConfig? collection = some info.royaltyConfig := by
      rw [Store.royaltyConfig?, hinfo]
      rfl
    have haccepted := h.royalties _ _ hconfig
    simp only [Option.map_some, Option.getD_some, computeRoyaltyAmounts]
    split_ifs with hzero
    · -- the code skips a table whose total is zero: all its shares are
      rw [sumTo_map]
      symm
      refine List.sum_eq_zero fun n hn => ?_
      obtain ⟨r, hr, rfl⟩ := List.mem_map.mp hn
      have hshare : r.shareBps = 0 := haccepted.share_eq_zero hzero (List.mem_filter.mp hr).1
      rw [paidShare, hshare, royaltyAmount_zero]
      rfl
    · rw [sumTo_filter_pos, List.map_map]
      rfl

/-- A sale that goes through pays what is due exactly when the shares fit. -/
theorem paysRoyalties_iff {w w' : World Store} (h : Accepting w.store) {sale : Sale}
    {before after : List TokenTransfer}
    (hpaid : royaltiesPaid w w' = w.store.royaltyAmounts sale.collection sale.price)
    (hlog : w'.tokens.log = w.tokens.log ++ (before ++ (w.store.royaltyAmounts sale.collection
      sale.price).map (fun x => ⟨sale.currency, sale.payer, x.1, x.2⟩) ++ after)) :
    sale.PaysRoyalties w w' ↔ sale.RoyaltiesFit w.store := by
  have hshares : ∀ r ∈ w.store.recipients sale.collection, 0 ≤ r.shareBps :=
    fun r hr => h.share_nonneg hr
  have hsums : (∀ r ∈ w.store.recipients sale.collection,
      sumTo r.address ((w.store.recipients sale.collection).map fun r =>
        (r.address, paidShare sale.price r)) =
      sumTo r.address ((w.store.recipients sale.collection).map fun r => (r.address, sale.due r))) ↔
      ∀ r ∈ w.store.recipients sale.collection, paidShare sale.price r = sale.due r := by
    rcases le_total 0 sale.price with hprice | hprice
    · exact sumTo_eq_iff fun r hr => paidShare_le_due hprice (hshares r hr)
    · have hswap := sumTo_eq_iff fun r hr => due_le_paidShare hprice (hshares r hr)
      simpa only [eq_comm] using hswap
  have hentries : (∀ r ∈ w.store.recipients sale.collection, paidShare sale.price r = sale.due r) ↔
      sale.RoyaltiesFit w.store :=
    forall₂_congr fun r hr => share_paid_iff (hshares r hr)
  rw [← hentries, ← hsums]
  constructor
  · intro hpays r hr
    have hsum := hpays.paid r hr
    rwa [hpaid, h.sumTo_royaltyAmounts] at hsum
  · intro hsums
    refine ⟨fun r hr => ?_, before, after, ?_⟩
    · rw [hpaid, h.sumTo_royaltyAmounts]
      exact hsums r hr
    · rw [hpaid]
      exact hlog

/-- The royalties are read off the events of a sale, the last of which is no royalty. -/
theorem royaltiesPaid_of_events {w w' : World Store} {xs : List (Address × ℤ)} {tokenId now : ℕ}
    {e : Event} (he : royaltyPaid? e = none)
    (hevents : w'.events = w.events ++ (xs.map (royaltyEvent tokenId now) ++ [e])) :
    royaltiesPaid w w' = xs := by
  have hread : ∀ x, royaltyPaid? (royaltyEvent tokenId now x) = some x := fun _ => rfl
  have hlast : [e].filterMap royaltyPaid? = [] := by
    rw [List.filterMap_cons_none he, List.filterMap_nil]
  rw [royaltiesPaid, hevents, List.drop_left, List.filterMap_append, hlast, List.append_nil,
    List.filterMap_map]
  have hid : royaltyPaid? ∘ royaltyEvent tokenId now = some := funext hread
  rw [hid, List.filterMap_some]

/-- The three sales run `paySale` after a change of their record, and end with one event more. -/
theorem paySale_royalties {env : Env me} {sale : Sale} {w w₀ w₁ w' : World Store} {u : Unit}
    {e : Event} (h : Accepting w.store) (hpay : paySale env sale w₀ = .ok u w₁)
    (htokens : w₀.tokens = w.tokens) (hevents : w₀.events = w.events)
    (hroyalties : w₀.store.royaltyAmounts = w.store.royaltyAmounts)
    (hlog : w'.tokens = w₁.tokens) (hlast : w'.events = w₁.events ++ [e])
    (he : royaltyPaid? e = none) : sale.PaysRoyalties w w' ↔ sale.RoyaltiesFit w.store := by
  obtain ⟨feeRecipient, fee, hsold, hpaid⟩ := paySale_ok hpay
  rw [hroyalties, hevents] at hpaid
  have hsales := hsold.log
  rw [hroyalties, htokens] at hsales
  have hread : royaltiesPaid w w' = w.store.royaltyAmounts sale.collection sale.price := by
    apply royaltiesPaid_of_events he
    rw [hlast, hpaid, List.append_assoc]
  have hmade : w'.tokens.log = w.tokens.log ++
      (Transfer.ifPos ⟨sale.currency, sale.payer, feeRecipient, fee⟩ ++
        (w.store.royaltyAmounts sale.collection sale.price).map
          (fun x => ⟨sale.currency, sale.payer, x.1, x.2⟩) ++
        (Transfer.ifPos ⟨sale.currency, sale.payer, sale.seller, sellerProceeds sale.price fee
          (w.store.royaltyAmounts sale.collection sale.price)⟩ ++ [sale.handover me])) := by
    rw [hlog, hsales, Sale.payments]
    simp only [List.append_assoc]
  exact paysRoyalties_iff h hread hmade

theorem buyNft_royalties {env : Env me} {buyer : Address} {id : ℕ} {l : Listing}
    {w w' : World Store} (h : Accepting w.store) (hl : w.store.listings.lookup id = some l)
    (hok : buyNft env buyer id w = .ok () w') :
    (l.sale buyer).PaysRoyalties w w' ↔ (l.sale buyer).RoyaltiesFit w.store := by
  simp [buyNft] at hok
  obtain ⟨-, -, l', hl', -, _, w₁, hpay, s, -, rfl⟩ := hok
  rw [hl] at hl'
  cases hl'
  exact paySale_royalties h hpay rfl rfl rfl rfl rfl rfl

theorem buyDutchAuction_royalties {env : Env me} {buyer : Address} {id : ℕ} {a : Auction}
    {price : ℤ} {w w' : World Store} (h : Accepting w.store)
    (ha : w.store.auctions.lookup id = some a)
    (hprice : dutchAuctionPrice env.timestamp a = .ok price)
    (hok : buyDutchAuction env buyer id w = .ok () w') :
    (a.sale buyer price).PaysRoyalties w w' ↔ (a.sale buyer price).RoyaltiesFit w.store := by
  simp [buyDutchAuction] at hok
  obtain ⟨-, -, a', ha', -, -, price', hprice', -, _, w₁, hpay, s, -, rfl⟩ := hok
  rw [ha] at ha'
  cases ha'
  rw [hprice] at hprice'
  cases hprice'
  exact paySale_royalties h hpay rfl rfl rfl rfl rfl rfl

theorem settleEnglishAuction_royalties {env : Env me} {id : ℕ} {a : Auction} {w w' : World Store}
    (h : Accepting w.store) (ha : w.store.auctions.lookup id = some a) (hbid : a.currentBid ≠ 0)
    (hok : settleEnglishAuction env id w = .ok () w') :
    (a.settlement me).PaysRoyalties w w' ↔ (a.settlement me).RoyaltiesFit w.store := by
  simp [settleEnglishAuction] at hok
  obtain ⟨-, a', ha', -, -, -, hok⟩ := hok
  rw [ha] at ha'
  cases ha'
  rcases hok with ⟨hzero, -⟩ | ⟨-, _, w₁, hpay, s, -, rfl⟩
  · exact absurd hzero hbid
  · exact paySale_royalties h hpay rfl rfl rfl rfl rfl rfl

theorem acceptOffer_paid {env : Env me} {caller : Address} {id : ℕ} {w w' : World Store} {u : Unit}
    (hok : acceptOffer env caller id w = .ok u w') :
    royaltiesPaid w w' = [] ∧ ∃ made, w'.tokens.log = w.tokens.log ++ made := by
  have hdone := acceptOffer_done hok
  have hevents : ∃ e, royaltyPaid? e = none ∧ w'.events = w.events ++ [e] := by
    simp [acceptOffer, -onlyIf_ok, -sub_pos, -Int.sub_pos] at hok
    obtain ⟨-, -, o, -, -, -, _, w₁, hlate, fee, -, -, feeRecipient, -, _, w₂, hpayFee, _, w₃,
      hpaySeller, -, rfl⟩ := hok
    obtain ⟨-, rfl⟩ := onlyIf_ok_of_fails (by simp) hlate
    obtain rfl := onlyIf_transfer_ok hpayFee
    obtain rfl := onlyIf_transfer_ok hpaySeller
    exact ⟨_, rfl, rfl⟩
  obtain ⟨e, he, hevents⟩ := hevents
  refine ⟨?_, ?_⟩
  · exact @royaltiesPaid_of_events w w' [] 0 0 e he hevents
  · cases hdone with
    | acceptOffer => exact ⟨_, Ledger.log_moveAll _ _⟩

/-- An accepted offer pays no royalty: what is due is paid exactly when every share rounds down to
    nothing. -/
theorem acceptOffer_royalties {env : Env me} {caller : Address} {id : ℕ} {o : Offer}
    {w w' : World Store} (h : Accepting w.store) (ho : w.store.offers.lookup id = some o)
    (hok : acceptOffer env caller id w = .ok () w') :
    (o.sale me).PaysRoyalties w w' ↔
      ∀ r ∈ w.store.recipients o.collection, o.offerAmount * r.shareBps < bpsDenom := by
  obtain ⟨hnone, made, hmade⟩ := acceptOffer_paid hok
  have hamount : 0 < o.offerAmount := h.offers id o ho
  have hprod : ∀ r ∈ w.store.recipients o.collection, 0 ≤ o.offerAmount * r.shareBps :=
    fun r hr => mul_nonneg hamount.le (h.share_nonneg hr)
  have hdue : ∀ r ∈ w.store.recipients o.collection, (0 : ℤ) ≤ (o.sale me).due r :=
    fun r hr => Int.ediv_nonneg (hprod r hr) (by decide)
  have hzero : ∀ b : Address, sumTo b ((w.store.recipients o.collection).map fun r =>
      (r.address, (0 : ℤ))) = sumTo b [] := by
    intro b
    rw [sumTo_map]
    refine List.sum_eq_zero fun n hn => ?_
    obtain ⟨r, -, rfl⟩ := List.mem_map.mp hn
    rfl
  have hentries : (∀ r ∈ w.store.recipients o.collection, 0 = (o.sale me).due r) ↔
      ∀ r ∈ w.store.recipients o.collection, o.offerAmount * r.shareBps < bpsDenom := by
    refine forall₂_congr fun r hr => ?_
    have hnonneg := hprod r hr
    show 0 = o.offerAmount * r.shareBps / bpsDenom ↔ _
    unfold bpsDenom
    omega
  rw [← hentries, ← sumTo_eq_iff hdue]
  constructor
  · intro hpays r hr
    have hsum := hpays.paid r hr
    rw [hnone] at hsum
    rw [hzero]
    exact hsum
  · intro hsums
    refine ⟨fun r hr => ?_, made, [], ?_⟩
    · rw [hnone, ← hzero]
      exact hsums r hr
    · rw [hnone, hmade, List.map_nil, List.append_nil, List.append_nil]

/-! ## Every reachable state -/

/-- In every reachable state a successful sale pays the royalties that are due exactly when
    * by `buy_nft`, `settle_english_auction` with a bid and `buy_dutch_auction`: every share is
      zero, or the price is not negative and its product with the share is an `i128`;
    * by `accept_offer`: every share of the offered amount rounds down to nothing. -/
theorem royalties_enforced_iff (tokens : TokenLedger) (steps : List (Step me Entry)) (env : Env me)
    {w : World Store} (hw : run step (World.deployed Store.empty tokens) steps = w) :
    (∀ buyer id l w', w.store.listings.lookup id = some l → buyNft env buyer id w = .ok () w' →
      ((l.sale buyer).PaysRoyalties w w' ↔ (l.sale buyer).RoyaltiesFit w.store)) ∧
    (∀ id a w', w.store.auctions.lookup id = some a → a.currentBid ≠ 0 →
      settleEnglishAuction env id w = .ok () w' →
      ((a.settlement me).PaysRoyalties w w' ↔ (a.settlement me).RoyaltiesFit w.store)) ∧
    (∀ buyer id a price w', w.store.auctions.lookup id = some a →
      dutchAuctionPrice env.timestamp a = .ok price → buyDutchAuction env buyer id w = .ok () w' →
      ((a.sale buyer price).PaysRoyalties w w' ↔ (a.sale buyer price).RoyaltiesFit w.store)) ∧
    (∀ caller id o w', w.store.offers.lookup id = some o →
      acceptOffer env caller id w = .ok () w' →
      ((o.sale me).PaysRoyalties w w' ↔
        ∀ r ∈ w.store.recipients o.collection, o.offerAmount * r.shareBps < bpsDenom)) := by
  have h : Accepting w.store := by
    rw [← hw]
    exact accepting_run tokens steps
  refine ⟨fun buyer id l w' hl hok => ?_, fun id a w' ha hbid hok => ?_,
    fun buyer id a price w' ha hprice hok => ?_, fun caller id o w' ho hok => ?_⟩
  · exact buyNft_royalties h hl hok
  · exact settleEnglishAuction_royalties h ha hbid hok
  · exact buyDutchAuction_royalties h ha hprice hok
  · exact acceptOffer_royalties h ho hok

/-- The item sold for 10 pays the artist's share of 1. -/
theorem royalties_enforced_iff_sold :
    (listing.sale ⟨3⟩).PaysRoyalties (run step opened (listedWith 1)) (soldWith 1) :=
  ((royalties_enforced_iff marketFunds
    (.call (.signedBy ⟨0⟩ 1 1 []) (.init ⟨1⟩ 1000 ⟨8⟩ 500 300) :: listedWith 1)
    (Env.signedBy ⟨0⟩ 2 2 [⟨3⟩]) rfl).1 ⟨3⟩ 1 listing (soldWith 1) rfl rfl).mpr (by decide)

/-- The buyer offers 50 for the item in a marketplace with one royalty of 1000 basis points. -/
def offered : World Store :=
  run step opened (openedWith 1 ++
    [.call (.signedBy ⟨0⟩ 1 1 [⟨3⟩]) (.makeOffer ⟨3⟩ ⟨2⟩ ⟨7⟩ 1 1 50 ⟨9⟩ ⟨7⟩ 0 1000)])

/-- The seller accepts: the platform gets 5 and the seller 45, and the artist nothing of the 5
    due. -/
theorem offer_without_royalties :
    ∃ o w', offered.store.offers.lookup 1 = some o ∧
      acceptOffer (Env.signedBy ⟨0⟩ 2 2 [⟨2⟩]) ⟨2⟩ 1 offered = .ok () w' ∧
      offered.store.recipients ⟨7⟩ = [⟨⟨5⟩, 1000⟩] ∧ (o.sale ⟨0⟩).due ⟨⟨5⟩, 1000⟩ = 5 ∧
      w'.tokens.balance ⟨9⟩ ⟨5⟩ = 0 ∧ w'.tokens.balance ⟨9⟩ ⟨2⟩ = 45 ∧
      ¬ (o.sale ⟨0⟩).PaysRoyalties offered w' := by
  refine ⟨_, _, rfl, rfl, rfl, by decide, by decide, by decide, fun hpays => ?_⟩
  have hpaid := hpays.paid ⟨⟨5⟩, 1000⟩ (List.mem_singleton_self _)
  exact absurd hpaid (by decide)

end Trellis.Market
