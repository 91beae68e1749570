import Trellis.Market.Exits
import Trellis.Market.Records
import Trellis.Market.Settlement

/-!
# Purchases

An active listing and an active Dutch auction are open to everybody. A purchase splits the price,
makes the payments one after the other, all of them out of the buyer's balance, and hands the item
over.

Results:
* `allowsAll_paid_iff`: payments of one address are made exactly when it holds their sum.
* `paySale_succeeds`, `purchase_succeeds`: when a sale and a purchase go through.
* `items_can_be_bought`: as long as the settlements were covered, whoever holds the price can buy
  any item on sale, and a purchase splits its price and takes the item off sale for good.
-/

namespace Trellis.Market

open Exec

variable {me : Address}

/-! ## Payments of one address -/

section

variable {env : Env me} {token payer : Address}

/-- Payments in one token from one address, none of them negative, to others. -/
def PaidBy (token payer : Address) (xs : List TokenTransfer) : Prop :=
  ∀ x ∈ xs, x.token = token ∧ x.src = payer ∧ x.dst ≠ payer ∧ 0 ≤ x.amount

theorem balance_paid {x : TokenTransfer}
    (hx : x.token = token ∧ x.src = payer ∧ x.dst ≠ payer ∧ 0 ≤ x.amount) (l : TokenLedger) :
    (l.move x).balance token payer = l.balance token payer - x.amount := by
  obtain ⟨htoken, hsrc, hdst, -⟩ := hx
  rw [Ledger.balance_move, Transfer.net]
  simp [htoken, hsrc, hdst]
  omega

theorem allowsAll_of_sum_le (hsigned : env.signed payer = true)
    (hadmits : ∀ l x, env.admits l x = true) {xs : List TokenTransfer} (hxs : PaidBy token payer xs)
    {l : TokenLedger} (hle : (xs.map Transfer.amount).sum ≤ l.balance token payer) :
    env.AllowsAll l xs := by
  induction xs generalizing l with
  | nil => trivial
  | cons x xs ih =>
    have hrest : PaidBy token payer xs := fun y hy => hxs y (List.mem_cons_of_mem _ hy)
    have hfirst := hxs x List.mem_cons_self
    have hnonneg : 0 ≤ (xs.map Transfer.amount).sum := by
      refine List.sum_nonneg fun n hn => ?_
      obtain ⟨y, hy, rfl⟩ := List.mem_map.mp hn
      exact (hrest y hy).2.2.2
    rw [List.map_cons, List.sum_cons] at hle
    refine ⟨⟨hfirst.2.2.2, .inr ?_, ?_, hadmits _ _⟩, ih hrest ?_⟩
    · rw [hfirst.2.1]
      exact hsigned
    · rw [hfirst.1, hfirst.2.1]
      omega
    · rw [balance_paid hfirst]
      omega

theorem sum_le_of_allowsAll {xs : List TokenTransfer} (hxs : PaidBy token payer xs)
    {l : TokenLedger} (hall : env.AllowsAll l xs) :
    (xs.map Transfer.amount).sum ≤ max (l.balance token payer) 0 := by
  induction xs generalizing l with
  | nil => exact le_max_right _ _
  | cons x xs ih =>
    have hfirst := hxs x List.mem_cons_self
    obtain ⟨⟨-, -, hcovered, -⟩, hrest⟩ := hall
    have hle := ih (fun y hy => hxs y (List.mem_cons_of_mem _ hy)) hrest
    rw [hfirst.1, hfirst.2.1] at hcovered
    rw [balance_paid hfirst] at hle
    rw [List.map_cons, List.sum_cons]
    omega

/-- Payments of a positive sum are made exactly when the payer holds it. -/
theorem allowsAll_paid_iff (hsigned : env.signed payer = true)
    (hadmits : ∀ l x, env.admits l x = true) {xs : List TokenTransfer} (hxs : PaidBy token payer xs)
    {l : TokenLedger} (hpos : 0 < (xs.map Transfer.amount).sum) :
    env.AllowsAll l xs ↔ (xs.map Transfer.amount).sum ≤ l.balance token payer := by
  constructor
  · intro hall
    have hle := sum_le_of_allowsAll hxs hall
    omega
  · exact allowsAll_of_sum_le hsigned hadmits hxs

end

/-! ## When a sale is paid -/

section

variable {env : Env me}

/-- A payment that is left out when it is not positive. -/
theorem onlyIf_transfer_iff {token src dst : Address} {amount : ℤ} {w w' : World Store} {u : Unit} :
    (onlyIf (amount > 0) (transfer env token src dst amount) : Invocation Store MarketError Unit)
      w = .ok u w' ↔
      env.AllowsAll w.tokens (Transfer.ifPos ⟨token, src, dst, amount⟩) ∧
        w' = { w with tokens := w.tokens.moveAll (Transfer.ifPos ⟨token, src, dst, amount⟩) } := by
  rw [onlyIf_ok]
  by_cases hpos : amount > 0
  · simp [Transfer.ifPos, hpos, Env.AllowsAll]
  · simp [Transfer.ifPos, hpos, Env.AllowsAll]

theorem distributeRoyalties_iff {currency src : Address} {xs : List (Address × ℤ)}
    (hpos : ∀ x ∈ xs, 0 < x.2) {tokenId : ℕ} {w w' : World Store} {u : Unit} :
    distributeRoyalties env currency src xs tokenId w = .ok u w' ↔
      env.AllowsAll w.tokens (xs.map fun x => ⟨currency, src, x.1, x.2⟩) ∧ w' = { w with
        tokens := w.tokens.moveAll (xs.map fun x => ⟨currency, src, x.1, x.2⟩)
        events := w.events ++ xs.map (royaltyEvent tokenId env.timestamp) } := by
  refine ⟨fun h => ⟨?_, distributeRoyalties_ok hpos h⟩, ?_⟩
  · induction xs generalizing w with
    | nil => trivial
    | cons x xs ih =>
      rw [List.forall_mem_cons] at hpos
      simp only [distributeRoyalties, bind_ok, onlyIf_ok, transfer_ok, emitRoyaltyPaid,
        publish_ok] at h
      obtain ⟨_, w₁, ⟨-, _, _, ⟨hallows, rfl⟩, rfl⟩ | ⟨hnot, -⟩, h⟩ := h
      · exact ⟨hallows, ih hpos.2 h⟩
      · exact absurd hpos.1 hnot
  · rintro ⟨hall, rfl⟩
    induction xs generalizing w with
    | nil =>
      rw [distributeRoyalties, List.map_nil, List.map_nil, Ledger.moveAll_nil, List.append_nil]
      rfl
    | cons x xs ih =>
      rw [List.forall_mem_cons] at hpos
      obtain ⟨hallows, hrest⟩ := hall
      have hnext := ih hpos.2 (w := { w with
        tokens := w.tokens.move ⟨currency, src, x.1, x.2⟩
        events := w.events ++ [royaltyEvent tokenId env.timestamp x] }) hrest
      simp only [distributeRoyalties, bind_ok, onlyIf_ok, transfer_ok, emitRoyaltyPaid, publish_ok]
      refine ⟨(), _, .inl ⟨hpos.1, (), _, ⟨hallows, rfl⟩, rfl⟩, ?_⟩
      rw [List.map_cons, List.map_cons, Ledger.moveAll_cons]
      rw [List.append_assoc] at hnext
      exact hnext

theorem splitPrice_ok {sale : Sale} {w w' : World Store} {split : ℤ × List (Address × ℤ) × ℤ}
    (h : splitPrice sale w = .ok split w') :
    computePlatformFee sale.price w.store.getPlatformFeeBps = .ok split.1 ∧
      split.2.1 = w.store.royaltyAmounts sale.collection sale.price ∧
      split.2.2 = sellerProceeds sale.price split.1 split.2.1 ∧ w' = w := by
  simp only [splitPrice, bind_ok, read_ok, ofExcept_ok, expect_ok, okOr_ok, checkedSub_eq_some,
    pure_ok] at h
  obtain ⟨_, _, ⟨rfl, rfl⟩, fee, _, ⟨hfee, rfl⟩, _, _, ⟨rfl, rfl⟩, total, _, ⟨htotal, rfl⟩, _, _,
    ⟨⟨-, rfl⟩, rfl⟩, _, _, ⟨⟨-, rfl⟩, rfl⟩, rfl, rfl⟩ := h
  exact ⟨hfee, rfl, by rw [sumI128_eq htotal]; rfl, rfl⟩

/-- A sale goes through when its price is split, all payments are made, and then the item is handed
    over. -/
theorem paySale_succeeds {sale : Sale} {w : World Store} : (paySale env sale).Succeeds w ↔
    ∃ feeRecipient fee, w.store.feeRecipient = some feeRecipient ∧ (splitPrice sale).Succeeds w ∧
      computePlatformFee sale.price w.store.getPlatformFeeBps = .ok fee ∧
      env.AllowsAll w.tokens (sale.payments feeRecipient fee
        (w.store.royaltyAmounts sale.collection sale.price) ++ [sale.handover me]) := by
  rw [paySale_eq]
  unfold Succeeds Sale.payments
  simp only [bind_ok, read_ok, expect_ok, onlyIf_transfer_iff, transfer_ok, Env.allowsAll_append]
  constructor
  · rintro ⟨u, w', _, _, ⟨rfl, rfl⟩, feeRecipient, _, ⟨hrecipient, rfl⟩, split, _, hsplit, _, _,
      ⟨hfee, rfl⟩, _, _, hpaid, _, _, ⟨hproceeds, rfl⟩, hhandover, -⟩
    obtain ⟨hcompute, hamounts, hrest, rfl⟩ := splitPrice_ok hsplit
    rw [hamounts] at hpaid hrest
    rw [hrest] at hproceeds hhandover
    obtain ⟨hroyalties, rfl⟩ := (distributeRoyalties_iff fun x hx => royaltyAmounts_pos hx).mp hpaid
    refine ⟨feeRecipient, split.1, hrecipient, ⟨split, _, hsplit⟩, hcompute,
      ⟨⟨hfee, hroyalties⟩, ?_⟩, ?_, trivial⟩
    · rw [Ledger.moveAll_append]
      exact hproceeds
    · rw [Ledger.moveAll_append, Ledger.moveAll_append]
      exact hhandover
  · rintro ⟨feeRecipient, fee, hrecipient, ⟨split, w', hsplit⟩, hcompute,
      ⟨⟨hfee, hroyalties⟩, hproceeds⟩, hhandover, -⟩
    obtain ⟨hcompute', hamounts, hrest, rfl⟩ := splitPrice_ok hsplit
    obtain rfl := Except.ok.inj (hcompute.symm.trans hcompute')
    rw [Ledger.moveAll_append] at hproceeds hhandover
    rw [Ledger.moveAll_append] at hhandover
    refine ⟨(), _, _, w', ⟨rfl, rfl⟩, feeRecipient, w', ⟨hrecipient, rfl⟩, split, w', hsplit, (), _,
      ⟨hfee, rfl⟩, (), _, (distributeRoyalties_iff fun x hx => ?_).mpr ⟨?_, rfl⟩, (), _,
        ⟨?_, rfl⟩, ?_, rfl⟩
    · rw [hamounts] at hx
      exact royaltyAmounts_pos hx
    · rw [hamounts]
      exact hroyalties
    · rw [hrest, hamounts]
      exact hproceeds
    · rw [hrest, hamounts]
      exact hhandover

/-- The buyer of a sale is none of those that the sale pays. -/
structure Sale.ToOthers (sale : Sale) (s : Store) : Prop where
  feeRecipient : s.feeRecipient ≠ some sale.payer
  seller : sale.seller ≠ sale.payer
  recipients : ∀ r ∈ s.recipients sale.collection, r.address ≠ sale.payer

/-- The royalties go to the recipients of the collection. -/
theorem mem_recipients {s : Store} {collection : Address} {price : ℤ} {x : Address × ℤ}
    (hx : x ∈ s.royaltyAmounts collection price) :
    ∃ r ∈ s.recipients collection, r.address = x.1 := by
  unfold Store.royaltyAmounts at hx
  unfold Store.recipients Store.royaltyConfig?
  cases hinfo : s.collection? collection with
  | none =>
    rw [hinfo] at hx
    exact absurd hx List.not_mem_nil
  | some info =>
    rw [hinfo] at hx
    simp only [Option.map_some, Option.getD_some, computeRoyaltyAmounts] at hx ⊢
    split_ifs at hx
    · exact absurd hx List.not_mem_nil
    · obtain ⟨r, hr, rfl⟩ := List.mem_map.mp (List.mem_filter.mp hx).1
      exact ⟨r, hr, rfl⟩

/-- The payments of such a sale are payments of the buyer to others. -/
theorem Sale.ToOthers.paidBy {sale : Sale} {s : Store} (h : sale.ToOthers s)
    {feeRecipient : Address} (hrecipient : s.feeRecipient = some feeRecipient) (fee : ℤ) :
    PaidBy sale.currency sale.payer
      (sale.payments feeRecipient fee (s.royaltyAmounts sale.collection sale.price)) := by
  intro x hx
  unfold Sale.payments at hx
  rw [List.mem_append, List.mem_append, Transfer.mem_ifPos, Transfer.mem_ifPos] at hx
  rcases hx with (⟨rfl, hpos⟩ | hx) | ⟨rfl, hpos⟩
  · exact ⟨rfl, rfl, fun hsame => h.feeRecipient (hrecipient.trans (congrArg some hsame)), hpos.le⟩
  · obtain ⟨y, hy, rfl⟩ := List.mem_map.mp hx
    obtain ⟨r, hr, haddress⟩ := mem_recipients hy
    exact ⟨rfl, rfl, fun hsame => h.recipients r hr (haddress.trans hsame),
      (royaltyAmounts_pos hy).le⟩
  · exact ⟨rfl, rfl, h.seller, hpos.le⟩

/-- The payments of a sale that fits add up to its price. -/
theorem Inv.sum_payments {w : World Store} (h : Inv me w.store) {sale : Sale}
    (hfits : sale.Fits w.store) {fee : ℤ}
    (hfee : computePlatformFee sale.price w.store.getPlatformFeeBps = .ok fee)
    (feeRecipient : Address) :
    ((sale.payments feeRecipient fee (w.store.royaltyAmounts sale.collection sale.price)).map
      Transfer.amount).sum = sale.price := by
  obtain ⟨hprice, hle⟩ := hfits
  have hvalue : fee = sale.feeDue w.store := ((computePlatformFee_ok hprice.le h.fee.1).mp hfee).2
  have hnonneg := h.platformFee_nonneg hprice.le hfee
  have htotal := h.sum_royaltyAmounts sale hprice.le
  have hproceeds :
      0 ≤ sellerProceeds sale.price fee (w.store.royaltyAmounts sale.collection sale.price) := by
    unfold sellerProceeds
    omega
  rw [Sale.sum_payments, max_eq_left hnonneg, max_eq_left hproceeds]
  unfold sellerProceeds
  omega

/-- A sale that fits goes through exactly when its arithmetic does not overflow and the buyer holds
    the price. -/
theorem paySale_succeeds_iff {sale : Sale} {w : World Store} (h : Inv me w.store)
    {feeRecipient : Address} (hrecipient : w.store.feeRecipient = some feeRecipient)
    (hfits : sale.Fits w.store) (hothers : sale.ToOthers w.store)
    (hsigned : env.signed sale.payer = true) (hadmits : ∀ l x, env.admits l x = true)
    (hitem : (sale.amount : ℤ) ≤ w.tokens.balance sale.collection me) :
    (paySale env sale).Succeeds w ↔ sale.price < 2 ^ 127 ∧
      sale.price * w.store.getPlatformFeeBps < 2 ^ 127 ∧
      sale.price ≤ w.tokens.balance sale.currency sale.payer := by
  have hpaid : ∀ {fee}, computePlatformFee sale.price w.store.getPlatformFeeBps = .ok fee →
      (env.AllowsAll w.tokens
        (sale.payments feeRecipient fee (w.store.royaltyAmounts sale.collection sale.price)) ↔
          sale.price ≤ w.tokens.balance sale.currency sale.payer) := by
    intro fee hfee
    have hsum := h.sum_payments hfits hfee feeRecipient
    have hiff := allowsAll_paid_iff hsigned hadmits (hothers.paidBy hrecipient fee) (l := w.tokens)
      (hsum.symm ▸ hfits.1)
    rwa [hsum] at hiff
  have htotal : sale.totalDue w.store ≤ sale.price := by
    have hfee : 0 ≤ sale.feeDue w.store :=
      Int.ediv_nonneg (mul_nonneg hfits.1.le h.fee.1) (by decide)
    have hle := hfits.2
    omega
  rw [paySale_succeeds, splitPrice_succeeds h hfits.1]
  constructor
  · rintro ⟨r, fee, hr, ⟨hprice, hproduct, -⟩, hfee, hall⟩
    obtain rfl := Option.some.inj (hr.symm.trans hrecipient)
    exact ⟨hprice, hproduct, (hpaid hfee).mp (Env.allowsAll_append.mp hall).1⟩
  · rintro ⟨hprice, hproduct, hcovered⟩
    obtain ⟨fee, hfee⟩ : ∃ fee, computePlatformFee sale.price w.store.getPlatformFeeBps = .ok fee :=
      ⟨_, (computePlatformFee_ok hfits.1.le h.fee.1).mpr ⟨hproduct, rfl⟩⟩
    refine ⟨feeRecipient, fee, hrecipient, ⟨hprice, hproduct, by omega⟩, hfee, ?_⟩
    refine Env.allowsAll_append.mpr ⟨(hpaid hfee).mpr hcovered,
      ⟨Int.natCast_nonneg _, .inl rfl, ?_, hadmits _ _⟩, trivial⟩
    -- the payments take nothing from the marketplace
    have hpayments := hothers.paidBy hrecipient fee
    have hreceived := netAll_nonneg (t := sale.collection) (a := me)
      (fun x hx => (hpayments x hx).2.1 ▸ Env.ne_me_of_signed hsigned) fun x hx =>
        (hpayments x hx).2.2.2
    show (sale.amount : ℤ) ≤ (w.tokens.moveAll _).balance sale.collection me
    rw [Ledger.balance_moveAll]
    omega

end

/-! ## What is on sale -/

/-- The key of an item on sale to everybody. -/
inductive SaleKey where
  | listing (id : ℕ)
  | dutch (id : ℕ)
  deriving DecidableEq, Repr

/-- The call that buys it. -/
def purchase (env : Env me) (buyer : Address) : SaleKey → Invocation Store MarketError Unit
  | .listing id => buyNft env buyer id
  | .dutch id => buyDutchAuction env buyer id

/-- The sale of the item to a buyer at a time, as long as it is on sale and has a price. -/
def Store.sale? (s : Store) (now : ℕ) (buyer : Address) : SaleKey → Option Sale
  | .listing id =>
      ((s.listings.lookup id).filter fun l => l.status = .active).map fun l => l.sale buyer
  | .dutch id =>
    ((s.auctions.lookup id).filter fun a => a.status = .active ∧
      a.auctionType = .dutch).bind fun a =>
      (dutchAuctionPrice now a).toOption.map (a.sale buyer)

/-- The records with the item marked as sold. -/
def Store.sold (s : Store) : SaleKey → Store
  | .listing id => { s with
      listings := (s.listings.lookup id).elim s.listings fun l =>
        s.listings.insert id { l with status := .sold } }
  | .dutch id => { s with
      auctions := (s.auctions.lookup id).elim s.auctions fun a =>
        s.auctions.insert id { a with status := .settled } }

section

variable {env : Env me} {buyer : Address} {key : SaleKey} {sale : Sale} {w w' : World Store}

theorem sale?_listing {s : Store} {now : ℕ} {id : ℕ}
    (h : s.sale? now buyer (.listing id) = some sale) :
    ∃ l, s.listings.lookup id = some l ∧ l.status = .active ∧ sale = l.sale buyer := by
  obtain ⟨l, hfound, rfl⟩ := Option.map_eq_some_iff.mp h
  obtain ⟨hl, hactive⟩ := Option.filter_eq_some_iff.mp hfound
  exact ⟨l, hl, by simpa using hactive, rfl⟩

theorem sale?_dutch {s : Store} {now : ℕ} {id : ℕ} (h : s.sale? now buyer (.dutch id) = some sale) :
    ∃ a price, s.auctions.lookup id = some a ∧ a.status = .active ∧ a.auctionType = .dutch ∧
      dutchAuctionPrice now a = .ok price ∧ sale = a.sale buyer price := by
  obtain ⟨a, hfound, hpriced⟩ := Option.bind_eq_some_iff.mp h
  obtain ⟨ha, hopen⟩ := Option.filter_eq_some_iff.mp hfound
  obtain ⟨price, hvalue, rfl⟩ := Option.map_eq_some_iff.mp hpriced
  have hactive : a.status = .active ∧ a.auctionType = .dutch := by simpa using hopen
  refine ⟨a, price, ha, hactive.1, hactive.2, ?_, rfl⟩
  cases hok : dutchAuctionPrice now a with
  | ok p =>
    rw [hok] at hvalue
    exact congrArg Except.ok (Option.some.inj hvalue)
  | error e =>
    rw [hok] at hvalue
    cases hvalue

theorem sale?_buyer {s : Store} {now : ℕ} (h : s.sale? now buyer key = some sale) :
    sale.payer = buyer ∧ sale.receiver = buyer := by
  cases key with
  | listing id =>
    obtain ⟨l, -, -, rfl⟩ := sale?_listing h
    exact ⟨rfl, rfl⟩
  | dutch id =>
    obtain ⟨a, price, -, -, -, -, rfl⟩ := sale?_dutch h
    exact ⟨rfl, rfl⟩

theorem Store.exists_sold (s : Store) (key : SaleKey) :
    ∃ listings auctions, s.sold key = { s with listings := listings, auctions := auctions } := by
  cases key with
  | listing id => exact ⟨_, s.auctions, rfl⟩
  | dutch id => exact ⟨s.listings, _, rfl⟩

theorem Inv.sold {s : Store} {now : ℕ} (h : Inv me s) (hsale : s.sale? now buyer key = some sale) :
    Inv me (s.sold key) := by
  cases key with
  | listing id =>
    obtain ⟨l, hl, -⟩ := sale?_listing hsale
    rw [Store.sold, hl]
    exact h.setListing hl _
  | dutch id =>
    obtain ⟨a, price, ha, -⟩ := sale?_dutch hsale
    rw [Store.sold, ha]
    exact h.closeAuction ha _

/-- A purchase goes through when the marketplace is not paused, the buyer signs, and the sale goes
    through. -/
theorem purchase_succeeds (hsale : w.store.sale? env.timestamp buyer key = some sale)
    (hpos : 0 < sale.price) :
    (purchase env buyer key).Succeeds w ↔ w.shared.paused.getD false = false ∧
      env.signed buyer = true ∧
      (paySale env sale).Succeeds { w with store := w.store.sold key } := by
  cases key with
  | listing id =>
    obtain ⟨l, hl, hactive, rfl⟩ := sale?_listing hsale
    have hstats : ∀ s : Store, ∃ s', s.bumpStats l.collection (-1) 0 = some s' :=
      fun s => exists_bumpStats s _ (.inl ⟨rfl, rfl⟩)
    simp [Succeeds, purchase, buyNft, Store.sold, hl, hactive, hstats]
  | dutch id =>
    obtain ⟨a, price, ha, hactive, htype, hprice, rfl⟩ := sale?_dutch hsale
    have hstats : ∀ s : Store, ∃ s', s.bumpStats a.collection 0 (-1) = some s' :=
      fun s => exists_bumpStats s _ (.inr ⟨rfl, rfl⟩)
    have hne : price ≠ 0 := hpos.ne'
    simp [Succeeds, purchase, buyDutchAuction, Store.sold, ha, hactive, htype, hprice, hne, hstats]

theorem purchase_conserves {u : Unit} (hinv : Inv me w.store)
    (hsale : w.store.sale? env.timestamp buyer key = some sale) (hfits : sale.Fits w.store)
    (h : purchase env buyer key w = .ok u w') : sale.Conserves me w w' := by
  cases key with
  | listing id =>
    obtain ⟨l, hl, -, rfl⟩ := sale?_listing hsale
    cases buyNft_done h with
    | buyNft l' feeRecipient fee w₁ s events hactive hsigned hl' hopen hsold hstats =>
      obtain rfl := Option.some.inj (hl.symm.trans hl')
      exact (hsold.conserves_iff (hinv.setListing hl _)).mpr hfits
  | dutch id =>
    obtain ⟨a, price, ha, -, -, hprice, rfl⟩ := sale?_dutch hsale
    cases buyDutchAuction_done h with
    | buyDutchAuction a' price' feeRecipient fee w₁ s events hactive hsigned ha' hopen htype
        hprice' hne hsold hstats =>
      obtain rfl := Option.some.inj (ha.symm.trans ha')
      obtain rfl := Except.ok.inj (hprice.symm.trans hprice')
      exact (hsold.conserves_iff (hinv.closeAuction ha _)).mpr hfits

end

/-! ## Off sale -/

/-- The record of the item is closed. -/
def Store.OffSale (s : Store) : SaleKey → Prop
  | .listing id => ∃ l, s.listings.lookup id = some l ∧ l.status ≠ .active
  | .dutch id => ∃ a, s.auctions.lookup id = some a ∧ a.isOpen = false

/-- An item with a closed record is on sale to nobody at no time. -/
theorem Store.OffSale.sale? {s : Store} {key : SaleKey} (h : s.OffSale key) (now : ℕ)
    (buyer : Address) : s.sale? now buyer key = none := by
  cases key with
  | listing id =>
    obtain ⟨l, hl, hclosed⟩ := h
    simp [Store.sale?, hl, hclosed]
  | dutch id =>
    obtain ⟨a, ha, hclosed⟩ := h
    have hnot : a.status ≠ .active := by
      intro hactive
      rw [isOpen_of_active hactive] at hclosed
      cases hclosed
    simp [Store.sale?, ha, hnot]

theorem Store.OffSale.later {s s' : Store} {key : SaleKey} (h : s.OffSale key)
    (hlater : LaterRecords s s') : s'.OffSale key := by
  cases key with
  | listing id =>
    obtain ⟨l, hl, hclosed⟩ := h
    obtain ⟨l', hl', hkept⟩ := hlater.1 id l hl
    rw [hkept.closed hclosed] at hl'
    exact ⟨l, hl', hclosed⟩
  | dutch id =>
    obtain ⟨a, ha, hclosed⟩ := h
    obtain ⟨a', ha', hkept⟩ := hlater.2 id a ha
    rw [hkept.closed hclosed] at ha'
    exact ⟨a, ha', hclosed⟩

/-- A purchase closes the record of the item, and keeps the invariant. -/
theorem offSale_purchase {env : Env me} {buyer : Address} {key : SaleKey} {w w' : World Store}
    {u : Unit} (hinv : Inv me w.store) (h : purchase env buyer key w = .ok u w') :
    Inv me w'.store ∧ w'.store.OffSale key := by
  cases key with
  | listing id =>
    have hdone := buyNft_done h
    refine ⟨hinv.done ?_ hdone, ?_⟩
    · exact fun hfirst => hfirst
    · cases hdone with
      | buyNft l feeRecipient fee w₁ s events hactive hsigned hl hopen hsold hstats =>
        rw [hsold.store] at hstats
        refine ⟨{ l with status := .sold }, ?_, ListingStatus.noConfusion⟩
        rw [(same_bumpStats hstats).1.table, Table.lookup_set, if_pos rfl]
  | dutch id =>
    have hdone := buyDutchAuction_done h
    refine ⟨hinv.done ?_ hdone, ?_⟩
    · exact fun hfirst => hfirst
    · cases hdone with
      | buyDutchAuction a price feeRecipient fee w₁ s events hactive hsigned ha hopen htype
          hprice hne hsold hstats =>
        rw [hsold.store] at hstats
        refine ⟨{ a with status := .settled }, ?_, rfl⟩
        rw [(same_bumpStats hstats).2.table, Table.lookup_set, if_pos rfl]

/-! ## The recipient of the fees -/

theorem feeRecipient_bumpStats {s s' : Store} {collection : Address} {dl da : ℤ}
    (h : s.bumpStats collection dl da = some s') : s'.feeRecipient = s.feeRecipient := by
  obtain ⟨⟨collections, rfl⟩, -⟩ := Store.bumpStats_some h
  rfl

/-- A call leaves a recipient of the fees in place, or sets another one. -/
theorem feeRecipient_done {env : Env me} {c : Entry} {w w' : World Store}
    (h : w.store.feeRecipient.isSome = true) (hdone : Done env w c w') :
    w'.store.feeRecipient.isSome = true := by
  have hlisted : ∀ {seller item} (w w' : World Store), w.store.feeRecipient.isSome = true →
      Listed env seller item w w' → w'.store.feeRecipient.isSome = true := by
    intro seller item w w' hw hitem
    rw [feeRecipient_bumpStats hitem.store]
    exact hw
  have hauctioned : ∀ {seller item endTime} (w w' : World Store),
    w.store.feeRecipient.isSome = true →
      Auctioned env seller item endTime w w' → w'.store.feeRecipient.isSome = true := by
    intro seller item endTime w w' hw hitem
    rw [feeRecipient_bumpStats hitem.store]
    exact hw
  cases hdone with
  | init | setFeeRecipient => rfl
  | setPlatformFee | setBidIncrement | setAutoExtension | setCurrency | setOracle
  | registerCollection
    | setCollectionRoyalties | placeBid | makeOffer | acceptOffer | cancelOffer => exact h
  | listNft w₁ events hactive hsigned hprice hcurrency hhash hcollection hitem =>
    exact hlisted w w₁ h hitem
  | createEnglishAuction w₁ e events hactive hsigned hstart hcurrency hhash hcollection hduration
      hend hitem =>
    exact hauctioned w w₁ h hitem
  | createDutchAuction w₁ e events hactive hsigned hstart hfloor hcurrency hhash hcollection
      hprices hduration hend hitem =>
    exact hauctioned w w₁ h hitem
  | cancelListing l s hsigned hl hopen hseller hstats =>
    rw [feeRecipient_bumpStats hstats]
    exact h
  | settleUnsold a s hactive ha hopen htime hbid hstats =>
    rw [feeRecipient_bumpStats hstats]
    exact h
  | cancelDutchAuction a s hsigned ha hopen htype hseller hstats =>
    rw [feeRecipient_bumpStats hstats]
    exact h
  | buyNft l feeRecipient fee w₁ s events hactive hsigned hl hopen hsold hstats =>
    rw [feeRecipient_bumpStats hstats, hsold.store]
    exact h
  | settleSold a feeRecipient fee w₁ s events hactive ha hopen htime hbid hsold hstats =>
    rw [feeRecipient_bumpStats hstats, hsold.store]
    exact h
  | buyDutchAuction a price feeRecipient fee w₁ s events hactive hsigned ha hopen htype
      hprice hne hsold hstats =>
    rw [feeRecipient_bumpStats hstats, hsold.store]
    exact h
  | bulkList w' hactive hsigned hlength heach =>
    exact keeps_listed (P := fun s => s.feeRecipient.isSome = true)
      (fun _ w w' hw hitem => hlisted w w' hw hitem)
      heach h
  | bulkCreateAuctions w' hactive hsigned hlength heach =>
    exact keeps_auctioned (P := fun s => s.feeRecipient.isSome = true)
      (fun _ _ w w' hw hitem => hauctioned w w' hw hitem) heach h

/-- From `initialize` on somebody receives the fees. -/
theorem feeRecipient_run {env : Env me} {admin recipient : Address} {fee increment : ℤ}
    {extension : ℕ} {w₀ w : World Store} {u : Unit}
    (hinit : init env admin fee recipient increment extension w₀ = .ok u w)
    (steps : List (Step me Entry)) : ∃ r, (run step w steps).store.feeRecipient = some r := by
  rw [← Option.isSome_iff_exists]
  apply run_induct (P := fun w : World Store => w.store.feeRecipient.isSome = true)
  · intro w s h
    rcases step_cases s w with ⟨env, x, hx⟩ | hx | ⟨env, c, w', -, hx, hdone⟩
    · rwa [hx, store_outsideTransfer]
    · rwa [hx]
    · rw [hx]
      exact feeRecipient_done h hdone
  · cases init_done hinit with
    | init => rfl

/-! ## Who can buy -/

theorem sale?_deposit {s : Store} {now : ℕ} {buyer : Address} {key : SaleKey} {sale : Sale}
    (h : s.sale? now buyer key = some sale) :
    ∃ k, s.deposit? k = some ⟨sale.seller, sale.collection, sale.amount, true⟩ := by
  cases key with
  | listing id =>
    obtain ⟨l, hl, hactive, rfl⟩ := sale?_listing h
    refine ⟨.listing id, ?_⟩
    rw [Store.deposit?, hl, Option.map_some, Listing.deposit, hactive]
    rfl
  | dutch id =>
    obtain ⟨a, price, ha, hactive, htype, -, rfl⟩ := sale?_dutch h
    refine ⟨.auction id, ?_⟩
    rw [Store.deposit?, ha, Option.map_some, Auction.deposit, hactive, htype]
    rfl

/-- From the first `initialize` on, without another one, as long as every settlement of a bid was
    covered: a buyer who signs and whom the sale does not pay
    * can buy an item on sale, at a price that holds the fee and the royalties, exactly when the
      marketplace is not paused, the price and its product with the fee rate are `i128`, and the
      buyer holds the price;
    * pays that price and no more, and the item is never on sale again. -/
theorem items_can_be_bought {env₀ : Env me} {admin recipient : Address} {fee increment : ℤ}
    {extension : ℕ} {tokens : TokenLedger} (hfunds : ∀ t a, 0 ≤ tokens.balance t a)
    {w₀ : World Store}
    (hinit : init env₀ admin fee recipient increment extension (World.deployed Store.empty tokens) =
      .ok () w₀)
    (steps : List (Step me Entry)) (honce : ∀ s ∈ steps, ¬ Initializes s)
    (hcovered : ∀ x ∈ trace step w₀ steps, Covered x.1 x.2) {w : World Store}
    (hw : run step w₀ steps = w) {env : Env me} (hadmits : ∀ l x, env.admits l x = true)
    {buyer : Address} (hsigned : env.signed buyer = true) {key : SaleKey} {sale : Sale}
    (hsale : w.store.sale? env.timestamp buyer key = some sale) (hfits : sale.Fits w.store)
    (hothers : sale.ToOthers w.store) :
    ((purchase env buyer key).Succeeds w ↔ w.shared.paused.getD false = false ∧
      sale.price < 2 ^ 127 ∧
      sale.price * w.store.getPlatformFeeBps < 2 ^ 127 ∧
        sale.price ≤ w.tokens.balance sale.currency buyer) ∧
    ∀ u w', purchase env buyer key w = .ok u w' → sale.Conserves me w w' ∧
      ∀ later : List (Step me Entry), (∀ s ∈ later, ¬ Initializes s) →
        ∀ now b, (run step w' later).store.sale? now b key = none := by
  have hsound : Sound me w := hw ▸ sound_run hfunds hinit honce hcovered
  obtain ⟨r, hr⟩ := feeRecipient_run hinit steps
  rw [hw] at hr
  refine ⟨?_,
    fun u w' h => ⟨purchase_conserves hsound.inv hsale hfits h, fun later hlater now b => ?_⟩⟩
  · obtain ⟨k, hd⟩ := sale?_deposit hsale
    have hitem := (hsound.inv.deposit_le hd rfl).2.trans (hsound.solvent sale.collection)
    have hpayer := (sale?_buyer hsale).1
    obtain ⟨listings, auctions, hsold⟩ := w.store.exists_sold key
    have hinv := hsound.inv.sold hsale
    rw [hsold] at hinv
    have hpaid := paySale_succeeds_iff (w := { w with
      store := { w.store with listings := listings, auctions := auctions } }) hinv hr hfits
        ⟨hothers.feeRecipient, hothers.seller, hothers.recipients⟩
          (hpayer.symm ▸ hsigned) hadmits hitem
    rw [hpayer] at hpaid
    rw [purchase_succeeds hsale hfits.1, and_iff_right hsigned, hsold, hpaid]
    exact Iff.rfl
  · obtain ⟨hinv, hclosed⟩ := offSale_purchase hsound.inv h
    exact (hclosed.later (later_run hinv hlater)).sale? now b

/-- With one royalty the buyer can buy the listed item for 10, and only once. -/
theorem items_can_be_bought_listed :
    (purchase (Env.signedBy ⟨0⟩ 2 2 [⟨3⟩]) ⟨3⟩ (.listing 1)).Succeeds
    (run step opened (listedWith 1)) ∧
      (listing.sale ⟨3⟩).Conserves ⟨0⟩ (run step opened (listedWith 1)) (soldWith 1) ∧
      ∀ now b, (soldWith 1).store.sale? now b (.listing 1) = none := by
  have hcovered : ∀ x ∈ trace step opened (listedWith 1), Covered x.1 x.2 := by
    intro x hx
    fin_cases hx <;> trivial
  have hsigned : (Env.signedBy ⟨0⟩ 2 2 [⟨3⟩]).signed ⟨3⟩ = true := rfl
  have hsale : (run step opened (listedWith 1)).store.sale? 2 ⟨3⟩ (.listing 1) =
      some (listing.sale ⟨3⟩) := rfl
  have hothers : (listing.sale ⟨3⟩).ToOthers (run step opened (listedWith 1)).store :=
    ⟨by decide, by decide, by decide⟩
  obtain ⟨hiff, hbought⟩ :=
    items_can_be_bought marketFunds_nonneg init_opened (listedWith 1) (listedWith_once 1)
    hcovered rfl (fun _ _ => rfl) hsigned hsale (by decide) hothers
  obtain ⟨hconserves, hoff⟩ := hbought () (soldWith 1) rfl
  exact ⟨hiff.mpr ⟨rfl, by decide, by decide, by decide⟩, hconserves, hoff [] (by simp)⟩

end Trellis.Market
