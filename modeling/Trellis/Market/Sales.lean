import Trellis.Market.Invariant

/-!
# How a sale splits its price

A sale pays a platform fee, the royalties of the collection and the rest to the seller. The rates
are set independently of each other, and a negative rest is not refused: the seller then gets
nothing, and the payer pays the fee and the royalties, more than the price.

Results:
* `computePlatformFee_ok`, `royaltyAmounts_eq`: the fee and the royalties as the code computes them
  are the shares of the price, rounded down.
* `Sold.conserves_iff`: a sale splits its price exactly when the price is positive and the fee and
  the royalties together do not exceed it.
* `sales_conserve_iff`: the same for the three kinds of sale in every reachable state.
* `fits_of_rates`: rates of at most 10000 basis points in all are enough.
-/

namespace Trellis.Market

variable {me : Address}

/-! ## The shares of a price -/

/-- A royalty: the share of the price, rounded down. A product beyond `i128` counts as nothing. -/
def royaltyDue (price shareBps : ℤ) : ℤ :=
  if price * shareBps < 2 ^ 127 then price * shareBps / bpsDenom else 0

/-- The royalty table of a collection: empty when it is not registered. -/
def Store.recipients (s : Store) (collection : Address) : List RoyaltyRecipient :=
  ((s.royaltyConfig? collection).map RoyaltyConfig.recipients).getD []

namespace Sale

/-- The platform fee of a sale: the share of the price, rounded down. -/
def feeDue (sale : Sale) (s : Store) : ℤ := sale.price * s.getPlatformFeeBps / bpsDenom

/-- The royalties of a sale. -/
def royaltiesDue (sale : Sale) (s : Store) : List (Address × ℤ) :=
  (s.recipients sale.collection).map fun r => (r.address, royaltyDue sale.price r.shareBps)

/-- The sum of the royalties of a sale. -/
def totalDue (sale : Sale) (s : Store) : ℤ := ((sale.royaltiesDue s).map Prod.snd).sum

/-- The price is positive, and the fee and the royalties together do not exceed it. -/
def Fits (sale : Sale) (s : Store) : Prop :=
  0 < sale.price ∧ sale.feeDue s + sale.totalDue s ≤ sale.price

instance (sale : Sale) (s : Store) : Decidable (sale.Fits s) := inferInstanceAs (Decidable (_ ∧ _))

/-- The call from `w` to `w'` splits the price of the sale: the price is positive, no part is
    negative, the parts add up to the price, and so do the payments, all made by the payer in the
    currency. The last transfer of the call hands the item over. -/
def Conserves (sale : Sale) (me : Address) (w w' : World Store) : Prop :=
  ∃ platformFee, computePlatformFee sale.price w.store.getPlatformFeeBps = .ok platformFee ∧
    0 < sale.price ∧ 0 ≤ platformFee ∧
    (∀ x ∈ w.store.royaltyAmounts sale.collection sale.price, 0 ≤ x.2) ∧
    0 ≤ sellerProceeds sale.price platformFee
      (w.store.royaltyAmounts sale.collection sale.price) ∧
    platformFee + ((w.store.royaltyAmounts sale.collection sale.price).map Prod.snd).sum +
      sellerProceeds sale.price platformFee
        (w.store.royaltyAmounts sale.collection sale.price) = sale.price ∧
    ∃ payments, w'.tokens.log = w.tokens.log ++ (payments ++ [sale.handover me]) ∧
      (∀ x ∈ payments, x.token = sale.currency ∧ x.src = sale.payer) ∧
      (payments.map Transfer.amount).sum = sale.price

end Sale

theorem orOverflow_ok {o : Option ℤ} {x : ℤ} : orOverflow o = .ok x ↔ o = some x := by
  cases o <;> simp [orOverflow]

/-- A non-negative value below the bound is an `i128`, and so are its ten thousandths. -/
theorem inI128_of_nonneg {x : ℤ} (h₀ : 0 ≤ x) (h₁ : x < 2 ^ 127) :
    InI128 x ∧ InI128 (x / bpsDenom) := by
  have hle : x / 10000 ≤ x := Int.ediv_le_self _ h₀
  have hnonneg : 0 ≤ x / 10000 := Int.ediv_nonneg h₀ (by omega)
  unfold InI128 bpsDenom
  omega

/-- The fee of a price that is not negative is its share, rounded down. -/
theorem computePlatformFee_ok {price bps fee : ℤ} (hprice : 0 ≤ price) (hbps : 0 ≤ bps) :
    computePlatformFee price bps = .ok fee ↔
      price * bps < 2 ^ 127 ∧ fee = price * bps / bpsDenom := by
  have hprod : 0 ≤ price * bps := mul_nonneg hprice hbps
  have htdiv : (price * bps).tdiv bpsDenom = price * bps / bpsDenom :=
    Int.tdiv_eq_ediv_of_nonneg hprod
  have hmax : max (price * bps / bpsDenom) 0 = price * bps / bpsDenom :=
    max_eq_left (Int.ediv_nonneg hprod (by decide))
  simp only [computePlatformFee, except_bind_ok, orOverflow_ok, checkedMul_eq_some,
    checkedDiv_eq_some]
  constructor
  · rintro ⟨_, ⟨hfits, rfl⟩, _, ⟨-, -, rfl⟩, hfee⟩
    cases hfee
    rw [htdiv, hmax]
    exact ⟨hfits.2, rfl⟩
  · rintro ⟨hlt, rfl⟩
    obtain ⟨hfits, hquot⟩ := inI128_of_nonneg hprod hlt
    refine ⟨_, ⟨hfits, rfl⟩, _, ⟨by decide, ?_, rfl⟩, ?_⟩
    · rwa [htdiv]
    · rw [htdiv, hmax]
      rfl

theorem Inv.platformFee_nonneg {s : Store} (h : Inv me s) {price fee : ℤ} (hprice : 0 ≤ price)
    (hfee : computePlatformFee price s.getPlatformFeeBps = .ok fee) : 0 ≤ fee := by
  obtain ⟨-, rfl⟩ := (computePlatformFee_ok hprice h.fee.1).mp hfee
  exact Int.ediv_nonneg (mul_nonneg hprice h.fee.1) (by decide)

theorem royaltyAmount_eq {price share : ℤ} (hprice : 0 ≤ price) (hshare : 0 ≤ share) :
    royaltyAmount price share = royaltyDue price share := by
  have hprod : 0 ≤ price * share := mul_nonneg hprice hshare
  unfold royaltyAmount royaltyDue
  split_ifs with hlt
  · obtain ⟨hfits, hquot⟩ := inI128_of_nonneg hprod hlt
    have htdiv : (price * share).tdiv bpsDenom = price * share / bpsDenom :=
      Int.tdiv_eq_ediv_of_nonneg hprod
    have hmul : checkedMul price share = some (price * share) :=
      checkedMul_eq_some.mpr ⟨hfits, rfl⟩
    have hdiv : checkedDiv (price * share) bpsDenom = some (price * share / bpsDenom) := by
      rw [checkedDiv_eq_some, htdiv]
      exact ⟨by decide, hquot, rfl⟩
    rw [hmul, Option.getD_some, hdiv, Option.getD_some]
  · have hmul : checkedMul price share = none := by
      unfold checkedMul toI128
      rw [if_neg fun hfits => hlt hfits.2]
    rw [hmul]
    rfl

theorem royaltyDue_nonneg {price share : ℤ} (hprice : 0 ≤ price) (hshare : 0 ≤ share) :
    0 ≤ royaltyDue price share := by
  unfold royaltyDue
  split_ifs
  · exact Int.ediv_nonneg (mul_nonneg hprice hshare) (by decide)
  · exact le_rfl

/-- Leaving out the entries that are not positive does not change a sum without negative entries. -/
theorem sum_filter_pos {xs : List (Address × ℤ)} (h : ∀ x ∈ xs, 0 ≤ x.2) (p : Address → Bool) :
    ((((xs.filter fun x => decide (x.2 > 0)).filter fun x => p x.1)).map Prod.snd).sum =
      ((xs.filter fun x => p x.1).map Prod.snd).sum := by
  induction xs with
  | nil => rfl
  | cons x xs ih =>
    rw [List.forall_mem_cons] at h
    have hrest := ih h.2
    by_cases hx : x.2 > 0
    · by_cases hp : p x.1 = true
      · simpa [hx, hp] using hrest
      · simpa [hx, hp] using hrest
    · have hzero : x.2 = 0 := by omega
      by_cases hp : p x.1 = true
      · simpa [hp, hzero] using hrest
      · simpa [hp] using hrest

theorem Accepting.share_nonneg {s : Store} (h : Accepting s) {collection : Address}
    {r : RoyaltyRecipient} (hr : r ∈ s.recipients collection) : 0 ≤ r.shareBps := by
  unfold Store.recipients at hr
  cases hconfig : s.royaltyConfig? collection with
  | none =>
    rw [hconfig] at hr
    cases hr
  | some config =>
    rw [hconfig] at hr
    exact ((h.royalties collection config hconfig).bounds r hr).1

theorem Inv.royaltiesDue_nonneg {s : Store} (h : Inv me s) {sale : Sale} (hprice : 0 ≤ sale.price)
    {x : Address × ℤ} (hx : x ∈ sale.royaltiesDue s) : 0 ≤ x.2 := by
  obtain ⟨r, hr, rfl⟩ := List.mem_map.mp hx
  exact royaltyDue_nonneg hprice (h.accepting.share_nonneg hr)

/-- A table whose total is not positive has no shares. -/
theorem RoyaltyConfig.Accepted.share_eq_zero {config : RoyaltyConfig} (h : config.Accepted)
    (hzero : config.totalBps ≤ 0) {r : RoyaltyRecipient} (hr : r ∈ config.recipients) :
    r.shareBps = 0 := by
  have hle : r.shareBps ≤ (config.recipients.map RoyaltyRecipient.shareBps).sum := by
    refine List.single_le_sum (fun x hx => ?_) _ (List.mem_map_of_mem hr)
    obtain ⟨r', hr', rfl⟩ := List.mem_map.mp hx
    exact (h.bounds r' hr').1
  have hnonneg := (h.bounds r hr).1
  have htotal := h.total_eq
  omega

/-- The royalties that the code pays are those due, less the empty ones. -/
theorem Inv.royaltyAmounts_eq {s : Store} (h : Inv me s) (sale : Sale) (hprice : 0 ≤ sale.price) :
    s.royaltyAmounts sale.collection sale.price =
      (sale.royaltiesDue s).filter fun x => decide (x.2 > 0) := by
  unfold Store.royaltyAmounts Sale.royaltiesDue Store.recipients Store.royaltyConfig?
  cases hinfo : s.collection? sale.collection with
  | none => rfl
  | some info =>
    have hconfig : s.royaltyConfig? sale.collection = some info.royaltyConfig := by
      unfold Store.royaltyConfig?
      rw [hinfo]
      rfl
    have haccepted := h.royalties _ _ hconfig
    simp only [Option.map_some, Option.getD_some, computeRoyaltyAmounts]
    split_ifs with hzero
    · symm
      rw [List.filter_eq_nil_iff]
      intro x hx
      obtain ⟨r, hr, rfl⟩ := List.mem_map.mp hx
      simp [haccepted.share_eq_zero hzero hr, royaltyDue]
    · congr 1
      refine List.map_congr_left fun r hr => ?_
      rw [royaltyAmount_eq hprice (haccepted.bounds r hr).1]

theorem Inv.sum_royaltyAmounts {s : Store} (h : Inv me s) (sale : Sale)
    (hprice : 0 ≤ sale.price) :
    ((s.royaltyAmounts sale.collection sale.price).map Prod.snd).sum = sale.totalDue s := by
  have hsum := sum_filter_pos (fun x hx => h.royaltiesDue_nonneg hprice hx) fun _ => true
  simp only [List.filter_true] at hsum
  rw [h.royaltyAmounts_eq sale hprice, hsum, Sale.totalDue]

/-! ## When a sale splits its price -/

theorem ifPos_amount_sum {T A : Type} (x : Transfer T A) :
    (x.ifPos.map Transfer.amount).sum = max x.amount 0 := by
  unfold Transfer.ifPos
  split_ifs with hx
  · simp
    omega
  · simp
    omega

theorem Sale.sum_payments (sale : Sale) (feeRecipient : Address) (fee : ℤ)
    (royaltyAmounts : List (Address × ℤ)) :
    ((sale.payments feeRecipient fee royaltyAmounts).map Transfer.amount).sum =
      max fee 0 + (royaltyAmounts.map Prod.snd).sum +
        max (sellerProceeds sale.price fee royaltyAmounts) 0 := by
  have hroyalties : (royaltyAmounts.map fun x =>
      (⟨sale.currency, sale.payer, x.1, x.2⟩ : TokenTransfer)).map Transfer.amount =
        royaltyAmounts.map Prod.snd := by
    rw [List.map_map]
    rfl
  unfold Sale.payments
  rw [List.map_append, List.map_append, List.sum_append, List.sum_append, ifPos_amount_sum,
    ifPos_amount_sum, hroyalties]

theorem Sale.of_mem_payments {sale : Sale} {feeRecipient : Address} {fee : ℤ}
    {royaltyAmounts : List (Address × ℤ)} {x : TokenTransfer}
    (hx : x ∈ sale.payments feeRecipient fee royaltyAmounts) :
    x.token = sale.currency ∧ x.src = sale.payer := by
  unfold Sale.payments at hx
  rw [List.mem_append, List.mem_append, Transfer.mem_ifPos, Transfer.mem_ifPos] at hx
  rcases hx with (⟨rfl, -⟩ | hx) | ⟨rfl, -⟩
  · exact ⟨rfl, rfl⟩
  · obtain ⟨y, -, rfl⟩ := List.mem_map.mp hx
    exact ⟨rfl, rfl⟩
  · exact ⟨rfl, rfl⟩

/-- A sale that goes through splits its price exactly when the fee and the royalties fit in it. -/
theorem Sold.conserves_iff {w w' : World Store} (h : Inv me w.store) {sale : Sale}
    {feeRecipient : Address} {fee : ℤ} (hsold : Sold me sale feeRecipient fee w w') :
    sale.Conserves me w w' ↔ sale.Fits w.store := by
  by_cases hprice : 0 < sale.price
  swap
  · refine iff_of_false ?_ fun hfits => hprice hfits.1
    rintro ⟨-, -, hpos, -⟩
    exact hprice hpos
  obtain ⟨hprod, hfee⟩ := (computePlatformFee_ok hprice.le h.fee.1).mp hsold.fee
  have hsum := h.sum_royaltyAmounts sale hprice.le
  have hfeeDue : fee = sale.feeDue w.store := hfee
  constructor
  · rintro ⟨fee', hfee', -, -, -, hproceeds, -⟩
    rw [hsold.fee] at hfee'
    cases hfee'
    unfold sellerProceeds at hproceeds
    refine ⟨hprice, ?_⟩
    omega
  · rintro ⟨-, hle⟩
    have hfee₀ : 0 ≤ fee := h.platformFee_nonneg hprice.le hsold.fee
    have hproceeds : 0 ≤ sellerProceeds sale.price fee
        (w.store.royaltyAmounts sale.collection sale.price) := by
      unfold sellerProceeds
      omega
    refine ⟨fee, hsold.fee, hprice, hfee₀, fun x hx => (royaltyAmounts_pos hx).le, hproceeds, ?_,
      sale.payments feeRecipient fee (w.store.royaltyAmounts sale.collection sale.price), ?_,
      fun x hx => Sale.of_mem_payments hx, ?_⟩
    · unfold sellerProceeds
      omega
    · rw [hsold.tokens, Ledger.log_moveAll]
    · rw [Sale.sum_payments, max_eq_left hfee₀, max_eq_left hproceeds]
      unfold sellerProceeds
      omega

/-- In every state reached from the first `initialize`, each kind of sale splits its price exactly
    when the price is positive and the fee and the royalties together do not exceed it. -/
theorem sales_conserve_iff {env₀ : Env me} {admin recipient : Address} {fee increment : ℤ}
    {extension : ℕ} {tokens : TokenLedger} {w₀ : World Store}
    (hinit : init env₀ admin fee recipient increment extension
      (World.deployed Store.empty tokens) = .ok () w₀)
    (steps : List (Step me Entry)) (honce : ∀ s ∈ steps, ¬ Initializes s) (env : Env me) :
    (∀ buyer id l w', (run step w₀ steps).store.listings.lookup id = some l →
      buyNft env buyer id (run step w₀ steps) = .ok () w' →
      ((l.sale buyer).Conserves me (run step w₀ steps) w' ↔
        (l.sale buyer).Fits (run step w₀ steps).store)) ∧
    (∀ buyer id a price w', (run step w₀ steps).store.auctions.lookup id = some a →
      dutchAuctionPrice env.timestamp a = .ok price →
      buyDutchAuction env buyer id (run step w₀ steps) = .ok () w' →
      ((a.sale buyer price).Conserves me (run step w₀ steps) w' ↔
        (a.sale buyer price).Fits (run step w₀ steps).store)) ∧
    (∀ id a w', (run step w₀ steps).store.auctions.lookup id = some a → a.currentBid ≠ 0 →
      settleEnglishAuction env id (run step w₀ steps) = .ok () w' →
      ((a.settlement me).Conserves me (run step w₀ steps) w' ↔
        (a.settlement me).Fits (run step w₀ steps).store)) := by
  have hinv : Inv me (run step w₀ steps).store := (Inv.start hinit).run honce
  generalize run step w₀ steps = w at hinv ⊢
  refine ⟨fun buyer id l w' hl h => ?_, fun buyer id a price w' ha hprice h => ?_,
    fun id a w' ha hbid h => ?_⟩
  · cases buyNft_done h with
    | buyNft l' feeRecipient fee w₁ s events hactive hsigned hl' hopen hsold hstats =>
      rw [hl] at hl'
      cases hl'
      exact hsold.conserves_iff (hinv.setListing hl _)
  · cases buyDutchAuction_done h with
    | buyDutchAuction a' price' feeRecipient fee w₁ s events hactive hsigned ha' hopen htype hprice'
        hne hsold hstats =>
      rw [ha] at ha'
      cases ha'
      rw [hprice] at hprice'
      cases hprice'
      exact hsold.conserves_iff (hinv.closeAuction ha _)
  · cases settleEnglishAuction_done h with
    | settleUnsold a' s hactive ha' hopen htime hzero hstats =>
      rw [ha] at ha'
      cases ha'
      exact absurd hzero hbid
    | settleSold a' feeRecipient fee w₁ s events hactive ha' hopen htime hne hsold hstats =>
      rw [ha] at ha'
      cases ha'
      exact hsold.conserves_iff (hinv.closeAuction ha _)

/-! ## Rates -/

theorem sum_royaltyDue_le {price : ℤ} (hprice : 0 ≤ price) {rs : List RoyaltyRecipient}
    (hrs : ∀ r ∈ rs, 0 ≤ r.shareBps) :
    (rs.map fun r => royaltyDue price r.shareBps).sum * bpsDenom ≤
      price * (rs.map RoyaltyRecipient.shareBps).sum := by
  induction rs with
  | nil => simp
  | cons r rs ih =>
    rw [List.forall_mem_cons] at hrs
    have hrest := ih hrs.2
    have hprod : 0 ≤ price * r.shareBps := mul_nonneg hprice hrs.1
    have hfloor : royaltyDue price r.shareBps * bpsDenom ≤ price * r.shareBps := by
      unfold royaltyDue
      split_ifs
      · exact Int.ediv_mul_le _ (by decide)
      · omega
    rw [List.map_cons, List.map_cons, List.sum_cons, List.sum_cons, add_mul, mul_add]
    omega

/-- A positive price holds the fee and the royalties when the rates are at most 10000 basis points
    in all. -/
theorem fits_of_rates {s : Store} (h : Inv me s) {sale : Sale} (hprice : 0 < sale.price)
    (hrates : s.getPlatformFeeBps +
      ((s.recipients sale.collection).map RoyaltyRecipient.shareBps).sum ≤ bpsDenom) :
    sale.Fits s := by
  refine ⟨hprice, ?_⟩
  have hshares : ∀ r ∈ s.recipients sale.collection, 0 ≤ r.shareBps :=
    fun r hr => h.accepting.share_nonneg hr
  have hroyalties := sum_royaltyDue_le hprice.le hshares
  have hfee : sale.feeDue s * bpsDenom ≤ sale.price * s.getPlatformFeeBps :=
    Int.ediv_mul_le _ (by decide)
  have htotal : sale.totalDue s =
      ((s.recipients sale.collection).map fun r => royaltyDue sale.price r.shareBps).sum := by
    unfold Sale.totalDue Sale.royaltiesDue
    rw [List.map_map]
    rfl
  have hmul : sale.price * (s.getPlatformFeeBps +
      ((s.recipients sale.collection).map RoyaltyRecipient.shareBps).sum) ≤
        sale.price * bpsDenom := mul_le_mul_of_nonneg_left hrates hprice.le
  rw [mul_add] at hmul
  rw [htotal]
  have hall : (sale.feeDue s +
      ((s.recipients sale.collection).map fun r => royaltyDue sale.price r.shareBps).sum) *
        bpsDenom ≤ sale.price * bpsDenom := by
    rw [add_mul]
    omega
  exact le_of_mul_le_mul_right hall (by decide)

/-! ## Two sales -/

/-- The seller `⟨2⟩` holds an item of the collection `⟨7⟩`, the buyer `⟨3⟩` 100 of the currency
    `⟨9⟩`. -/
def marketFunds : TokenLedger := .ofList [(⟨7⟩, ⟨2⟩, 1), (⟨9⟩, ⟨3⟩, 100)]

/-- The state after `initialize` by the admin `⟨1⟩` with a fee of 1000 basis points for `⟨8⟩`. -/
def opened : World Store :=
  (init (Env.signedBy ⟨0⟩ 1 1 []) ⟨1⟩ 1000 ⟨8⟩ 500 300).commit
    (World.deployed Store.empty marketFunds)

theorem init_opened :
    init (Env.signedBy ⟨0⟩ 1 1 []) ⟨1⟩ 1000 ⟨8⟩ 500 300 (World.deployed Store.empty marketFunds) =
      .ok () opened := rfl

/-- A metadata hash. -/
def someHash : Bytes := List.replicate 32 0

/-- The currency is whitelisted and the collection registered with `n` royalties of 1000 basis
    points. -/
def openedWith (n : ℕ) : List (Step ⟨0⟩ Entry) :=
  [.call (.signedBy ⟨0⟩ 1 1 [⟨1⟩]) (.setCurrency ⟨1⟩ ⟨9⟩ true),
    .call (.signedBy ⟨0⟩ 1 1 [⟨1⟩]) (.registerCollection ⟨1⟩ ⟨7⟩ "art" [] someHash .erc721
      (List.replicate n ⟨⟨5⟩, 1000⟩))]

/-- The seller lists the item for 10. -/
def listedWith (n : ℕ) : List (Step ⟨0⟩ Entry) :=
  openedWith n ++
    [.call (.signedBy ⟨0⟩ 1 1 [⟨2⟩]) (.listNft ⟨2⟩ ⟨7⟩ 1 1 10 ⟨9⟩ someHash)]

theorem listedWith_once (n : ℕ) : ∀ s ∈ listedWith n, ¬ Initializes s := by
  intro s hs
  simp only [listedWith, openedWith, List.cons_append, List.nil_append, List.mem_cons,
    List.not_mem_nil, or_false] at hs
  rcases hs with rfl | rfl | rfl <;> exact id

/-- The listing of that run. -/
def listing : Listing := ⟨1, ⟨2⟩, ⟨7⟩, 1, 1, 10, ⟨9⟩, .active, 1, someHash⟩

/-- The buyer buys it. -/
def soldWith (n : ℕ) : World Store :=
  (buyNft (Env.signedBy ⟨0⟩ 2 2 [⟨3⟩]) ⟨3⟩ 1).commit (run step opened (listedWith n))

/-- With one royalty the price is split: 1 to the platform, 1 to the artist and 8 to the seller. -/
theorem sales_conserve_iff_one :
    (listing.sale ⟨3⟩).Conserves ⟨0⟩ (run step opened (listedWith 1)) (soldWith 1) :=
  ((sales_conserve_iff init_opened (listedWith 1) (listedWith_once 1)
    (Env.signedBy ⟨0⟩ 2 2 [⟨3⟩])).1 ⟨3⟩ 1 listing (soldWith 1) rfl rfl).mpr (by decide)

/-- With ten royalties the fee and the royalties take 11, and the buyer pays 11 for the price of
    10. -/
theorem sale_not_conserved :
    (∀ s ∈ listedWith 10, ¬ Initializes s) ∧
      buyNft (Env.signedBy ⟨0⟩ 2 2 [⟨3⟩]) ⟨3⟩ 1 (run step opened (listedWith 10)) =
        .ok () (soldWith 10) ∧
      ¬ (listing.sale ⟨3⟩).Conserves ⟨0⟩ (run step opened (listedWith 10)) (soldWith 10) ∧
      (soldWith 10).tokens.balance ⟨9⟩ ⟨3⟩ = 100 - 11 := by
  refine ⟨listedWith_once 10, rfl, ?_, by decide⟩
  rintro ⟨fee, hfee, -, -, -, hproceeds, -⟩
  have hone : fee = 1 := Except.ok.inj (hfee.symm.trans rfl)
  subst hone
  exact absurd hproceeds (by decide)

end Trellis.Market
