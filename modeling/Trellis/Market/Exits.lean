import Trellis.Lib.Sweep
import Trellis.Market.Expiry

/-!
# Withdrawals

The owner of an active listing, of an active Dutch auction or of a pending offer can take back what
was escrowed for it, by one call that checks neither the pause nor a deadline.

Results:
* `withdraw_succeeds_iff`: who can withdraw a deposit, and when.
* `withdrawn`: what a withdrawal does.
* `withdraw_sweeps`: withdrawals from a solvent marketplace do not hinder each other.
* `everyone_can_withdraw`: as long as the settlements were covered, all owners can withdraw what is
  theirs, any of them and in any order, at any time.
-/

namespace Trellis.Market

open Exec

variable {me : Address}

/-! ## Deposits -/

/-- The key of what an owner can take back. -/
inductive DepositKey where
  | listing (id : ℕ)
  | auction (id : ℕ)
  | offer (id : ℕ)
  deriving DecidableEq, Repr

/-- What was escrowed and for whom, and whether the owner can still withdraw it. -/
structure Deposit where
  owner : Address
  token : Address
  amount : ℤ
  held : Bool
  deriving DecidableEq, Repr

def Listing.deposit (l : Listing) : Deposit :=
  ⟨l.seller, l.collection, l.amount, decide (l.status = .active)⟩

/-- The item of a Dutch auction. That of an English one goes through `settle_english_auction`
    only. -/
def Auction.deposit (a : Auction) : Deposit :=
  ⟨a.seller, a.collection, a.amount, decide (a.status = .active) && decide (a.auctionType = .dutch)⟩

def Offer.deposit (o : Offer) : Deposit :=
  ⟨o.offerer, o.currency, o.offerAmount, decide (o.status = .pending)⟩

/-- The deposit under a key. -/
def Store.deposit? (s : Store) : DepositKey → Option Deposit
  | .listing id => (s.listings.lookup id).map Listing.deposit
  | .auction id => (s.auctions.lookup id).map Auction.deposit
  | .offer id => (s.offers.lookup id).map Offer.deposit

/-- The deposit after its withdrawal. -/
def Deposit.withdrawn (d : Deposit) : Deposit := { d with held := false }

/-- The transfer that a withdrawal makes. -/
def Deposit.payout (me : Address) (d : Deposit) : TokenTransfer := ⟨d.token, me, d.owner, d.amount⟩

/-- The call that withdraws a deposit. -/
def withdraw (env : Env me) (caller : Address) : DepositKey → Invocation Store MarketError Unit
  | .listing id => cancelListing env caller id
  | .auction id => cancelDutchAuction env caller id
  | .offer id => cancelOffer env caller id

def DepositKey.entry (caller : Address) : DepositKey → Entry
  | .listing id => .cancelListing caller id
  | .auction id => .cancelDutchAuction caller id
  | .offer id => .cancelOffer caller id

theorem exec_withdraw (env : Env me) (caller : Address) (k : DepositKey) :
    exec env (k.entry caller) = (withdraw env caller k).commit := by
  cases k <;> rfl

theorem not_initializes_withdraw (env : Env me) (caller : Address) (k : DepositKey) :
    ¬ Initializes (.call env (k.entry caller)) := by
  cases k <;> exact id

theorem covered_withdraw (env : Env me) (caller : Address) (k : DepositKey) (w : World Store) :
    Covered w (.call env (k.entry caller)) := by
  cases k <;> trivial

/-! ## Who can withdraw -/

/-- A counter can always be lowered by one: at zero it stays. -/
theorem bumped_neg_one (count : ℕ) : (bumped count (-1)).isSome = true := by
  unfold bumped
  rw [if_neg (by decide)]
  split_ifs with hpos hle
  · rfl
  · exact absurd hpos.2 (by simpa using hle)
  · rfl

theorem bumped_zero (count : ℕ) : bumped count 0 = some count := rfl

theorem exists_bumpStats (s : Store) (collection : Address) {dl da : ℤ}
    (h : dl = -1 ∧ da = 0 ∨ dl = 0 ∧ da = -1) : ∃ s', s.bumpStats collection dl da = some s' := by
  rw [← Option.isSome_iff_exists]
  unfold Store.bumpStats
  cases s.collection? collection with
  | none => rfl
  | some info =>
    obtain ⟨listings, hl⟩ := Option.isSome_iff_exists.mp (bumped_neg_one info.activeListings)
    obtain ⟨auctions, ha⟩ := Option.isSome_iff_exists.mp (bumped_neg_one info.activeAuctions)
    rcases h with ⟨rfl, rfl⟩ | ⟨rfl, rfl⟩
    · simp [hl, bumped_zero]
    · simp [ha, bumped_zero]

/-- A deposit can be withdrawn by its owner, who has to sign, if the token makes the payment. -/
theorem withdraw_succeeds_iff {w : World Store} {k : DepositKey} {d : Deposit}
    (hd : w.store.deposit? k = some d) (hheld : d.held = true) (env : Env me) (caller : Address) :
    (withdraw env caller k).Succeeds w ↔
      env.signed caller = true ∧ d.owner = caller ∧ env.Allows w.tokens (d.payout me) := by
  cases k with
  | listing id =>
    obtain ⟨l, hl, rfl⟩ := Option.map_eq_some_iff.mp hd
    have hactive : l.status = .active := by simpa [Listing.deposit] using hheld
    have hstats : ∀ s : Store, ∃ s', s.bumpStats l.collection (-1) 0 = some s' :=
      fun s => exists_bumpStats s _ (.inl ⟨rfl, rfl⟩)
    simp [Succeeds, withdraw, cancelListing, hl, hactive, hstats, Listing.deposit, Deposit.payout]
  | auction id =>
    obtain ⟨a, ha, rfl⟩ := Option.map_eq_some_iff.mp hd
    have hopen : a.status = .active ∧ a.auctionType = .dutch := by
      simpa [Auction.deposit] using hheld
    have hstats : ∀ s : Store, ∃ s', s.bumpStats a.collection 0 (-1) = some s' :=
      fun s => exists_bumpStats s _ (.inr ⟨rfl, rfl⟩)
    simp [Succeeds, withdraw, cancelDutchAuction, ha, hopen, hstats, Auction.deposit,
      Deposit.payout]
  | offer id =>
    obtain ⟨o, ho, rfl⟩ := Option.map_eq_some_iff.mp hd
    have hpending : o.status = .pending := by simpa [Offer.deposit] using hheld
    simp [Succeeds, withdraw, cancelOffer, ho, hpending, Offer.deposit, Deposit.payout]

/-! ## What a withdrawal does -/

section

variable {s s' : Store} {id : ℕ}

theorem Store.deposit?_setListing {l : Listing} (hlistings : s'.listings = s.listings.insert id l)
    (hauctions : s'.auctions = s.auctions) (hoffers : s'.offers = s.offers) (k : DepositKey) :
    s'.deposit? k = if k = .listing id then some l.deposit else s.deposit? k := by
  cases k with
  | listing id' =>
    rw [Store.deposit?, Store.deposit?, hlistings, Table.lookup_set]
    simp only [DepositKey.listing.injEq]
    split_ifs <;> rfl
  | auction id' => rw [Store.deposit?, Store.deposit?, hauctions, if_neg (by simp)]
  | offer id' => rw [Store.deposit?, Store.deposit?, hoffers, if_neg (by simp)]

theorem Store.deposit?_setAuction {a : Auction} (hlistings : s'.listings = s.listings)
    (hauctions : s'.auctions = s.auctions.insert id a) (hoffers : s'.offers = s.offers)
    (k : DepositKey) :
    s'.deposit? k = if k = .auction id then some a.deposit else s.deposit? k := by
  cases k with
  | listing id' => rw [Store.deposit?, Store.deposit?, hlistings, if_neg (by simp)]
  | auction id' =>
    rw [Store.deposit?, Store.deposit?, hauctions, Table.lookup_set]
    simp only [DepositKey.auction.injEq]
    split_ifs <;> rfl
  | offer id' => rw [Store.deposit?, Store.deposit?, hoffers, if_neg (by simp)]

theorem Store.deposit?_setOffer {o : Offer} (hlistings : s'.listings = s.listings)
    (hauctions : s'.auctions = s.auctions) (hoffers : s'.offers = s.offers.insert id o)
    (k : DepositKey) :
    s'.deposit? k = if k = .offer id then some o.deposit else s.deposit? k := by
  cases k with
  | listing id' => rw [Store.deposit?, Store.deposit?, hlistings, if_neg (by simp)]
  | auction id' => rw [Store.deposit?, Store.deposit?, hauctions, if_neg (by simp)]
  | offer id' =>
    rw [Store.deposit?, Store.deposit?, hoffers, Table.lookup_set]
    simp only [DepositKey.offer.injEq]
    split_ifs <;> rfl

end

/-- A withdrawal pays the deposit to its owner and marks it, and touches no other. -/
theorem withdrawn {env : Env me} {caller : Address} {w w' : World Store} {k : DepositKey}
    {d : Deposit} {u : Unit} (hd : w.store.deposit? k = some d)
    (h : withdraw env caller k w = .ok u w') :
    w'.tokens = w.tokens.move (d.payout me) ∧
      ∀ k', w'.store.deposit? k' = if k' = k then some d.withdrawn else w.store.deposit? k' := by
  cases k with
  | listing id =>
    obtain ⟨l, hl, rfl⟩ := Option.map_eq_some_iff.mp hd
    cases cancelListing_done h with
    | cancelListing l' s hsigned hl' hopen hseller hstats =>
      obtain rfl := Option.some.inj (hl.symm.trans hl')
      obtain ⟨⟨collections, rfl⟩, -⟩ := Store.bumpStats_some hstats
      exact ⟨rfl,
        Store.deposit?_setListing (s := w.store) (l := { l with status := .cancelled }) rfl rfl
        rfl⟩
  | auction id =>
    obtain ⟨a, ha, rfl⟩ := Option.map_eq_some_iff.mp hd
    cases cancelDutchAuction_done h with
    | cancelDutchAuction a' s hsigned ha' hopen htype hseller hstats =>
      obtain rfl := Option.some.inj (ha.symm.trans ha')
      obtain ⟨⟨collections, rfl⟩, -⟩ := Store.bumpStats_some hstats
      exact ⟨rfl,
        Store.deposit?_setAuction (s := w.store) (a := { a with status := .cancelled }) rfl rfl
        rfl⟩
  | offer id =>
    obtain ⟨o, ho, rfl⟩ := Option.map_eq_some_iff.mp hd
    cases cancelOffer_done h with
    | cancelOffer o' hsigned ho' hopen hofferer =>
      obtain rfl := Option.some.inj (ho.symm.trans ho')
      exact ⟨rfl,
        Store.deposit?_setOffer (s := w.store) (o := { o with status := .cancelled }) rfl rfl
        rfl⟩

/-! ## Deposits are covered -/

/-- What is owed of a token is the sum of four parts, of which none is negative. -/
theorem Inv.owed_parts {s : Store} (h : Inv me s) (t : Address) :
    0 ≤ bidHolding.owed s.auctions t ∧ 0 ≤ offerHolding.owed s.offers t ∧
      0 ≤ listingHolding.owed s.listings t ∧ 0 ≤ auctionHolding.owed s.auctions t :=
  ⟨Holding.owed_nonneg (fun id a ha => (h.auctions id a ha).bid_nonneg) t,
    Holding.owed_nonneg (fun id o ho => (h.offers id o ho).le) t,
    Holding.owed_nonneg (fun _ _ _ => Int.natCast_nonneg _) t,
    Holding.owed_nonneg (fun _ _ _ => Int.natCast_nonneg _) t⟩

theorem Inv.deposit_le {s : Store} (h : Inv me s) {k : DepositKey} {d : Deposit}
    (hd : s.deposit? k = some d) (hheld : d.held = true) :
    0 ≤ d.amount ∧ d.amount ≤ s.owed d.token := by
  obtain ⟨hbids, hoffers, hlistings, hauctions⟩ := h.owed_parts d.token
  unfold Store.owed
  cases k with
  | listing id =>
    obtain ⟨l, hl, rfl⟩ := Option.map_eq_some_iff.mp hd
    have hworth : listingHolding.worth l l.collection = l.amount := by
      rw [Holding.worth_of_live (h := listingHolding) hheld]
      exact if_pos rfl
    have hle := Holding.worth_le_owed (h := listingHolding) (fun _ _ _ => Int.natCast_nonneg _) hl
      l.collection
    rw [hworth] at hle
    dsimp only [Listing.deposit] at hbids hoffers hauctions ⊢
    omega
  | auction id =>
    obtain ⟨a, ha, rfl⟩ := Option.map_eq_some_iff.mp hd
    have hopen : a.isOpen = true := by
      apply isOpen_of_active
      simp only [Auction.deposit, Bool.and_eq_true, decide_eq_true_eq] at hheld
      exact hheld.1
    have hworth : auctionHolding.worth a a.collection = a.amount := by
      rw [Holding.worth_of_live (h := auctionHolding) hopen]
      exact if_pos rfl
    have hle := Holding.worth_le_owed (h := auctionHolding) (fun _ _ _ => Int.natCast_nonneg _) ha
      a.collection
    rw [hworth] at hle
    dsimp only [Auction.deposit] at hbids hoffers hlistings ⊢
    omega
  | offer id =>
    obtain ⟨o, ho, rfl⟩ := Option.map_eq_some_iff.mp hd
    have hpos := h.offers id o ho
    have hworth : offerHolding.worth o o.currency = o.offerAmount := by
      rw [Holding.worth_of_live (h := offerHolding) hheld]
      exact if_pos rfl
    have hle := Holding.worth_le_owed (h := offerHolding) (fun id o ho => (h.offers id o ho).le) ho
      o.currency
    rw [hworth] at hle
    dsimp only [Offer.deposit] at hbids hlistings hauctions ⊢
    omega

/-! ## Runs -/

/-- The state is reached from the first `initialize`, with all settlements covered. -/
structure Sound (me : Address) (w : World Store) : Prop where
  inv : Inv me w.store
  solvent : (marketCustody me).Solvent w

theorem Sound.step {w : World Store} (h : Sound me w) {s : Step me Entry} (hs : ¬ Initializes s)
    (hcovered : Covered w s) : Sound me (step s w) :=
  ⟨h.inv.step hs, (solvent_step_iff h.inv hs h.solvent).mpr hcovered⟩

theorem sound_run {env : Env me} {admin recipient : Address} {fee increment : ℤ} {extension : ℕ}
    {tokens : TokenLedger} (hfunds : ∀ t a, 0 ≤ tokens.balance t a) {w : World Store}
    (hinit : init env admin fee recipient increment extension (World.deployed Store.empty tokens) =
      .ok () w) {steps : List (Step me Entry)} (honce : ∀ s ∈ steps, ¬ Initializes s)
    (hcovered : ∀ x ∈ trace step w steps, Covered x.1 x.2) :
    Sound me (run step w steps) :=
  run_induct_of_trace (P := Sound me) (Q := fun w s => ¬ Initializes s ∧ Covered w s)
    (fun _ _ h hs => h.step hs.1 hs.2) ⟨Inv.start hinit, solvent_init hfunds hinit⟩
    fun x hx => ⟨honce x.2 (mem_of_mem_trace hx), hcovered x hx⟩

/-- The payment of a deposit that is held is made by a sound marketplace. -/
theorem Sound.allows {w : World Store} (h : Sound me w) {k : DepositKey} {d : Deposit}
    (hd : w.store.deposit? k = some d) (hheld : d.held = true) {env : Env me}
    (hadmits : ∀ l x, env.admits l x = true) : env.Allows w.tokens (d.payout me) := by
  obtain ⟨hnonneg, hle⟩ := h.inv.deposit_le hd hheld
  exact ⟨hnonneg, .inl rfl, hle.trans (h.solvent d.token), hadmits _ _⟩

/-- The withdrawals of deposits by their owners, who sign, are a sweep of a sound marketplace. -/
theorem withdraw_sweeps (env : Address → Env me) (hadmits : ∀ a l x, (env a).admits l x = true) :
    Sweeps step (Sound me) (fun w => w.store.deposit?)
      (fun d => d.held = true ∧ (env d.owner).signed d.owner = true)
      (fun k d => .call (env d.owner) (k.entry d.owner)) Deposit.withdrawn World.tokens
      (fun _ d l => l.move (d.payout me)) := by
  have hone : ∀ {w : World Store} {k : DepositKey} {d : Deposit}, Sound me w →
      w.store.deposit? k = some d → d.held = true ∧ (env d.owner).signed d.owner = true →
      (step (.call (env d.owner) (k.entry d.owner)) w).tokens = w.tokens.move (d.payout me) ∧
        ∀ k', (step (.call (env d.owner) (k.entry d.owner)) w).store.deposit? k' =
          if k' = k then some d.withdrawn else w.store.deposit? k' := by
    intro w k d h hd hdue
    have hsucceeds : (withdraw (env d.owner) d.owner k).Succeeds w :=
      (withdraw_succeeds_iff hd hdue.1 _ _).mpr ⟨hdue.2, rfl, h.allows hd hdue.1 (hadmits _)⟩
    show (exec (env d.owner) (k.entry d.owner) w).tokens = _ ∧
      ∀ k', (exec (env d.owner) (k.entry d.owner) w).store.deposit? k' = _
    rw [exec_withdraw]
    exact commit_of_succeeds (fun _ _ => withdrawn hd) hsucceeds
  refine ⟨fun h hd hdue => ?_, fun h hd hdue => ?_, fun h hd hdue k' hk' => ?_, fun h hd hdue => ?_⟩
  · exact h.step (not_initializes_withdraw _ _ _) (covered_withdraw _ _ _ _)
  · rw [(hone h hd hdue).2, if_pos rfl]
  · rw [(hone h hd hdue).2, if_neg hk']
  · exact (hone h hd hdue).1

/-- From the first `initialize` on, without another one, as long as every settlement of a bid was
    covered: whether the marketplace is paused and whatever the time is,
    * an active listing, an active Dutch auction and a pending offer can be withdrawn by its owner
      and by nobody else;
    * any of the owners, in any order, get back all that is theirs, no record of another one is
      touched, and what is still owed stays covered. -/
theorem everyone_can_withdraw {env₀ : Env me} {admin recipient : Address} {fee increment : ℤ}
    {extension : ℕ} {tokens : TokenLedger} (hfunds : ∀ t a, 0 ≤ tokens.balance t a)
    {w₀ : World Store}
    (hinit : init env₀ admin fee recipient increment extension (World.deployed Store.empty tokens) =
      .ok () w₀)
    (steps : List (Step me Entry)) (honce : ∀ s ∈ steps, ¬ Initializes s)
    (hcovered : ∀ x ∈ trace step w₀ steps, Covered x.1 x.2) {w : World Store}
    (hw : run step w₀ steps = w) (env : Address → Env me)
    (hadmits : ∀ a l x, (env a).admits l x = true) :
    (∀ k d caller, w.store.deposit? k = some d → d.held = true →
      ((withdraw (env caller) caller k).Succeeds w ↔
        d.owner = caller ∧ (env caller).signed caller = true)) ∧
    ∀ deposits : List (DepositKey × Deposit), (deposits.map Prod.fst).Nodup →
      (∀ x ∈ deposits, w.store.deposit? x.1 = some x.2 ∧ x.2.held = true ∧
        (env x.2.owner).signed x.2.owner = true) →
      let w' := run step w (deposits.map fun x => .call (env x.2.owner) (x.1.entry x.2.owner))
      w'.tokens = w.tokens.moveAll (deposits.map fun x => x.2.payout me) ∧
        (∀ x ∈ deposits, w'.store.deposit? x.1 = some x.2.withdrawn) ∧
        (∀ k ∉ deposits.map Prod.fst, w'.store.deposit? k = w.store.deposit? k) ∧
        ∀ t, w'.store.owed t ≤ w'.tokens.balance t me := by
  have hsound : Sound me w := hw ▸ sound_run hfunds hinit honce hcovered
  refine ⟨fun k d caller hd hheld => ?_, fun deposits hnodup hdue => ?_⟩
  · rw [withdraw_succeeds_iff hd hheld]
    constructor
    · rintro ⟨hsigned, howner, -⟩
      exact ⟨howner, hsigned⟩
    · rintro ⟨rfl, hsigned⟩
      exact ⟨hsigned, rfl, hsound.allows hd hheld (hadmits _)⟩
  · obtain ⟨hkept, htokens, hwithdrawn, hothers⟩ :=
      (withdraw_sweeps env hadmits).run hnodup hsound hdue
    refine ⟨?_, hwithdrawn, hothers, hkept.solvent⟩
    rw [Ledger.moveAll, List.foldl_map]
    exact htokens

/-- The offerer takes the 50 back after the expiry of the offer. -/
theorem everyone_can_withdraw_bidden :
    (run step (run step opened (biddenWith 1))
      [.call (.signedBy ⟨0⟩ 5 2000 [⟨3⟩]) (.cancelOffer ⟨3⟩ 1)]).tokens =
        (run step opened (biddenWith 1)).tokens.moveAll [⟨⟨9⟩, ⟨0⟩, ⟨3⟩, 50⟩] := by
  have honce : ∀ s ∈ biddenWith 1, ¬ Initializes s :=
    fun s hs => settledWith_once 1 s (List.mem_append_left _ hs)
  have hcovered : ∀ x ∈ trace step opened (biddenWith 1), Covered x.1 x.2 := by
    intro x hx
    fin_cases hx <;> trivial
  exact ((everyone_can_withdraw marketFunds_nonneg init_opened (biddenWith 1) honce hcovered rfl
    (fun a => Env.signedBy ⟨0⟩ 5 2000 [a]) fun _ _ _ => rfl).2
    [(.offer 1, biddenOffer.deposit)] (List.nodup_singleton _) fun x hx => by
      obtain rfl := List.mem_singleton.mp hx
      exact ⟨rfl, rfl, rfl⟩).1

end Trellis.Market
