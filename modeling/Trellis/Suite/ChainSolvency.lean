import Trellis.Aid.Escrow
import Trellis.Market.Solvency
import Trellis.Payments.Solvency
import Trellis.Suite.Admin
import Trellis.Suite.ChainLedger

/-!
# Solvency of all contracts of a chain

From deployment on, with every payments contract and marketplace initialised at most once: calls of
one contract, and transfers made by others, cannot make another contract insolvent, and before it is
initialised a contract owes nothing.

Results:
* `Kind.ready_call`, `Kind.solvent_call_iff`: what a call does to the contract that is called.
* `Kind.ready_outside`, `Kind.solvent_outside`: what it can do to the others.
* `chain_solvent_iff`: all contracts are solvent in every state of a run of the chain exactly when
  every batch payout and every settlement of a bid is covered.
-/

namespace Trellis

variable {me : Address}

/-- A stored admin may change but is not lost. -/
theorem isSome_or {a b : Option Address} (h : b.isSome = true) : (a.or b).isSome = true := by
  cases a with
  | none => exact h
  | some x => rfl

/-! ## Before and after the first `initialize` -/

namespace Payments

/-- The contract has not been initialised. -/
structure Fresh (w : World Store) : Prop where
  admin : w.shared.admin = none
  escrows : w.shared.escrows = ∅
  store : w.store = Store.empty

/-- The contract has been initialised, once. -/
def Opened (w : World Store) : Prop := w.shared.admin.isSome = true ∧ ∃ token, Inv token w

/-- What holds in every state of a run that initialises the contract at most once. -/
def Ready (w : World Store) : Prop := Fresh w ∨ Opened w

/-- A call of `initialize`, which does not refuse a second time. -/
def Entry.IsInit : Entry → Prop
  | .init .. => True
  | _ => False

/-- The contract holds what it owes of the configured token. -/
def Solvent (me : Address) (w : World Store) : Prop :=
  ∀ t, w.store.token = some t →
    w.store.getTotalDeposits + activeEscrows w.shared.escrows ≤ w.tokens.balance t me

/-- Only `initialize` gets through on a fresh contract. -/
theorem Fresh.done {env : Env me} {c : Entry} {w w' : World Store} (h : Fresh w)
    (hdone : Done env w c w') : Opened w' ∧ w'.store.getTotalDeposits = 0 ∧
      w'.shared.escrows = ∅ ∧ w'.tokens = w.tokens := by
  have htoken : ∀ {t}, w.store.token ≠ some t := by
    intro t ht
    rw [h.store] at ht
    cases ht
  have hadmin : ∀ {a}, w.shared.admin ≠ some a := by
    intro a ha
    rw [h.admin] at ha
    cases ha
  cases hdone with
  | @init admin token rate recipient events h₀ h₁ =>
    have hdeposited : w.store.deposited = ∅ := by rw [h.store]; rfl
    refine ⟨⟨rfl, token, rfl, ?_, ?_, (by decide : InI128 0), ?_⟩, rfl, h.escrows, rfl⟩
    · show w.store.deposited.Forall _
      rw [hdeposited]
      exact Table.Forall.empty _
    · show (0 : ℤ) = w.store.sumDeposited
      rw [Store.sumDeposited, hdeposited]
      rfl
    · show w.shared.escrows.Forall _
      rw [h.escrows]
      exact Table.Forall.empty _
  | setFeeRate events ha => exact absurd ha hadmin
  | deposit events token hpos ht => exact absurd ht htoken
  | withdraw events token feeRecipient fee net ht => exact absurd ht htoken
  | withdrawAmount events token feeRecipient fee net ht => exact absurd ht htoken
  | createEscrowEntry events token ht => exact absurd ht htoken
  | releaseEscrowEntry events token r ht => exact absurd ht htoken
  | refundEscrowEntry events token r ht => exact absurd ht htoken
  | batchPayout events token ht => exact absurd ht htoken

theorem Fresh.token_ne {w : World Store} (h : Fresh w) {t : Address} : w.store.token ≠ some t := by
  rw [h.store]
  exact fun ht => by cases ht

theorem Opened.not_init {env : Env me} {c : Entry} {w : World Store} (h : Opened w)
    (honce : c.IsInit → w.shared.admin = none) : ¬ Initializes (.call env c) := by
  intro hinit
  have hnone : w.shared.admin = none := by
    cases c with
    | init => exact honce trivial
    | _ => exact absurd hinit id
  have hadmin := h.1
  rw [hnone] at hadmin
  cases hadmin

theorem Ready.exec {env : Env me} {c : Entry} {w : World Store} (h : Ready w)
    (honce : c.IsInit → w.shared.admin = none) : Ready (exec env c w) := by
  rcases h with hfresh | hopened
  · rcases exec_cases env c w with hsame | hdone
    · rw [hsame]
      exact .inl hfresh
    · exact .inr (hfresh.done hdone).1
  · have hnot : ¬ Initializes (.call env c) := hopened.not_init honce
    obtain ⟨hadmin, token, hinv⟩ := hopened
    refine .inr ⟨?_, token, hinv.step hnot⟩
    rw [exec_admin]
    exact isSome_or hadmin

theorem Ready.congr {w w' : World Store} (h : Ready w) (hstore : w'.store = w.store)
    (hshared : w'.shared = w.shared) : Ready w' := by
  refine h.imp (fun hfresh => ?_) fun ⟨hadmin, token, hinv⟩ => ?_
  · exact ⟨hshared ▸ hfresh.admin, hshared ▸ hfresh.escrows, hstore.trans hfresh.store⟩
  · exact ⟨hshared ▸ hadmin, token, hinv.congr hstore hshared⟩

theorem solvent_exec_iff {env : Env me} {c : Entry} {w : World Store} (h : Ready w)
    (honce : c.IsInit → w.shared.admin = none) (hfunds : ∀ t, 0 ≤ w.tokens.balance t me)
    (hsol : Solvent me w) :
    Solvent me (exec env c w) ↔
      ∀ t, w.store.token = some t → Covered t w (.call env c) := by
  rcases h with hfresh | hopened
  · refine iff_of_true ?_ fun t ht => absurd ht hfresh.token_ne
    rcases exec_cases env c w with hsame | hdone
    · rwa [hsame]
    · obtain ⟨-, htotal, hescrows, htokens⟩ := hfresh.done hdone
      intro t ht
      rw [htotal, hescrows, htokens]
      exact hfunds t
  · have hnot : ¬ Initializes (.call env c) := hopened.not_init honce
    obtain ⟨-, token, hinv⟩ := hopened
    have hkept : (exec env c w).store.token = some token := (hinv.step hnot).token_eq
    have hiff := solvent_step_iff hinv hnot fun _ => hsol token hinv.token_eq
    constructor
    · intro hafter t ht
      obtain rfl : token = t := Option.some.inj (hinv.token_eq.symm.trans ht)
      exact hiff.mp fun _ => hafter token hkept
    · intro hcovered t ht
      obtain rfl : token = t := Option.some.inj (hkept.symm.trans ht)
      exact hiff.mpr (hcovered token hinv.token_eq) ()

end Payments

namespace Market

/-- The contract has not been initialised. -/
structure Fresh (w : World Store) : Prop where
  admin : w.shared.admin = none
  store : w.store = Store.empty

/-- The contract has been initialised, once. -/
def Opened (me : Address) (w : World Store) : Prop :=
  w.shared.admin.isSome = true ∧ Inv me w.store

/-- What holds in every state of a run that initialises the contract at most once. -/
def Ready (me : Address) (w : World Store) : Prop := Fresh w ∨ Opened me w

/-- A call of `initialize`, which does not refuse a second time. -/
def Entry.IsInit : Entry → Prop
  | .init .. => True
  | _ => False

theorem Fresh.listed {env : Env me} {seller : Address} {item : BulkListingItem} {w w' : World Store}
    (h : Fresh w) (hitem : ListedOrSkipped env seller item w w') : w' = w := by
  have hnot : w.store.acceptsListing item = false := by
    rw [h.store]
    simp [Store.acceptsListing, Store.isCurrencyWhitelisted, Store.empty]
  unfold ListedOrSkipped at hitem
  rwa [hnot] at hitem

theorem Fresh.auctioned {env : Env me} {seller : Address} {item : BulkAuctionItem}
    {w w' : World Store} (h : Fresh w) (hitem : AuctionedOrSkipped env seller item w w') :
    w' = w := by
  have hnot : w.store.acceptsAuction item = false := by
    rw [h.store]
    simp [Store.acceptsAuction, Store.collection?, Store.empty]
  unfold AuctionedOrSkipped at hitem
  rwa [hnot] at hitem

/-- Only `initialize` changes the records or the balances of a fresh contract, and it owes nothing
    then. -/
theorem Fresh.done {env : Env me} {c : Entry} {w w' : World Store} (h : Fresh w)
    (hdone : Done env w c w') :
    (Fresh w' ∨ Opened me w') ∧ (∀ t, w'.store.owed t = 0) ∧ w'.tokens = w.tokens := by
  have hadmin : ∀ {a}, w.shared.admin ≠ some a := by
    intro a ha
    rw [h.admin] at ha
    cases ha
  have hcurrency : ∀ {t}, w.store.isCurrencyWhitelisted t ≠ true := by
    intro t ht
    rw [h.store] at ht
    cases ht
  have hlisting : ∀ {id l}, w.store.listings.lookup id ≠ some l := by
    intro id l hl
    rw [h.store] at hl
    cases hl
  have hauction : ∀ {id a}, w.store.auctions.lookup id ≠ some a := by
    intro id a ha
    rw [h.store] at ha
    cases ha
  have hoffer : ∀ {id o}, w.store.offers.lookup id ≠ some o := by
    intro id o ho
    rw [h.store] at ho
    cases ho
  have hsame : (Fresh w ∨ Opened me w) ∧ (∀ t, w.store.owed t = 0) ∧ w.tokens = w.tokens := by
    refine ⟨.inl h, fun t => ?_, rfl⟩
    rw [h.store]
    rfl
  cases hdone with
  | @init admin fee recipient increment extension events hfee hincrement =>
    rw [h.store]
    refine ⟨.inr ⟨rfl, Table.Forall.empty _, Table.Forall.empty _, Table.Forall.empty _,
      Table.Forall.empty _, Table.Forall.empty _, hfee, fun a config hconfig => ?_⟩, fun t => rfl,
      rfl⟩
    cases hconfig
  | setPlatformFee events ha => exact absurd ha hadmin
  | setFeeRecipient events ha => exact absurd ha hadmin
  | setBidIncrement events ha => exact absurd ha hadmin
  | setAutoExtension events ha => exact absurd ha hadmin
  | setCurrency events ha => exact absurd ha hadmin
  | setOracle events ha => exact absurd ha hadmin
  | registerCollection events total ha => exact absurd ha hadmin
  | setCollectionRoyalties info total hsigned hinfo =>
    rw [h.store] at hinfo
    cases hinfo
  | listNft w₁ events hactive hsigned hprice ht => exact absurd ht hcurrency
  | buyNft l feeRecipient fee w₁ s events hactive hsigned hl => exact absurd hl hlisting
  | cancelListing l s hsigned hl => exact absurd hl hlisting
  | createEnglishAuction w₁ e events hactive hsigned hstart ht => exact absurd ht hcurrency
  | placeBid a least newEnd events hactive hsigned hbid ha => exact absurd ha hauction
  | settleUnsold a s hactive ha => exact absurd ha hauction
  | settleSold a feeRecipient fee w₁ s events hactive ha => exact absurd ha hauction
  | createDutchAuction w₁ e events hactive hsigned hstart hfloor ht => exact absurd ht hcurrency
  | buyDutchAuction a price feeRecipient fee w₁ s events hactive hsigned ha =>
    exact absurd ha hauction
  | cancelDutchAuction a s hsigned ha => exact absurd ha hauction
  | makeOffer expiresAt events hactive hsigned hamount ht => exact absurd ht hcurrency
  | acceptOffer o fee feeRecipient events hactive hsigned ho => exact absurd ho hoffer
  | cancelOffer o hsigned ho => exact absurd ho hoffer
  | bulkList w' hactive hsigned hlength heach =>
    obtain rfl : w' = w := heach.keeps (P := fun w' => w' = w)
      (fun item w₁ w₂ heq hitem => by subst heq; exact h.listed hitem) rfl
    exact hsame
  | bulkCreateAuctions w' hactive hsigned hlength heach =>
    obtain rfl : w' = w := heach.keeps (P := fun w' => w' = w)
      (fun item w₁ w₂ heq hitem => by subst heq; exact h.auctioned hitem) rfl
    exact hsame

theorem Fresh.solvent {env : Env me} {c : Entry} {w w' : World Store} (h : Fresh w)
    (hfunds : ∀ t, 0 ≤ w.tokens.balance t me) (hdone : Done env w c w') :
    (marketCustody me).Solvent w' := by
  obtain ⟨-, howed, htokens⟩ := h.done hdone
  intro t
  show w'.store.owed t ≤ w'.tokens.balance t me
  rw [howed, htokens]
  exact hfunds t

/-- An opened contract is not initialised again. -/
theorem Opened.not_init {env : Env me} {c : Entry} {w : World Store} (h : Opened me w)
    (honce : c.IsInit → w.shared.admin = none) : ¬ Initializes (.call env c) := by
  intro hinit
  have hnone : w.shared.admin = none := by
    cases c with
    | init => exact honce trivial
    | _ => exact absurd hinit id
  have hadmin := h.1
  rw [hnone] at hadmin
  cases hadmin

theorem Ready.exec {env : Env me} {c : Entry} {w : World Store} (h : Ready me w)
    (honce : c.IsInit → w.shared.admin = none) : Ready me (exec env c w) := by
  rcases h with hfresh | hopened
  · rcases exec_cases env c w with hsame | hdone
    · rw [hsame]
      exact .inl hfresh
    · exact (hfresh.done hdone).1
  · refine .inr ⟨?_, hopened.2.step (hopened.not_init honce)⟩
    rw [exec_admin]
    exact isSome_or hopened.1

theorem Ready.congr {w w' : World Store} (h : Ready me w) (hstore : w'.store = w.store)
    (hshared : w'.shared = w.shared) : Ready me w' := by
  refine h.imp (fun hfresh => ?_) fun hopened => ?_
  · exact ⟨hshared ▸ hfresh.admin, hstore.trans hfresh.store⟩
  · exact ⟨hshared ▸ hopened.1, hstore ▸ hopened.2⟩

/-- A call keeps the contract solvent exactly when it is covered. -/
theorem solvent_exec_iff {env : Env me} {c : Entry} {w : World Store} (h : Ready me w)
    (honce : c.IsInit → w.shared.admin = none) (hfunds : ∀ t, 0 ≤ w.tokens.balance t me)
    (hsol : (marketCustody me).Solvent w) :
    (marketCustody me).Solvent (exec env c w) ↔ Covered w (.call env c) := by
  rcases h with hfresh | hopened
  · have hcovered : Covered w (.call env c) := by
      unfold Covered
      split
      · intro a ha
        rw [hfresh.store] at ha
        cases ha
      · trivial
    refine iff_of_true ?_ hcovered
    rcases exec_cases env c w with hsame | hdone
    · rwa [hsame]
    · exact hfresh.solvent hfunds hdone
  · exact solvent_step_iff (s := .call env c) hopened.2 (hopened.not_init honce) hsol

end Market

/-! ## The three kinds of contracts -/

namespace Kind

/-- A call of `initialize` of a contract that does not refuse a second one. -/
def IsInit : (k : Kind) → k.Entry → Prop
  | aid, _ => False
  | payments, c => Payments.Entry.IsInit c
  | market, c => Market.Entry.IsInit c

/-- The contract holds of every token what it owes. -/
def Solvent (me : Address) : (k : Kind) → World k.Store → Prop
  | aid, w => ∀ t, Aid.aidHolding.owed w.store.aids t ≤ w.tokens.balance t me
  | payments, w => Payments.Solvent me w
  | market, w => ∀ t, w.store.owed t ≤ w.tokens.balance t me

/-- The call takes from the contract no more than is its to give: a batch payout that goes through
    pays others at most the surplus, and a settlement of a bid at most the bid and the surplus. -/
def Covered {me : Address} (env : Env me) : (k : Kind) → k.Entry → World k.Store → Prop
  | aid, _, _ => True
  | payments, c, w => ∀ t, w.store.token = some t → Payments.Covered t w (.call env c)
  | market, c, w => Market.Covered w (.call env c)

/-- What holds of the contract in every state of a run that initialises it at most once. -/
def Ready (me : Address) : (k : Kind) → World k.Store → Prop
  | aid, w => Aid.Inv me w
  | payments, w => Payments.Ready w
  | market, w => Market.Ready me w

theorem ready_deployed (k : Kind) (tokens : TokenLedger) :
    k.Ready me (World.deployed k.emptyStore tokens) := by
  cases k with
  | aid => exact Aid.Inv.deployed tokens
  | payments => exact .inl ⟨rfl, rfl, rfl⟩
  | market => exact .inl ⟨rfl, rfl⟩

theorem solvent_deployed (k : Kind) {tokens : TokenLedger}
    (hfunds : ∀ t a, 0 ≤ tokens.balance t a) :
    k.Solvent me (World.deployed k.emptyStore tokens) := by
  cases k with
  | aid => exact fun t => hfunds t me
  | payments => exact fun t ht => by cases ht
  | market => exact fun t => hfunds t me

theorem ready_call (k : Kind) {env : Env me} {c : k.Entry} {w : World k.Store}
    (h : k.Ready me w) (honce : k.IsInit c → w.shared.admin = none) :
    k.Ready me (k.exec env c w) := by
  cases k with
  | aid => exact Aid.Inv.move h (Aid.exec_move env c w)
  | payments => exact Payments.Ready.exec h honce
  | market => exact Market.Ready.exec h honce

theorem solvent_call_iff (k : Kind) {env : Env me} {c : k.Entry} {w : World k.Store}
    (h : k.Ready me w) (honce : k.IsInit c → w.shared.admin = none)
    (hfunds : ∀ t, 0 ≤ w.tokens.balance t me) (hsol : k.Solvent me w) :
    k.Solvent me (k.exec env c w) ↔ k.Covered env c w := by
  cases k with
  | aid =>
    refine iff_of_true (fun t => ?_) trivial
    have hsurplus := Aid.surplus_move h (Aid.exec_move env c w) t
    have hbefore := hsol t
    simp only [Custody.surplus, Aid.aidCustody] at hsurplus
    show Aid.aidHolding.owed (Aid.exec env c w).store.aids t ≤
      (Aid.exec env c w).tokens.balance t me
    omega
  | payments => exact Payments.solvent_exec_iff h honce hfunds hsol
  | market => exact Market.solvent_exec_iff h honce hfunds hsol

/-! ## Transfers made by others -/

theorem ready_outside (k : Kind) {w : World k.Store} (h : k.Ready me w) (env : Env me)
    (x : TokenTransfer) : k.Ready me (outsideTransfer env x w) := by
  have hstore := store_outsideTransfer env x w
  have hshared := shared_outsideTransfer env x w
  cases k with
  | aid => exact Aid.Inv.congr h hstore
  | payments => exact Payments.Ready.congr h hstore hshared
  | market => exact Market.Ready.congr h hstore hshared

theorem solvent_outside (k : Kind) {w : World k.Store} (h : k.Solvent me w) (env : Env me)
    (x : TokenTransfer) : k.Solvent me (outsideTransfer env x w) := by
  have hstore := store_outsideTransfer env x w
  have hshared := shared_outsideTransfer env x w
  have hrises : ∀ t, w.tokens.balance t me ≤ (outsideTransfer env x w).tokens.balance t me := by
    intro t
    have hbalance := balance_outsideTransfer (C := k.Entry) env x w t
    have hreceived := Step.received_nonneg t w (.outside env x : Step me k.Entry)
    omega
  cases k with
  | aid =>
    intro t
    rw [hstore]
    exact (h t).trans (hrises t)
  | payments =>
    intro t ht
    rw [hstore] at ht ⊢
    rw [hshared]
    exact (h t ht).trans (hrises t)
  | market =>
    intro t
    rw [hstore]
    exact (h t).trans (hrises t)

end Kind

namespace Deployment

variable {I : Type} [DecidableEq I] {d : Deployment I}

/-- An `initialize` that is not refused is called only while the contract has no admin. -/
def InitOnce (g : d.Chain) : d.ChainStep → Prop
  | .call i _ c => (d.kind i).IsInit c → (d.world i g).shared.admin = none
  | .outside _ _ => True

/-- A call is covered by what the contract holds. -/
def Covered (g : d.Chain) : d.ChainStep → Prop
  | .call i env c => (d.kind i).Covered (env.at i) c (d.world i g)
  | .outside _ _ => True

/-- All contracts hold what they owe. -/
def Solvent (g : d.Chain) : Prop := ∀ i, (d.kind i).Solvent (d.addr i) (d.world i g)

/-- The invariant of the chain: no balance is negative, and every contract is in a state that it
    reaches alone. -/
structure Ready (g : d.Chain) : Prop where
  funds : ∀ t a, 0 ≤ g.common.balance t a
  contracts : ∀ i, (d.kind i).Ready (d.addr i) (d.world i g)

/-- To a contract that is not called, a step is a list of transfers made by others. -/
theorem keeps_other {s : d.ChainStep} {g : d.Chain} {j : I} (hother : ∀ env c, s ≠ .call j env c)
    {P : World (d.kind j).Store → Prop}
    (hP : ∀ w (env : Env (d.addr j)) x, P w → P (outsideTransfer env x w))
    (h : P (d.world j g)) : P (d.world j (d.step s g)) := by
  refine (mirrors j).keeps (N := fun x => ∃ env y, x = .outside env y) ?_ ?_ h
  · rintro w x hw ⟨env, y, rfl⟩
    exact hP w env y hw
  · intro x hx
    cases s with
    | call i env c =>
      have hij : i ≠ j := by
        rintro rfl
        exact hother env c rfl
      rw [seen_of_ne hij] at hx
      obtain ⟨y, -, rfl⟩ := List.mem_map.mp hx
      exact ⟨_, y, rfl⟩
    | outside env y => exact ⟨_, y, List.mem_singleton.mp hx⟩

/-- To the contract that is called, a step is the call. -/
theorem world_call (i : I) (env : d.TxEnv) (c : (d.kind i).Entry) (g : d.Chain) :
    d.world i (d.step (.call i env c) g) = (d.kind i).exec (env.at i) c (d.world i g) := by
  have hmirrors := mirrors i g (.call i env c)
  rw [seen_self] at hmirrors
  exact hmirrors

theorem Ready.step {g : d.Chain} (h : Ready g) {s : d.ChainStep} (honce : InitOnce g s) :
    Ready (d.step s g) := by
  refine ⟨?_, fun j => ?_⟩
  · obtain ⟨xs, htokens, hcovers, -⟩ := transfers_step s g
    rw [htokens]
    exact hcovers.balance_nonneg h.funds
  · by_cases hcall : ∃ env c, s = .call j env c
    · obtain ⟨env, c, rfl⟩ := hcall
      rw [world_call]
      exact (d.kind j).ready_call (h.contracts j) honce
    · exact keeps_other (fun env c hs => hcall ⟨env, c, hs⟩)
        (fun w env x hw => (d.kind j).ready_outside hw env x) (h.contracts j)

/-- A step keeps all contracts solvent exactly when it is covered. -/
theorem solvent_step_iff {g : d.Chain} (h : Ready g) {s : d.ChainStep} (honce : InitOnce g s)
    (hsol : Solvent g) : Solvent (d.step s g) ↔ Covered g s := by
  have hothers : ∀ j, (∀ env c, s ≠ .call j env c) →
      (d.kind j).Solvent (d.addr j) (d.world j (d.step s g)) := fun j hother =>
    keeps_other hother (fun w env x hw => (d.kind j).solvent_outside hw env x) (hsol j)
  cases s with
  | outside env x =>
    refine iff_of_true (fun j => hothers j fun env' c hs => ?_) trivial
    cases hs
  | call i env c =>
    have hcalled : (d.kind i).Solvent (d.addr i) (d.world i (d.step (.call i env c) g)) ↔
        Covered g (.call i env c) := by
      rw [world_call]
      exact (d.kind i).solvent_call_iff (h.contracts i) honce (fun t => h.funds t _) (hsol i)
    refine ⟨fun hall => hcalled.mp (hall i), fun hcovered j => ?_⟩
    by_cases hij : i = j
    · subst hij
      exact hcalled.mpr hcovered
    · refine hothers j fun env' c' hs => ?_
      cases hs
      exact hij rfl

/-- In every run of the chain from deployment that initialises each payments contract and each
    marketplace at most once, in any interleaving of calls of all contracts and of transfers made by
    others: every contract holds of every token what it owes, after every step, exactly when every
    batch payout that goes through is covered by the surplus of the contract that makes it, and
    every settlement of a bid by the bid and the surplus of its marketplace. -/
theorem chain_solvent_iff (tokens : TokenLedger) (hfunds : ∀ t a, 0 ≤ tokens.balance t a)
    (steps : List d.ChainStep)
    (honce : ∀ x ∈ trace d.step (d.deployed tokens) steps, InitOnce x.1 x.2) :
    (∀ x ∈ trace d.step (d.deployed tokens) steps, Solvent (d.step x.2 x.1)) ↔
      ∀ x ∈ trace d.step (d.deployed tokens) steps, Covered x.1 x.2 :=
  trace_forall_iff (P := Ready) (G := Solvent) (N := InitOnce) (Q := Covered)
    (fun _ _ h hs => h.step hs) (fun _ _ h hs hsol => solvent_step_iff h hs hsol)
    ⟨hfunds, fun i => (d.kind i).ready_deployed tokens⟩
    (fun i => (d.kind i).solvent_deployed hfunds) honce

theorem suiteRun_initOnce :
    ∀ x ∈ trace suite.step (suite.deployed suiteFunds) suiteRun, InitOnce x.1 x.2 := by
  intro x hx
  fin_cases hx
  · exact False.elim
  · exact fun _ => rfl
  · exact False.elim
  · exact False.elim
  · trivial

theorem suiteRun_covered :
    ∀ x ∈ trace suite.step (suite.deployed suiteFunds) suiteRun, Covered x.1 x.2 := by
  intro x hx
  fin_cases hx
  · trivial
  · exact fun t _ => trivial
  · trivial
  · exact fun t _ => trivial
  · trivial

/-- The three contracts of the suite are solvent after the run above. -/
theorem chain_solvent_iff_suite :
    Solvent (run suite.step (suite.deployed suiteFunds) suiteRun) := by
  have hsolvent :=
    (chain_solvent_iff suiteFunds suiteFunds_nonneg suiteRun suiteRun_initOnce).mpr suiteRun_covered
  exact hsolvent _ (.tail _ (.tail _ (.tail _ (.tail _ (.head _)))))

end Deployment

end Trellis
