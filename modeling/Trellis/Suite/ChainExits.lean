import Trellis.Aid.Drain
import Trellis.Market.Exits
import Trellis.Payments.Exits
import Trellis.Suite.ChainSolvency

/-!
# Everybody leaves

A donor, a depositor, a seller and an offerer each have a stake in one of the contracts of a chain,
and each can take it out by one call. These calls do not hinder each other, neither within a
contract nor across contracts that pay in the same token.

Results:
* `Kind.sweeps`: the exits of one contract are a sweep, whatever kind of contract it is.
* `exit_sweeps`: so are the exits of all contracts of a chain.
* `everyone_leaves`: from every state of a chain that its runs reach, any stakes in any of its
  contracts, in any order, are all paid out in full.
-/

namespace Trellis

variable {me : Address}

/-! ## Stakes -/

/-- What somebody can take out of a contract by one call: an aid record that goes back to its donor,
    the account of a depositor, or the deposit of a seller or an offerer. -/
inductive Stake where
  | record (r : Aid.AidRecord)
  | account (a : Payments.Account)
  | deposit (d : Market.Deposit)
  deriving DecidableEq, Repr

namespace Stake

/-- Who gets it. -/
def owner : Stake → Address
  | record r => r.donor
  | account a => a.who
  | deposit d => d.owner

/-- It can be taken out at this ledger sequence, with the signature of the owner or without. -/
def Due (sequence : ℕ) (signed : Bool) : Stake → Prop
  | record r => r.status = .pending ∧ r.expiryLedger < sequence
  | account a => a.Withdrawable ∧ signed = true
  | deposit d => d.held = true ∧ signed = true

/-- What is left of it. -/
def taken : Stake → Stake
  | record r => record r.refunded
  | account a => account a.emptied
  | deposit d => deposit d.withdrawn

/-- The transfers that pay it out of the contract at `me`. -/
def payments (me : Address) : Stake → List TokenTransfer
  | record r => [r.refund me]
  | account a => a.payments me
  | deposit d => [d.payout me]

end Stake

namespace Kind

/-- The keys of the stakes in a contract of this kind. -/
def StakeKey : Kind → Type
  | aid => ℕ
  | payments => Address
  | market => Market.DepositKey

/-- The stake under a key. -/
def stake? : (k : Kind) → k.Store → k.StakeKey → Option Stake
  | aid, (s : Aid.Store), (id : ℕ) => (s.aids.lookup id).map .record
  | payments, (s : Payments.Store), who => (s.account? who).map .account
  | market, (s : Market.Store), key => (s.deposit? key).map .deposit

/-- The call that takes the stake of an owner out. -/
def exit (owner : Address) : (k : Kind) → k.StakeKey → k.Entry
  | aid, id => .refundAid id
  | payments, _ => .withdraw owner
  | market, key => key.entry owner

/-! ## The states that a contract reaches -/

/-- The contract is in a state that it reaches when it is initialised at most once and its batch
    payouts and settlements are covered. -/
def Running (tokens : TokenLedger) (me : Address) : (k : Kind) → World k.Store → Prop
  | aid, w => ∃ steps : List (Step me Aid.Entry), w = Aid.reached tokens steps
  | payments, w => Payments.Ready w ∧ ∀ t, w.store.token = some t → ∃ r, Payments.Sound me t r w
  | market, w => Market.Ready me w ∧ (Market.marketCustody me).Solvent w

/-- A state that a run of the contract reaches, ready and solvent. -/
theorem running_of_reached (k : Kind) {tokens : TokenLedger} {steps : List (Step me k.Entry)}
    {w : World k.Store} (hw : w = run k.step (World.deployed k.emptyStore tokens) steps)
    (hready : k.Ready me w) (hsolvent : k.Solvent me w) : k.Running tokens me w := by
  cases k with
  | aid => exact ⟨steps, hw⟩
  | payments =>
    refine ⟨hready, fun t ht => ?_⟩
    rcases hready with hfresh | ⟨-, token, hinv⟩
    · exact absurd ht hfresh.token_ne
    · obtain rfl := Option.some.inj (hinv.token_eq.symm.trans ht)
      subst hw
      obtain ⟨r, hconfigured⟩ := Payments.configured_run tokens steps ht
      exact ⟨r, hinv, Payments.kept_run tokens steps, fun _ => hsolvent token ht, hconfigured⟩
  | market => exact ⟨hready, hsolvent⟩

theorem running_outside (k : Kind) {tokens : TokenLedger} {w : World k.Store}
    (h : k.Running tokens me w) (env : Env me) (x : TokenTransfer) :
    k.Running tokens me (outsideTransfer env x w) := by
  cases k with
  | aid =>
    obtain ⟨steps, rfl⟩ := h
    exact ⟨steps ++ [.outside env x], by rw [Aid.reached, Aid.reached, run_append]; rfl⟩
  | payments =>
    refine ⟨ready_outside payments h.1 env x, fun t ht => ?_⟩
    rw [store_outsideTransfer] at ht
    obtain ⟨r, hsound⟩ := h.2 t ht
    exact ⟨r, hsound.step (s := .outside env x) id trivial⟩
  | market => exact ⟨ready_outside market h.1 env x, solvent_outside market h.2 env x⟩

theorem Running.solvent {k : Kind} {tokens : TokenLedger} (hfunds : ∀ t a, 0 ≤ tokens.balance t a)
    {w : World k.Store} (h : k.Running tokens me w) : k.Solvent me w := by
  cases k with
  | aid =>
    obtain ⟨steps, rfl⟩ := h
    intro t
    have hsurplus := Aid.surplus_reached tokens steps t
    have hnonneg := Aid.receivedOutside_nonneg hfunds steps t
    simp only [Custody.surplus, Aid.aidCustody] at hsurplus
    omega
  | payments =>
    intro t ht
    obtain ⟨r, hsound⟩ := h.2 t ht
    exact hsound.solvent ()
  | market => exact h.2

/-! ## The exits of one contract -/

/-- The exits from a contract of any kind, each in an environment of its owner, are a sweep. -/
theorem sweeps (k : Kind) {tokens : TokenLedger} (hfunds : ∀ t a, 0 ≤ tokens.balance t a)
    (env : Address → Env me) (hadmits : ∀ a l x, (env a).admits l x = true) :
    Sweeps (@step me k) (k.Running tokens me) (fun w => k.stake? w.store)
      (fun v => v.Due (env v.owner).sequence ((env v.owner).signed v.owner))
      (fun key v => .call (env v.owner) (k.exit v.owner key)) Stake.taken World.tokens
      (fun _ v l => l.moveAll (v.payments me)) := by
  cases k with
  | aid =>
    refine (Aid.refund_sweeps hfunds env hadmits).embed (c := Stake.record) (fun h _ => h) ?_
      (fun _ h => h)
      (fun _ _ => rfl) (fun _ => rfl) fun _ _ => rfl
    exact (Aid.refund_sweeps hfunds env hadmits).keeps
  | payments =>
    have hsound : ∀ {w : World Payments.Store} {who : Address} {a : Payments.Account},
        Running tokens me payments w → w.store.account? who = some a →
          ∃ t r, Payments.Sound me t r w := by
      intro w who a h ha
      unfold Payments.Store.account? at ha
      split at ha
      · next t r ht hr => exact ⟨t, h.2 t ht⟩
      · cases ha
    refine (Payments.account_sweeps env hadmits).embed (c := Stake.account) hsound ?_ (fun _ h => h)
      (fun _ _ => rfl) (fun _ => rfl) fun _ _ => rfl
    intro w who a h ha hdue
    obtain ⟨t, r, hsound⟩ := (Payments.account_sweeps env hadmits).keeps (hsound h ha) ha hdue
    have hready : Payments.Ready (Payments.exec (env a.who) (.withdraw a.who) w) :=
      Payments.Ready.exec h.1 False.elim
    refine ⟨hready, fun t' ht' => ⟨r, ?_⟩⟩
    obtain rfl := Option.some.inj (ht'.symm.trans hsound.inv.token_eq)
    exact hsound
  | market =>
    have hsound : ∀ {w : World Market.Store} {key : Market.DepositKey} {x : Market.Deposit},
        Running tokens me market w → w.store.deposit? key = some x → Market.Sound me w := by
      intro w key x h hx
      rcases h.1 with hfresh | hopened
      · rw [hfresh.store] at hx
        cases key <;> cases hx
      · exact ⟨hopened.2, h.2⟩
    refine (Market.withdraw_sweeps env hadmits).embed (c := Stake.deposit) hsound ?_ (fun _ h => h)
      (fun _ _ => rfl) (fun _ => rfl) fun _ _ => rfl
    intro w key x h hx hdue
    have hinit : ¬ Market.Entry.IsInit (key.entry x.owner) := by cases key <;> exact id
    exact ⟨Market.Ready.exec h.1 fun hi => absurd hi hinit,
      ((Market.withdraw_sweeps env hadmits).keeps (hsound h hx) hx hdue).solvent⟩

end Kind

/-! ## The exits of all contracts -/

namespace Deployment

variable {I : Type} [DecidableEq I] {d : Deployment I}

/-- The keys of the stakes in all contracts. -/
abbrev StakeKey (d : Deployment I) : Type := Σ i, (d.kind i).StakeKey

/-- The stake under a key. -/
def stake? (g : d.Chain) (key : d.StakeKey) : Option Stake :=
  (d.kind key.1).stake? (d.world key.1 g).store key.2

/-- The call that takes a stake out, in a transaction of its owner. -/
def exit (env : Address → d.TxEnv) (key : d.StakeKey) (v : Stake) : d.ChainStep :=
  .call key.1 (env v.owner) ((d.kind key.1).exit v.owner key.2)

/-- All contracts are in states that they reach. -/
def Running (tokens : TokenLedger) (g : d.Chain) : Prop :=
  ∀ i, (d.kind i).Running tokens (d.addr i) (d.world i g)

/-- The exits of all contracts are one sweep of the chain. -/
theorem exit_sweeps {tokens : TokenLedger} (hfunds : ∀ t a, 0 ≤ tokens.balance t a)
    (env : Address → d.TxEnv) (hadmits : ∀ a l x, (env a).admits l x = true) :
    Sweeps d.step (Running tokens) stake?
      (fun v => v.Due (env v.owner).sequence ((env v.owner).signed v.owner)) (exit env) Stake.taken
      Joint.common (fun key v l => l.moveAll (v.payments (d.addr key.1))) := by
  have hsweeps : ∀ i, Sweeps (d.kind i).step ((d.kind i).Running tokens (d.addr i))
      (fun w => (d.kind i).stake? w.store)
        (fun v => v.Due (env v.owner).sequence ((env v.owner).signed v.owner))
      (fun key v => .call ((env v.owner).at i) ((d.kind i).exit v.owner key)) Stake.taken
      (World.parted (d.kind i).Store).common (fun _ v l => l.moveAll (v.payments (d.addr i))) :=
    fun i => (d.kind i).sweeps hfunds (fun a => (env a).at i) hadmits
  have hstep : ∀ i key v g, d.step (exit env ⟨i, key⟩ v) g =
      g.act (fun i => World.parted (d.kind i).Store) (fun i => (d.kind i).step) i
        (.call ((env v.owner).at i) ((d.kind i).exit v.owner key)) := fun _ _ _ _ => rfl
  refine Sweeps.joint hsweeps hstep (fun i l r r' => rfl) fun i j hj key v g h => ?_
  refine keeps_other (fun env' c hs => ?_)
    (fun w env' x hw => (d.kind j).running_outside hw env' x) h
  cases hs
  exact hj rfl

/-- In every run of the chain from deployment that initialises each payments contract and each
    marketplace at most once, and whose batch payouts and settlements are covered, all contracts are
    in states that they reach. -/
theorem running_reached {tokens : TokenLedger} (hfunds : ∀ t a, 0 ≤ tokens.balance t a)
    {steps : List d.ChainStep}
    (honce : ∀ x ∈ trace d.step (d.deployed tokens) steps, InitOnce x.1 x.2)
    (hcovered : ∀ x ∈ trace d.step (d.deployed tokens) steps, Covered x.1 x.2) :
    Running tokens (d.reached tokens steps) := by
  have hready : Ready (d.reached tokens steps) ∧ Solvent (d.reached tokens steps) := by
    refine run_induct_of_trace (P := fun g => Ready g ∧ Solvent g) (Q := fun g s => InitOnce g s ∧
      Covered g s)
      (fun g s h hs => ⟨h.1.step hs.1, (solvent_step_iff h.1 hs.1 h.2).mpr hs.2⟩) ?_
      fun x hx => ⟨honce x hx, hcovered x hx⟩
    exact ⟨⟨hfunds, fun i => (d.kind i).ready_deployed tokens⟩,
      fun i => (d.kind i).solvent_deployed hfunds⟩
  intro i
  exact (d.kind i).running_of_reached ((mirrors i).run (d.deployed tokens) steps)
    (hready.1.contracts i) (hready.2 i)

/-- In every run of the chain from deployment that initialises each payments contract and each
    marketplace at most once, and whose batch payouts and settlements are covered, however the calls
    of all contracts and the transfers of others are interleaved: any number of stakes in any of the
    contracts, each of them due, can be taken out one after the other, in any order. The owners are
    paid in full, no other stake is touched, and every contract still holds what it owes. -/
theorem everyone_leaves (tokens : TokenLedger) (hfunds : ∀ t a, 0 ≤ tokens.balance t a)
    (steps : List d.ChainStep)
    (honce : ∀ x ∈ trace d.step (d.deployed tokens) steps, InitOnce x.1 x.2)
    (hcovered : ∀ x ∈ trace d.step (d.deployed tokens) steps, Covered x.1 x.2) {g : d.Chain}
    (hg : d.reached tokens steps = g) (env : Address → d.TxEnv)
    (hadmits : ∀ a l x, (env a).admits l x = true) (stakes : List (d.StakeKey × Stake))
    (hnodup : (stakes.map Prod.fst).Nodup)
    (hdue : ∀ x ∈ stakes, stake? g x.1 = some x.2 ∧
      x.2.Due (env x.2.owner).sequence ((env x.2.owner).signed x.2.owner)) :
    let g' := run d.step g (stakes.map fun x => exit env x.1 x.2)
    g'.common = g.common.moveAll (stakes.flatMap fun x => x.2.payments (d.addr x.1.1)) ∧
      (∀ x ∈ stakes, stake? g' x.1 = some x.2.taken) ∧
      (∀ key ∉ stakes.map Prod.fst, stake? g' key = stake? g key) ∧
      Solvent g' := by
  have hrunning : Running tokens g := hg ▸ running_reached hfunds honce hcovered
  obtain ⟨hkept, htokens, htaken, hothers⟩ :=
    (exit_sweeps hfunds env hadmits).run hnodup hrunning hdue
  refine ⟨?_, htaken, hothers, fun i => (hkept i).solvent hfunds⟩
  rw [Ledger.moveAll, List.foldl_flatMap]
  exact htokens

/-- `⟨1⟩` takes the 30 out of the payments contract and the 60 out of the aid contract after
    `suiteRun`. -/
theorem everyone_leaves_suite :
    (run suite.step (suite.reached suiteFunds suiteRun)
      [.call .payments (suiteTx 11 11 [⟨1⟩]) (Payments.Entry.withdraw ⟨1⟩),
        .call .aid (suiteTx 11 11 [⟨1⟩]) (Aid.Entry.refundAid 0)]).common.balance ⟨9⟩ ⟨1⟩ = 95 := by
  have hnodup : ([⟨.payments, (⟨1⟩ : Address)⟩, ⟨.aid, (0 : ℕ)⟩] : List suite.StakeKey).Nodup := by
    rw [List.nodup_cons, List.mem_singleton]
    refine ⟨fun h => ?_, List.nodup_singleton _⟩
    cases congrArg Sigma.fst h
  have hleaves :=
    (everyone_leaves suiteFunds suiteFunds_nonneg suiteRun suiteRun_initOnce suiteRun_covered rfl
    (fun a => suiteTx 11 11 [a]) (fun _ _ _ => rfl)
    [(⟨.payments, (⟨1⟩ : Address)⟩, .account ⟨⟨1⟩, 30, 0, ⟨9⟩, ⟨8⟩⟩),
      (⟨.aid, (0 : ℕ)⟩, .record ⟨0, ⟨1⟩, ⟨2⟩, ⟨9⟩, 60, 10, .pending⟩)] hnodup fun x hx => by
        fin_cases hx
        · exact ⟨rfl, by decide, rfl⟩
        · exact ⟨rfl, rfl, by decide⟩).1
  exact (congrArg (fun l : TokenLedger => l.balance ⟨9⟩ ⟨1⟩) hleaves).trans (by decide)

end Deployment

end Trellis
