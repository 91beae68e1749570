import Trellis.Suite.Chain

/-!
# The balances of the chain

What calls of the deployed contracts and transfers made by others can do to the token balances,
whoever calls what in which order.

Results:
* `transfers_step`: the transfers of a step are covered, and each is authorised by its sender.
* `balances_safe`: over every run no token is created or destroyed, no balance becomes negative, and
  nobody loses who authorises no step of it.
-/

namespace Trellis.Deployment

variable {I : Type} {d : Deployment I}

/-- The address signs the step, or is the contract that is called. -/
def ChainStep.AuthorisedBy (a : Address) : d.ChainStep → Prop
  | .call i env _ => a = d.addr i ∨ env.signed a = true
  | .outside env _ => env.signed a = true

instance (a : Address) (s : d.ChainStep) : Decidable (s.AuthorisedBy a) := by
  cases s with
  | call i env c => exact inferInstanceAs (Decidable (_ ∨ _))
  | outside env x => exact inferInstanceAs (Decidable (_ = _))

/-- Transfers that an environment allows are covered, and made by the contract or by those who
    signed. -/
theorem covers_of_allowsAll {me : Address} {env : Env me} {l : TokenLedger}
    {xs : List TokenTransfer} (h : env.AllowsAll l xs) :
    l.Covers xs ∧ ∀ x ∈ xs, x.src = me ∨ env.signed x.src = true := by
  induction xs generalizing l with
  | nil => exact ⟨trivial, fun x hx => absurd hx List.not_mem_nil⟩
  | cons x xs ih =>
    obtain ⟨⟨hamount, hsrc, hcovered, -⟩, hrest⟩ := h
    obtain ⟨hcovers, hsigned⟩ := ih hrest
    exact ⟨⟨⟨hamount, hcovered⟩, hcovers⟩, List.forall_mem_cons.mpr ⟨hsrc, hsigned⟩⟩

variable [DecidableEq I]

/-- A step moves the balances by covered transfers, each authorised by its sender. -/
theorem transfers_step (s : d.ChainStep) (g : d.Chain) :
    ∃ xs, (d.step s g).common = g.common.moveAll xs ∧ g.common.Covers xs ∧
      ∀ x ∈ xs, s.AuthorisedBy x.src := by
  cases s with
  | call i env c =>
    obtain ⟨hallows, htokens⟩ := transfers_spec i env c g
    obtain ⟨hcovers, hsigned⟩ := covers_of_allowsAll hallows
    exact ⟨d.transfers i env c g, htokens, hcovers, hsigned⟩
  | outside env x =>
    by_cases hmakes : env.Makes g.common x
    · refine ⟨[x], if_pos hmakes, ⟨⟨hmakes.2.1, hmakes.2.2.1⟩, trivial⟩, ?_⟩
      intro y hy
      rw [List.mem_singleton.mp hy]
      exact hmakes.1
    · exact ⟨[], if_neg hmakes, trivial, fun y hy => absurd hy List.not_mem_nil⟩

/-- A run moves the balances by covered transfers, each authorised in some step by its sender. -/
theorem transfers_run (steps : List d.ChainStep) (g : d.Chain) :
    ∃ xs, (run d.step g steps).common = g.common.moveAll xs ∧ g.common.Covers xs ∧
      ∀ x ∈ xs, ∃ s ∈ steps, s.AuthorisedBy x.src := by
  induction steps generalizing g with
  | nil => exact ⟨[], rfl, trivial, fun x hx => absurd hx List.not_mem_nil⟩
  | cons s steps ih =>
    obtain ⟨xs, htokens, hcovers, hsrc⟩ := transfers_step s g
    obtain ⟨ys, htokens', hcovers', hsrc'⟩ := ih (d.step s g)
    rw [htokens] at htokens' hcovers'
    refine ⟨xs ++ ys, ?_, hcovers.append hcovers', ?_⟩
    · rw [run_cons, htokens', Ledger.moveAll_append]
    · intro x hx
      rcases List.mem_append.mp hx with hx | hx
      · exact ⟨s, List.mem_cons_self, hsrc x hx⟩
      · obtain ⟨s', hs', hby⟩ := hsrc' x hx
        exact ⟨s', List.mem_cons_of_mem s hs', hby⟩

/-- Over every run of the chain, from balances of which none is negative: every transfer is
    authorised by its sender in some step; the balance of an address that authorises no step never
    falls; no balance becomes negative; and among any holders that include all senders and receivers
    the sum of the balances of every token stays the same. -/
theorem balances_safe (tokens : TokenLedger) (hfunds : ∀ t a, 0 ≤ tokens.balance t a)
    (steps : List d.ChainStep) :
    ∃ xs, (d.reached tokens steps).common = tokens.moveAll xs ∧
      (∀ x ∈ xs, 0 ≤ x.amount ∧ ∃ s ∈ steps, s.AuthorisedBy x.src) ∧
      (∀ t a, (∀ s ∈ steps, ¬ s.AuthorisedBy a) →
        tokens.balance t a ≤ (d.reached tokens steps).common.balance t a) ∧
      (∀ t a, 0 ≤ (d.reached tokens steps).common.balance t a) ∧
      ∀ t (holders : Finset Address), (∀ x ∈ xs, x.src ∈ holders ∧ x.dst ∈ holders) →
        ∑ a ∈ holders, (d.reached tokens steps).common.balance t a =
          ∑ a ∈ holders, tokens.balance t a := by
  obtain ⟨xs, htokens, hcovers, hsrc⟩ := transfers_run steps (d.deployed tokens)
  have hreached : (d.reached tokens steps).common = tokens.moveAll xs := htokens
  refine ⟨xs, hreached, fun x hx => ⟨hcovers.amount_nonneg x hx, hsrc x hx⟩, ?_, ?_, ?_⟩
  · intro t a hnot
    have hothers : ∀ x ∈ xs, x.src ≠ a := by
      rintro x hx rfl
      obtain ⟨s, hs, hby⟩ := hsrc x hx
      exact hnot s hs hby
    have hnet := netAll_nonneg (t := t) hothers hcovers.amount_nonneg
    rw [hreached, Ledger.balance_moveAll]
    omega
  · intro t a
    rw [hreached]
    exact hcovers.balance_nonneg hfunds t a
  · intro t holders hholders
    rw [hreached]
    exact Ledger.sum_moveAll tokens t hholders

/-! ## A chain with one contract of each kind -/

/-- An aid contract, a payments contract and a marketplace. -/
def suite : Deployment Kind where
  kind := id
  addr
    | .aid => ⟨0⟩
    | .payments => ⟨10⟩
    | .market => ⟨11⟩
  addr_injective := by
    intro i j
    cases i <;> cases j <;> decide

/-- A transaction that these addresses sign, with tokens that refuse nothing. -/
def suiteTx (sequence timestamp : ℕ) (signers : List Address) : suite.TxEnv where
  sequence := sequence
  timestamp := timestamp
  signed := fun a => decide (a ∈ signers ∧ a ∉ [⟨0⟩, ⟨10⟩, ⟨11⟩])
  admits := fun _ _ => true
  contracts_unsigned := by
    intro i
    cases i <;> simp [suite]

/-- Of the token `⟨9⟩`, the user `⟨1⟩` holds 100 and the user `⟨3⟩` 7. -/
def suiteFunds : TokenLedger := .ofList [(⟨9⟩, ⟨1⟩, 100), (⟨9⟩, ⟨3⟩, 7)]

/-- `⟨1⟩` escrows 60 for `⟨2⟩`, deposits 30, and sends 5 to the aid contract. -/
def suiteRun : List suite.ChainStep :=
  [.call .aid (suiteTx 1 1 [⟨5⟩]) (Aid.Entry.init ⟨5⟩ ⟨6⟩ ⟨9⟩ 3600),
    .call .payments (suiteTx 1 1 []) (Payments.Entry.init ⟨5⟩ ⟨9⟩ 0 ⟨8⟩),
    .call .aid (suiteTx 2 2 [⟨1⟩]) (Aid.Entry.createAid ⟨1⟩ ⟨2⟩ 60 10),
    .call .payments (suiteTx 3 3 [⟨1⟩]) (Payments.Entry.deposit ⟨1⟩ 30),
    .outside (suiteTx 4 4 [⟨1⟩]) ⟨⟨9⟩, ⟨1⟩, ⟨0⟩, 5⟩]

theorem suiteFunds_nonneg (t a : Address) : 0 ≤ suiteFunds.balance t a :=
  Ledger.ofList_nonneg (by decide) t a

/-- `⟨3⟩` signs nothing and keeps its 7. -/
theorem balances_safe_suite :
    suiteFunds.balance ⟨9⟩ ⟨3⟩ ≤ (suite.reached suiteFunds suiteRun).common.balance ⟨9⟩ ⟨3⟩ := by
  obtain ⟨xs, -, -, hkept, -⟩ := balances_safe suiteFunds suiteFunds_nonneg suiteRun
  refine hkept ⟨9⟩ ⟨3⟩ fun s hs => ?_
  fin_cases hs <;> decide

end Trellis.Deployment
