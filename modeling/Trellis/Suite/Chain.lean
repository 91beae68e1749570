import Trellis.Lib.Joint
import Trellis.Suite.Draws

/-!
# Contracts on one chain

Any number of aid contracts, payments contracts and marketplaces, deployed at addresses of their own
on one chain. Each has its own storage and its own events; all of them hold tokens in the one ledger
of balances. A step of the chain is a call of one of them or a token transfer made by others. A
contract calls nothing but token contracts, so no contract of the deployment ever signs.

Results:
* `mirrors`: a call of one contract is, to another, a list of transfers made by others.
* `run_view`: every contract behaves in the chain as it does alone, with exactly its own calls.
-/

namespace Trellis

/-! ## Deployments -/

/-- The contracts of the suite that hold tokens of their users. -/
inductive Kind where
  | aid
  | payments
  | market
  deriving DecidableEq, Repr

namespace Kind

/-- The storage of a contract of this kind. -/
def Store : Kind → Type
  | aid => Aid.Store
  | payments => Payments.Store
  | market => Market.Store

/-- The storage of a fresh contract. -/
def emptyStore : (k : Kind) → k.Store
  | aid => Aid.Store.empty
  | payments => Payments.Store.empty
  | market => Market.Store.empty

/-- The calls of a contract of this kind. -/
def Entry : Kind → Type
  | aid => Aid.Entry
  | payments => Payments.Entry
  | market => Market.Entry

/-- The state after a call of a contract of this kind. -/
def exec {me : Address} : (k : Kind) → Env me → k.Entry → World k.Store → World k.Store
  | aid, env, c, w => Aid.exec env c w
  | payments, env, c, w => Payments.exec env c w
  | market, env, c, w => Market.exec env c w

/-- A step of the chain as a contract of this kind sees it. -/
def step {me : Address} (k : Kind) : Step me k.Entry → World k.Store → World k.Store :=
  Step.apply k.exec

theorem exec_draws {me : Address} (k : Kind) (env : Env me) (c : k.Entry) (w : World k.Store) :
    Drawn env w.tokens (k.exec env c w).tokens := by
  cases k with
  | aid => exact Aid.exec_draws env c w
  | payments => exact Payments.exec_draws env c w
  | market => exact Market.exec_draws env c w

end Kind

/-- Contracts of these kinds, each at its own address. -/
structure Deployment (I : Type) where
  kind : I → Kind
  addr : I → Address
  addr_injective : Function.Injective addr

/-- What a contract has of its own: everything but the token balances. -/
structure Local (S : Type) where
  shared : SharedStore
  store : S
  events : List Event

/-- The state of a contract is its own part together with the balances. -/
def World.parted (S : Type) : Parted (Local S) TokenLedger (World S) where
  join l tokens := ⟨l.shared, l.store, tokens, l.events⟩
  own w := ⟨w.shared, w.store, w.events⟩
  common := World.tokens
  own_join _ _ := rfl
  common_join _ _ := rfl
  join_own _ := rfl

/-- The call that the step is, if it is one. -/
def Step.call? {me : Address} {C : Type} : Step me C → Option (Env me × C)
  | .call env c => some (env, c)
  | .outside _ _ => none

namespace Deployment

variable {I : Type} (d : Deployment I)

/-- The environment of a transaction. The contracts of the deployment sign nothing. -/
structure TxEnv where
  sequence : ℕ
  timestamp : ℕ
  signed : Address → Bool
  admits : TokenLedger → TokenTransfer → Bool
  contracts_unsigned : ∀ i, signed (d.addr i) = false

variable {d}

/-- The environment of the transaction for the contract `j`. -/
def TxEnv.at (env : d.TxEnv) (j : I) : Env (d.addr j) where
  sequence := env.sequence
  timestamp := env.timestamp
  signed := env.signed
  admits := env.admits
  me_unsigned := env.contracts_unsigned j

/-- The environment in which the contract `j` sees the transfers of a call of the contract `i`: what
    `i` sends is signed by `i`. -/
def TxEnv.besides (env : d.TxEnv) {i j : I} (h : i ≠ j) : Env (d.addr j) where
  sequence := env.sequence
  timestamp := env.timestamp
  signed a := decide (a = d.addr i) || env.signed a
  admits := env.admits
  me_unsigned := by
    have hother : d.addr j ≠ d.addr i := fun heq => h (d.addr_injective heq).symm
    simp [hother, env.contracts_unsigned j]

/-- The conditions under which a token makes a transfer that no contract of the deployment asks
    for. -/
def TxEnv.Makes (env : d.TxEnv) (tokens : TokenLedger) (x : TokenTransfer) : Prop :=
  env.signed x.src = true ∧ 0 ≤ x.amount ∧ x.amount ≤ tokens.balance x.token x.src ∧
    env.admits tokens x = true

instance (env : d.TxEnv) (tokens : TokenLedger) (x : TokenTransfer) :
    Decidable (env.Makes tokens x) := inferInstanceAs (Decidable (_ ∧ _))

/-- The balances after such a transfer. -/
def TxEnv.make (env : d.TxEnv) (x : TokenTransfer) (tokens : TokenLedger) : TokenLedger :=
  if env.Makes tokens x then tokens.move x else tokens

variable (d)

/-- A step of the chain. -/
inductive ChainStep where
  | call (i : I) (env : d.TxEnv) (c : (d.kind i).Entry)
  | outside (env : d.TxEnv) (x : TokenTransfer)

/-- The state of the chain. -/
abbrev Chain : Type := Joint (fun i => Local (d.kind i).Store) TokenLedger

/-- The state of the contract `i` in the chain. -/
def world (i : I) (g : d.Chain) : World (d.kind i).Store :=
  g.view (fun i => World.parted (d.kind i).Store) i

/-- All contracts freshly deployed on a chain with these token balances. -/
def deployed (tokens : TokenLedger) : d.Chain where
  own i := ⟨SharedStore.empty, (d.kind i).emptyStore, []⟩
  common := tokens

/-! ## The transfers of a call -/

/-- The transfers that the call makes. -/
def transfers (i : I) (env : d.TxEnv) (c : (d.kind i).Entry) (g : d.Chain) : List TokenTransfer :=
  ((d.kind i).exec (env.at i) c (d.world i g)).tokens.log.drop g.common.log.length

variable {d}

theorem transfers_spec (i : I) (env : d.TxEnv) (c : (d.kind i).Entry) (g : d.Chain) :
    (env.at i).AllowsAll g.common (d.transfers i env c g) ∧
      ((d.kind i).exec (env.at i) c (d.world i g)).tokens =
        g.common.moveAll (d.transfers i env c g) := by
  obtain ⟨xs, hallows, htokens⟩ := (d.kind i).exec_draws (env.at i) c (d.world i g)
  have hxs : d.transfers i env c g = xs := by
    rw [transfers, htokens, Ledger.log_moveAll]
    exact List.drop_left
  rw [hxs]
  exact ⟨hallows, htokens⟩

/-- A transfer that one contract's call makes is, to another, made by others. -/
theorem outside_besides {S : Type} {env : d.TxEnv} {i j : I} (h : i ≠ j) {x : TokenTransfer}
    {w : World S} (hallows : (env.at i).Allows w.tokens x) :
    outsideTransfer (env.besides h) x w = { w with tokens := w.tokens.move x } := by
  obtain ⟨hamount, hsrc, hcovered, hadmits⟩ := hallows
  have hsigned : (env.besides h).signed x.src = true := by
    show (decide (x.src = d.addr i) || env.signed x.src) = true
    rcases hsrc with hsrc | hsrc
    · simp [hsrc]
    · rw [show env.signed x.src = true from hsrc, Bool.or_true]
  exact if_pos ⟨hsigned, hamount, .inr hsigned, hcovered, hadmits⟩

theorem run_besides {S C : Type} {env : d.TxEnv} {i j : I} (h : i ≠ j)
    {exec : Env (d.addr j) → C → World S → World S} {xs : List TokenTransfer} {w : World S}
    (hallows : (env.at i).AllowsAll w.tokens xs) :
    run (Step.apply exec) w (xs.map fun x => .outside (env.besides h) x) =
      { w with tokens := w.tokens.moveAll xs } := by
  induction xs generalizing w with
  | nil => rfl
  | cons x xs ih =>
    rw [List.map_cons, run_cons]
    show run _ (outsideTransfer (env.besides h) x w) _ = _
    rw [outside_besides h hallows.1, ih hallows.2, Ledger.moveAll_cons]

theorem outside_at {S : Type} (env : d.TxEnv) (j : I) (x : TokenTransfer) (w : World S) :
    outsideTransfer (env.at j) x w = { w with tokens := env.make x w.tokens } := by
  have hiff : ((env.at j).signed x.src = true ∧ (env.at j).Allows w.tokens x) ↔
      env.Makes w.tokens x := by
    constructor
    · rintro ⟨hsigned, hamount, -, hcovered, hadmits⟩
      exact ⟨hsigned, hamount, hcovered, hadmits⟩
    · rintro ⟨hsigned, hamount, hcovered, hadmits⟩
      exact ⟨hsigned, hamount, .inr hsigned, hcovered, hadmits⟩
  unfold outsideTransfer TxEnv.make
  by_cases hmakes : env.Makes w.tokens x
  · rw [if_pos hmakes, if_pos (hiff.mpr hmakes)]
  · rw [if_neg hmakes, if_neg fun hat => hmakes (hiff.mp hat)]

/-! ## Steps and runs -/

variable (d) [DecidableEq I]

/-- The state of the chain after a step. -/
def step : d.ChainStep → d.Chain → d.Chain
  | .call i env c, g =>
    g.act (fun i => World.parted (d.kind i).Store) (fun i => (d.kind i).step) i
      (.call (env.at i) c)
  | .outside env x, g => g.disturb (env.make x)

/-- The state of the chain after a run from deployment. -/
def reached (tokens : TokenLedger) (steps : List d.ChainStep) : d.Chain :=
  run d.step (d.deployed tokens) steps

/-- What the contract `j` sees of a step: its own calls, and transfers made by others. -/
def seen (j : I) (g : d.Chain) : d.ChainStep → List (Step (d.addr j) (d.kind j).Entry)
  | .call i env c =>
    if h : i = j then [.call (env.at j) (h ▸ c)]
    else (d.transfers i env c g).map fun x => .outside (env.besides h) x
  | .outside env x => [.outside (env.at j) x]

/-- What the contract `j` sees of a run from deployment. -/
def seenRun (j : I) (tokens : TokenLedger) (steps : List d.ChainStep) :
    List (Step (d.addr j) (d.kind j).Entry) :=
  Joint.inputsSeen d.step (d.seen j) (d.deployed tokens) steps

variable {d}

@[simp] theorem seen_self (j : I) (g : d.Chain) (env : d.TxEnv) (c : (d.kind j).Entry) :
    d.seen j g (.call j env c) = [.call (env.at j) c] :=
  dif_pos rfl

theorem seen_of_ne {i j : I} (h : i ≠ j) (g : d.Chain) (env : d.TxEnv) (c : (d.kind i).Entry) :
    d.seen j g (.call i env c) =
      (d.transfers i env c g).map fun x => .outside (env.besides h) x :=
  dif_neg h

/-- A step of the chain is, to each contract, its own call or transfers made by others. -/
theorem mirrors (j : I) :
    Joint.Mirrors (fun i => World.parted (d.kind i).Store) d.step j (d.kind j).step
      (d.seen j) := by
  intro g s
  cases s with
  | call i env c =>
    by_cases h : i = j
    · subst h
      rw [seen_self, step, Joint.view_act_self]
      rfl
    · obtain ⟨hallows, htokens⟩ := transfers_spec i env c g
      rw [seen_of_ne h, step, Joint.view_act_of_ne (Ne.symm h)]
      have hrun : run (d.kind j).step (d.world j g)
          ((d.transfers i env c g).map fun x => .outside (env.besides h) x) =
          { d.world j g with tokens := g.common.moveAll (d.transfers i env c g) } :=
        run_besides h hallows
      refine Eq.trans ?_ hrun.symm
      rw [← htokens]
      rfl
  | outside env x =>
    have hmade : outsideTransfer (env.at j) x (d.world j g) =
        { d.world j g with tokens := env.make x g.common } := outside_at env j x _
    exact hmade.symm

/-! ## A contract in the chain and alone -/

/-- The call of the contract `j` that the step is, if it is one. -/
def ChainStep.callOf (j : I) : d.ChainStep → Option (Env (d.addr j) × (d.kind j).Entry)
  | .call i env c => if h : i = j then some (env.at j, h ▸ c) else none
  | .outside _ _ => none

/-- The calls that a contract sees of a step are its own. -/
theorem calls_seen (j : I) (g : d.Chain) (s : d.ChainStep) :
    (d.seen j g s).filterMap Step.call? = (s.callOf j).toList := by
  cases s with
  | call i env c =>
    by_cases h : i = j
    · subst h
      rw [seen_self, ChainStep.callOf, dif_pos rfl]
      rfl
    · rw [seen_of_ne h, ChainStep.callOf, dif_neg h, List.filterMap_map]
      exact List.filterMap_eq_nil_iff.mpr fun _ _ => rfl
  | outside env x => rfl

/-- Every contract behaves in the chain as it does alone: its state at the end of any run of the
    chain is the one that a run of its own reaches, with exactly its own calls, in order and in the
    same environments, and with token transfers made by others in between. -/
theorem run_view (tokens : TokenLedger) (steps : List d.ChainStep) (j : I) :
    d.world j (d.reached tokens steps) =
        run (d.kind j).step (World.deployed (d.kind j).emptyStore tokens)
          (d.seenRun j tokens steps) ∧
      (d.seenRun j tokens steps).filterMap Step.call? =
        steps.filterMap (ChainStep.callOf j) := by
  refine ⟨(mirrors j).run (d.deployed tokens) steps, ?_⟩
  unfold seenRun
  generalize d.deployed tokens = g
  induction steps generalizing g with
  | nil => rfl
  | cons s steps ih =>
    rw [Joint.inputsSeen_cons, List.filterMap_append, calls_seen, ih]
    cases hs : s.callOf j with
    | none => rw [List.filterMap_cons_none hs]; rfl
    | some c => rw [List.filterMap_cons_some hs]; rfl

end Deployment

end Trellis
