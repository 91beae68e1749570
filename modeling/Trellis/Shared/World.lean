import Trellis.Lib.Run
import Trellis.Lib.Table
import Trellis.Shared.Errors

/-!
# Contract state and invocations

The state of a contract is its storage, split into the keys that the shared crate owns
(`SharedStore`) and those of the contract itself, together with the token balances of the chain
and the events emitted so far. Time-to-live bookkeeping of storage entries is not part of it: an
entry stays until it is removed. `Trellis.Shared.RoleLifetime` has it for the roles.

An `Invocation` is a computation over this state. `transfer` calls a conforming (SEP-41) token
contract: it moves exactly the amount, or traps.

A contract's history is a list of `Step`s: calls of its entry points, each in an environment of
its own, and token transfers made by others. `Step.apply` commits a call that returns `Ok` and
rolls back one that returns `Err` or traps.

Results:
* `transfer_ok`: when a transfer goes through and what it does.
* `outsideTransfer_cases`: a transfer made by others never takes from the contract.
-/

namespace Trellis

/-! ## Storage of the shared crate -/

/-- `shared::auth::Role` (shared/src/auth.rs:18–31). -/
inductive Role where
  | admin
  | upgrader
  | treasuryManager
  | pauser
  | referralManager
  | oracleSigner
  deriving DecidableEq, Repr

/-- `shared::payments::EscrowState` (shared/src/payments.rs:96–103). -/
inductive EscrowState where
  | active
  | released
  | refunded
  deriving DecidableEq, Repr

/-- `shared::payments::EscrowRecord` (shared/src/payments.rs:111–126). -/
structure EscrowRecord where
  id : ℕ
  depositor : Address
  beneficiary : Address
  token : Address
  amount : ℤ
  expiryLedger : ℕ
  state : EscrowState
  deriving DecidableEq, Repr

/-- The storage keys of the shared crate: `KEY_ADMIN`, `DataKey::Role(address, role)`,
    `KEY_PAUSED`, `REENTRANCY_KEY`, `ESCROW_ID_SEQ`, `ESCROW_ACTIVE` and `escrow_key(id)`. -/
structure SharedStore where
  admin : Option Address
  roles : Finset (Address × Role)
  paused : Option Bool
  batchLock : Bool
  escrowIdSeq : Option ℕ
  escrowActive : Option (List ℕ)
  escrows : Table ℕ EscrowRecord

/-- The storage of the shared crate in a fresh contract. -/
def SharedStore.empty : SharedStore where
  admin := none
  roles := ∅
  paused := none
  batchLock := false
  escrowIdSeq := none
  escrowActive := none
  escrows := ∅

/-! ## State and invocations -/

/-- The state that an invocation of a contract with storage `S` sees. -/
structure World (S : Type) where
  shared : SharedStore
  store : S
  tokens : TokenLedger
  events : List Event

/-- A contract with fresh storage on a chain with these token balances. -/
def World.deployed {S : Type} (store : S) (tokens : TokenLedger) : World S where
  shared := SharedStore.empty
  store := store
  tokens := tokens
  events := []

/-- A computation of a contract with storage `S` that returns `Result<α, ε>`, or traps. -/
abbrev Invocation (S ε α : Type) : Type := Exec (World S) Trap ε α

variable {me : Address} {S ε : Type}

open Exec

/-- `addr.require_auth()`. -/
def requireAuth (env : Env me) (addr : Address) : Invocation S ε Unit :=
  trapIf (env.signed addr = false) .auth

/-- Reads the contract's own storage. -/
def read {α : Type} (f : S → α) : Invocation S ε α := gets fun w => f w.store

/-- Writes the contract's own storage. -/
def write (f : S → S) : Invocation S ε Unit := update fun w => { w with store := f w.store }

/-- Reads the storage of the shared crate. -/
def readShared {α : Type} (f : SharedStore → α) : Invocation S ε α := gets fun w => f w.shared

/-- Writes the storage of the shared crate. -/
def writeShared (f : SharedStore → SharedStore) : Invocation S ε Unit :=
  update fun w => { w with shared := f w.shared }

/-- `env.events().publish(topics, data)`. -/
def publish (topics : List Symbol) (data : List Val) : Invocation S ε Unit :=
  update fun w => { w with events := w.events ++ [⟨topics, data⟩] }

/-- `token::Client::new(env, token).transfer(src, dst, amount)`. -/
def transfer (env : Env me) (token src dst : Address) (amount : ℤ) : Invocation S ε Unit := do
  trapIf (amount < 0) .negative
  trapIf (src ≠ me ∧ env.signed src = false) .auth
  let tokens ← gets World.tokens
  trapIf (tokens.balance token src < amount) .funds
  trapIf (env.admits tokens ⟨token, src, dst, amount⟩ = false) .refused
  update fun w => { w with tokens := w.tokens.move ⟨token, src, dst, amount⟩ }

@[simp] theorem requireAuth_ok {env : Env me} {addr : Address} {w w' : World S} {u : Unit} :
    (requireAuth env addr : Invocation S ε Unit) w = .ok u w' ↔
      env.signed addr = true ∧ w' = w := by
  simp [requireAuth]

@[simp] theorem read_ok {α : Type} {f : S → α} {w w' : World S} {a : α} :
    (read f : Invocation S ε α) w = .ok a w' ↔ a = f w.store ∧ w' = w := by
  simp [read]

@[simp] theorem write_ok {f : S → S} {w w' : World S} {u : Unit} :
    (write f : Invocation S ε Unit) w = .ok u w' ↔ w' = { w with store := f w.store } := by
  simp [write]

@[simp] theorem readShared_ok {α : Type} {f : SharedStore → α} {w w' : World S} {a : α} :
    (readShared f : Invocation S ε α) w = .ok a w' ↔ a = f w.shared ∧ w' = w := by
  simp [readShared]

@[simp] theorem writeShared_ok {f : SharedStore → SharedStore} {w w' : World S} {u : Unit} :
    (writeShared f : Invocation S ε Unit) w = .ok u w' ↔
      w' = { w with shared := f w.shared } := by
  simp [writeShared]

@[simp] theorem publish_ok {topics : List Symbol} {data : List Val} {w w' : World S} {u : Unit} :
    (publish topics data : Invocation S ε Unit) w = .ok u w' ↔
      w' = { w with events := w.events ++ [⟨topics, data⟩] } := by
  simp [publish]

/-- A transfer goes through exactly when the token allows it, and then moves the amount. -/
@[simp] theorem transfer_ok {env : Env me} {token src dst : Address} {amount : ℤ}
    {w w' : World S} {u : Unit} :
    (transfer env token src dst amount : Invocation S ε Unit) w = .ok u w' ↔
      env.Allows w.tokens ⟨token, src, dst, amount⟩ ∧
        w' = { w with tokens := w.tokens.move ⟨token, src, dst, amount⟩ } := by
  by_cases hme : src = me <;> simp [transfer, Env.Allows, hme, and_assoc]

@[simp] theorem requireAuth_fail {env : Env me} {addr : Address} {w w' : World S}
    {e : Fault Trap ε} : (requireAuth env addr : Invocation S ε Unit) w = .fail e w' ↔
      env.signed addr = false ∧ e = .trap .auth ∧ w' = w := by
  simp [requireAuth]

@[simp] theorem read_fail {α : Type} {f : S → α} {w w' : World S} {e : Fault Trap ε} :
    ¬ (read f : Invocation S ε α) w = .fail e w' := by
  simp [read]

@[simp] theorem write_fail {f : S → S} {w w' : World S} {e : Fault Trap ε} :
    ¬ (write f : Invocation S ε Unit) w = .fail e w' := by
  simp [write]

@[simp] theorem readShared_fail {α : Type} {f : SharedStore → α} {w w' : World S}
    {e : Fault Trap ε} : ¬ (readShared f : Invocation S ε α) w = .fail e w' := by
  simp [readShared]

@[simp] theorem writeShared_fail {f : SharedStore → SharedStore} {w w' : World S}
    {e : Fault Trap ε} : ¬ (writeShared f : Invocation S ε Unit) w = .fail e w' := by
  simp [writeShared]

@[simp] theorem publish_fail {topics : List Symbol} {data : List Val} {w w' : World S}
    {e : Fault Trap ε} : ¬ (publish topics data : Invocation S ε Unit) w = .fail e w' := by
  simp [publish]

/-- A transfer that does not go through traps. -/
theorem transfer_ne_err {env : Env me} {token src dst : Address} {amount : ℤ} {w w' : World S}
    {e : ε} : (transfer env token src dst amount : Invocation S ε Unit) w ≠ .fail (.err e) w' := by
  simp [transfer]

/-- A transfer traps for lack of funds exactly when the balance does not cover it. -/
theorem transfer_funds {env : Env me} {token src dst : Address} {amount : ℤ} {w w' : World S} :
    (transfer env token src dst amount : Invocation S ε Unit) w = .fail (.trap .funds) w' ↔
      0 ≤ amount ∧ (src = me ∨ env.signed src = true) ∧
        w.tokens.balance token src < amount ∧ w' = w := by
  by_cases hme : src = me <;> simp [transfer, hme, and_comm]

/-! ## Histories -/

/-- A transfer made outside the contract: the token makes it if its sender signed it. -/
def outsideTransfer (env : Env me) (x : TokenTransfer) (w : World S) : World S :=
  if env.signed x.src = true ∧ env.Allows w.tokens x then
    { w with tokens := w.tokens.move x }
  else w

/-- One step of the chain as seen by the contract at `me` with the entry points `C`: a call, or
    a token transfer made by others. -/
inductive Step (me : Address) (C : Type) where
  | call (env : Env me) (c : C)
  | outside (env : Env me) (x : TokenTransfer)

/-- The state after a step; `exec` commits or rolls back a call. -/
def Step.apply {C : Type} (exec : Env me → C → World S → World S) :
    Step me C → World S → World S
  | .call env c, w => exec env c w
  | .outside env x, w => outsideTransfer env x w

/-- When a call leaves the state alone or does what `D` says, a step is a transfer made by others,
    or leaves the state alone, or is a call that does what `D` says. -/
theorem Step.cases {C : Type} {exec : Env me → C → World S → World S}
    {D : Env me → World S → C → World S → Prop}
    (hexec : ∀ env c w, exec env c w = w ∨ D env w c (exec env c w)) (s : Step me C) (w : World S) :
    (∃ (env : Env me) (x : TokenTransfer), s.apply exec w = outsideTransfer env x w) ∨
      s.apply exec w = w ∨ ∃ env c w', s = .call env c ∧ s.apply exec w = w' ∧ D env w c w' := by
  cases s with
  | outside env x => exact .inl ⟨env, x, rfl⟩
  | call env c =>
    rcases hexec env c w with h | h
    · exact .inr (.inl h)
    · exact .inr (.inr ⟨env, c, _, rfl, rfl, h⟩)

/-- What the contract receives of the token `t` in a step that is not its own doing. -/
def Step.received {C : Type} (t : Address) (w : World S) : Step me C → ℤ
  | .call _ _ => 0
  | .outside env x =>
    if env.signed x.src = true ∧ env.Allows w.tokens x ∧ x.token = t ∧ x.dst = me then x.amount
    else 0

@[simp] theorem Step.received_call {C : Type} (t : Address) (w : World S) (env : Env me) (c : C) :
    (Step.call env c).received t w = 0 := rfl

theorem Step.received_outside {C : Type} (t : Address) (w : World S) (env : Env me)
    (x : TokenTransfer) :
    (Step.outside env x : Step me C).received t w =
      if env.signed x.src = true ∧ env.Allows w.tokens x ∧ x.token = t ∧ x.dst = me then x.amount
      else 0 := rfl

/-- A transfer made by others changes nothing but the token balances; either it is not made, or
    its sender is not the contract. -/
theorem outsideTransfer_cases (env : Env me) (x : TokenTransfer) (w : World S) :
    outsideTransfer env x w = w ∨
      x.src ≠ me ∧ 0 ≤ x.amount ∧
        outsideTransfer env x w = { w with tokens := w.tokens.move x } := by
  unfold outsideTransfer
  split
  · rename_i h
    exact .inr ⟨Env.ne_me_of_signed h.1, h.2.1, rfl⟩
  · exact .inl rfl

@[simp] theorem store_outsideTransfer (env : Env me) (x : TokenTransfer) (w : World S) :
    (outsideTransfer env x w).store = w.store := by
  rcases outsideTransfer_cases env x w with h | ⟨-, -, h⟩ <;> rw [h]

@[simp] theorem shared_outsideTransfer (env : Env me) (x : TokenTransfer) (w : World S) :
    (outsideTransfer env x w).shared = w.shared := by
  rcases outsideTransfer_cases env x w with h | ⟨-, -, h⟩ <;> rw [h]

/-- When a call returns and does what `D` says, or leaves the state alone, a step is a call that
    returns and does what `D` says, or it is none and touches no storage. -/
theorem Step.cases_returns {C : Type} {exec : Env me → C → World S → World S}
    {R : Env me → World S → C → Prop} {D : Env me → World S → C → World S → Prop}
    (hexec : ∀ env c w, (¬ R env w c ∧ exec env c w = w) ∨ (R env w c ∧ D env w c (exec env c w)))
    (s : Step me C) (w : World S) :
    (∃ env c, s = .call env c ∧ R env w c ∧ D env w c (s.apply exec w)) ∨
      ((∀ env c, s = .call env c → ¬ R env w c) ∧ (s.apply exec w).store = w.store ∧
        (s.apply exec w).shared = w.shared) := by
  cases s with
  | outside env x =>
    refine .inr ⟨?_, store_outsideTransfer env x w, shared_outsideTransfer env x w⟩
    intro env' c hc
    cases hc
  | call env c =>
    rcases hexec env c w with ⟨hfails, hsame⟩ | ⟨hreturns, hdone⟩
    · refine .inr ⟨?_, ?_, ?_⟩
      · intro env' c' hc
        cases hc
        exact hfails
      · rw [Step.apply, hsame]
      · rw [Step.apply, hsame]
    · exact .inl ⟨env, c, rfl, hreturns, hdone⟩

theorem balance_outsideTransfer {C : Type} (env : Env me) (x : TokenTransfer) (w : World S)
    (t : Address) :
    (outsideTransfer env x w).tokens.balance t me =
      w.tokens.balance t me + (Step.outside env x : Step me C).received t w := by
  rw [Step.received_outside]
  unfold outsideTransfer
  by_cases h : env.signed x.src = true ∧ env.Allows w.tokens x
  · have hsrc : x.src ≠ me := Env.ne_me_of_signed h.1
    rw [if_pos h, Ledger.balance_move]
    unfold Transfer.net
    by_cases ht : x.token = t <;> by_cases hd : x.dst = me <;> simp [h.1, h.2, ht, hd, hsrc]
  · have h' : ¬ (env.signed x.src = true ∧ env.Allows w.tokens x ∧ x.token = t ∧ x.dst = me) :=
      fun hx => h ⟨hx.1, hx.2.1⟩
    rw [if_neg h, if_neg h', add_zero]

theorem Step.received_nonneg {C : Type} (t : Address) (w : World S) (s : Step me C) :
    0 ≤ s.received t w := by
  cases s with
  | call env c => exact le_rfl
  | outside env x =>
    rw [Step.received_outside]
    split_ifs with h
    · exact h.2.1.1
    · exact le_rfl

end Trellis
