import Trellis.Lib.Exec
import Trellis.Lib.Ledger

/-!
# The Soroban host

What the contracts use of the host: addresses, machine integers, traps, events and the
environment of an invocation.

An `Env me` is the environment of one invocation of the contract at the address `me`. It
carries the ledger sequence and timestamp, the addresses that authorised the invocation, and what
the token contracts will refuse for reasons of their own (a frozen account, a full balance). A
contract signs nothing by itself, so `me` is never among the signers; it may still spend its own
tokens, because the direct caller of a token contract needs no signature.

Integers of the code are `ℤ` and `ℕ`; the checks that the code's widths impose are the functions
`checkedAdd`, `checkedSub`, `checkedMul` and `checkedDiv` for `i128`, and `checkedAddU64`.
-/

namespace Trellis

/-- `soroban_sdk::Address`. -/
structure Address where
  id : ℕ
  deriving DecidableEq, Repr

/-- The order of the keys in a map of the host, in which it is iterated. -/
def Address.Before (a b : Address) : Prop := a.id ≤ b.id

instance : DecidableRel Address.Before := fun a b => inferInstanceAs (Decidable (a.id ≤ b.id))

instance : IsTrans Address Address.Before := ⟨fun _ _ _ => Nat.le_trans⟩

instance : Std.Antisymm Address.Before :=
  ⟨fun _ _ hab hba => congrArg Address.mk (Nat.le_antisymm hab hba)⟩

instance : Std.Total Address.Before := ⟨fun a b => Nat.le_total a.id b.id⟩

/-- `soroban_sdk::Symbol`. -/
abbrev Symbol : Type := String

/-- `soroban_sdk::Bytes`. -/
abbrev Bytes : Type := List UInt8

/-- Why an invocation aborts. -/
inductive Trap where
  /-- `require_auth` of an address that did not sign. -/
  | auth
  /-- A token transfer of a negative amount. -/
  | negative
  /-- A token transfer that the sender's balance does not cover. -/
  | funds
  /-- A token transfer that the token contract refuses for a reason of its own. -/
  | refused
  /-- `expect` or `unwrap` of an absent value. -/
  | missing
  /-- `unwrap` of an error. -/
  | unwrapped
  /-- Arithmetic overflow under `overflow-checks`. -/
  | overflow
  /-- `panic_with_error!` with this error code. -/
  | code (n : ℕ)
  /-- The host stops an invocation that has used up its budget. -/
  | budget
  deriving DecidableEq, Repr

/-! ## Machine integers -/

/-- The range of `i128`. -/
def InI128 (x : ℤ) : Prop := -2 ^ 127 ≤ x ∧ x < 2 ^ 127

instance (x : ℤ) : Decidable (InI128 x) := inferInstanceAs (Decidable (_ ∧ _))

/-- The value if it fits in an `i128`. -/
def toI128 (x : ℤ) : Option ℤ := if InI128 x then some x else none

/-- `i128::checked_add`. -/
def checkedAdd (a b : ℤ) : Option ℤ := toI128 (a + b)

/-- `i128::checked_sub`. -/
def checkedSub (a b : ℤ) : Option ℤ := toI128 (a - b)

/-- `i128::checked_mul`. -/
def checkedMul (a b : ℤ) : Option ℤ := toI128 (a * b)

/-- `i128::checked_div`, which truncates towards zero. -/
def checkedDiv (a b : ℤ) : Option ℤ := if b = 0 then none else toI128 (a.tdiv b)

/-- `u64::checked_add`. -/
def checkedAddU64 (a b : ℕ) : Option ℕ := if a + b < 2 ^ 64 then some (a + b) else none

/-- `u32::checked_add`. -/
def checkedAddU32 (a b : ℕ) : Option ℕ := if a + b < 2 ^ 32 then some (a + b) else none

@[simp] theorem toI128_eq_some {x y : ℤ} : toI128 x = some y ↔ InI128 x ∧ y = x := by
  unfold toI128
  split <;> simp_all [eq_comm]

@[simp] theorem checkedAdd_eq_some {a b c : ℤ} :
    checkedAdd a b = some c ↔ InI128 (a + b) ∧ c = a + b := toI128_eq_some

@[simp] theorem checkedSub_eq_some {a b c : ℤ} :
    checkedSub a b = some c ↔ InI128 (a - b) ∧ c = a - b := toI128_eq_some

@[simp] theorem checkedMul_eq_some {a b c : ℤ} :
    checkedMul a b = some c ↔ InI128 (a * b) ∧ c = a * b := toI128_eq_some

theorem checkedDiv_eq_some {a b c : ℤ} :
    checkedDiv a b = some c ↔ b ≠ 0 ∧ InI128 (a.tdiv b) ∧ c = a.tdiv b := by
  unfold checkedDiv
  split <;> simp_all

/-- Ten thousandths of a product with a rate up to 10000 lie between zero and the amount. -/
theorem bps_bounds {amount rateBps : ℤ} (hamount : 0 ≤ amount) (h₀ : 0 ≤ rateBps)
    (h₁ : rateBps ≤ 10000) : 0 ≤ amount * rateBps / 10000 ∧ amount * rateBps / 10000 ≤ amount := by
  have hprod : 0 ≤ amount * rateBps := mul_nonneg hamount h₀
  have hle : amount * rateBps ≤ amount * 10000 := mul_le_mul_of_nonneg_left h₁ hamount
  constructor
  · exact Int.ediv_nonneg hprod (by omega)
  · omega

@[simp] theorem checkedAddU64_eq_some {a b c : ℕ} :
    checkedAddU64 a b = some c ↔ a + b < 2 ^ 64 ∧ c = a + b := by
  unfold checkedAddU64
  split <;> simp_all [eq_comm]

@[simp] theorem checkedAddU32_eq_some {a b c : ℕ} :
    checkedAddU32 a b = some c ↔ a + b < 2 ^ 32 ∧ c = a + b := by
  unfold checkedAddU32
  split <;> simp_all [eq_comm]

/-! ## Events -/

/-- The values an event carries. -/
inductive Val where
  | address (a : Address)
  | symbol (s : Symbol)
  | bool (b : Bool)
  | u32 (n : ℕ)
  | u64 (n : ℕ)
  | i128 (n : ℤ)
  | bytes (b : Bytes)
  | i128s (ns : List ℤ)
  deriving DecidableEq, Repr

/-- `env.events().publish(topics, data)`. -/
structure Event where
  topics : List Symbol
  data : List Val
  deriving DecidableEq, Repr

/-! ## The environment of an invocation -/

/-- A transfer of a token between addresses; the token is the address of its contract. -/
abbrev TokenTransfer : Type := Transfer Address Address

/-- The balances of all token contracts. -/
abbrev TokenLedger : Type := Ledger Address Address

/-- The environment of one invocation of the contract at `me`. -/
structure Env (me : Address) where
  /-- `env.ledger().sequence()`. -/
  sequence : ℕ
  /-- `env.ledger().timestamp()`. -/
  timestamp : ℕ
  /-- The addresses whose `require_auth` passes. -/
  signed : Address → Bool
  /-- The transfers that the token contracts do not refuse. -/
  admits : TokenLedger → TokenTransfer → Bool
  me_unsigned : signed me = false

variable {me : Address}

theorem Env.ne_me_of_signed {env : Env me} {a : Address} (h : env.signed a = true) : a ≠ me := by
  rintro rfl
  simp [env.me_unsigned] at h

/-- The environment at a ledger sequence and timestamp in which the addresses of the list sign and
    the tokens refuse nothing. -/
def Env.signedBy (me : Address) (sequence timestamp : ℕ) (signers : List Address) : Env me where
  sequence := sequence
  timestamp := timestamp
  signed := fun a => decide (a ≠ me ∧ a ∈ signers)
  admits := fun _ _ => true
  me_unsigned := by simp

/-- The conditions under which a conforming token makes the transfer `x`: it is not negative, the
    sender signed it or is the calling contract, the balance covers it, and the token admits it. -/
def Env.Allows (env : Env me) (tokens : TokenLedger) (x : TokenTransfer) : Prop :=
  0 ≤ x.amount ∧ (x.src = me ∨ env.signed x.src = true) ∧
    x.amount ≤ tokens.balance x.token x.src ∧ env.admits tokens x = true

instance (env : Env me) (tokens : TokenLedger) (x : TokenTransfer) :
    Decidable (env.Allows tokens x) := inferInstanceAs (Decidable (_ ∧ _))

/-- The conditions under which conforming tokens make all the transfers, one after the other. -/
def Env.AllowsAll (env : Env me) : TokenLedger → List TokenTransfer → Prop
  | _, [] => True
  | tokens, x :: xs => env.Allows tokens x ∧ env.AllowsAll (tokens.move x) xs

instance (env : Env me) (tokens : TokenLedger) (xs : List TokenTransfer) :
    Decidable (env.AllowsAll tokens xs) := by
  induction xs generalizing tokens with
  | nil => exact inferInstanceAs (Decidable True)
  | cons x xs ih => exact @instDecidableAnd _ _ _ (ih (tokens.move x))

theorem Env.allowsAll_append {env : Env me} {xs ys : List TokenTransfer} {tokens : TokenLedger} :
    env.AllowsAll tokens (xs ++ ys) ↔
      env.AllowsAll tokens xs ∧ env.AllowsAll (tokens.moveAll xs) ys := by
  induction xs generalizing tokens with
  | nil => simp [Env.AllowsAll]
  | cons x xs ih =>
    rw [List.cons_append, Env.AllowsAll, Env.AllowsAll, ih, Ledger.moveAll_cons, and_assoc]

end Trellis
