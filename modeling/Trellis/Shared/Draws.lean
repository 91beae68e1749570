import Trellis.Shared.Auth
import Trellis.Shared.Batch
import Trellis.Shared.Payments

/-!
# Which tokens an invocation can move

`Draws env x` says that every success of `x` moves the tokens by transfers that `env` allows, one
after the other: each is made from the calling contract or with the signature of its sender, and is
covered. It is a class, so that it is found for an entry point from the parts the entry point is
built of.

Results:
* `Draws.bind`, `Draws.transfer` and their siblings: the rules, one for each building block.
* `Draws.commit`: the transfers of a call that is committed or rolled back.
-/

namespace Trellis

open Exec

variable {me : Address} {S ε ε' α β : Type}

/-- Every success of `x` moves the tokens by a list of transfers that `env` allows. -/
class Draws (env : Env me) (x : Invocation S ε α) : Prop where
  allowed : ∀ {w a w'}, x w = .ok a w' →
    ∃ xs, env.AllowsAll w.tokens xs ∧ w'.tokens = w.tokens.moveAll xs

variable {env : Env me}

theorem Draws.of_keeps {x : Invocation S ε α} (h : Keeps World.tokens x) : Draws env x where
  allowed hok := ⟨[], trivial, h _ _ _ hok⟩

theorem Draws.of_same {x : Invocation S ε α} (h : ∀ {w a w'}, x w = .ok a w' → w' = w) :
    Draws env x :=
  .of_keeps fun _ _ _ hok => congrArg World.tokens (h hok)

theorem Draws.andThen {x : Invocation S ε α} {y : α → Invocation S ε β} (hx : Draws env x)
    (hy : ∀ a, Draws env (y a)) : Draws env (x >>= y) where
  allowed hok := by
    obtain ⟨a, w₁, h₁, h₂⟩ := bind_ok.mp hok
    obtain ⟨xs, hxs, hw₁⟩ := hx.allowed h₁
    obtain ⟨ys, hys, hw'⟩ := (hy a).allowed h₂
    refine ⟨xs ++ ys, Env.allowsAll_append.mpr ⟨hxs, ?_⟩, ?_⟩
    · rwa [← hw₁]
    · rw [hw', hw₁, Ledger.moveAll_append]

instance Draws.bind {x : Invocation S ε α} {y : α → Invocation S ε β} [hx : Draws env x]
    [hy : ∀ a, Draws env (y a)] : Draws env (x >>= y) :=
  hx.andThen hy

/-- What follows a computation that returns nothing does not depend on it. -/
instance (priority := high) Draws.seq {x : Invocation S ε Unit} {y : Unit → Invocation S ε β}
    [hx : Draws env x] [hy : Draws env (y ())] : Draws env (x >>= y) :=
  hx.andThen fun _ => hy

instance Draws.pure (a : α) : Draws env (pure a : Invocation S ε α) :=
  .of_same fun h => (pure_ok.mp h).2

instance Draws.failIf {c : Prop} [Decidable c] {e : ε} :
    Draws env (failIf c e : Invocation S ε Unit) :=
  .of_same fun h => (failIf_ok.mp h).2

instance Draws.trapIf {c : Prop} [Decidable c] {t : Trap} :
    Draws env (trapIf c t : Invocation S ε Unit) :=
  .of_same fun h => (trapIf_ok.mp h).2

instance Draws.throwErr {e : ε} : Draws env (throwErr e : Invocation S ε α) :=
  .of_same fun h => absurd h throwErr_ok

instance Draws.okOr {o : Option α} {e : ε} : Draws env (okOr o e : Invocation S ε α) :=
  .of_same fun h => (okOr_ok.mp h).2

instance Draws.expect {o : Option α} {t : Trap} : Draws env (expect o t : Invocation S ε α) :=
  .of_same fun h => (expect_ok.mp h).2

instance Draws.ofExcept {r : Except ε α} : Draws env (ofExcept r : Invocation S ε α) :=
  .of_same fun h => (ofExcept_ok.mp h).2

instance Draws.requireAuth {env' : Env me} {addr : Address} :
    Draws env (requireAuth env' addr : Invocation S ε Unit) :=
  .of_same fun h => (requireAuth_ok.mp h).2

instance Draws.read {f : S → α} : Draws env (read f : Invocation S ε α) :=
  .of_same fun h => (read_ok.mp h).2

instance Draws.readShared {f : SharedStore → α} :
    Draws env (readShared f : Invocation S ε α) :=
  .of_same fun h => (readShared_ok.mp h).2

instance Draws.write {f : S → S} : Draws env (write f : Invocation S ε Unit) :=
  .of_keeps fun _ _ _ h => by rw [write_ok.mp h]

instance Draws.writeShared {f : SharedStore → SharedStore} :
    Draws env (writeShared f : Invocation S ε Unit) :=
  .of_keeps fun _ _ _ h => by rw [writeShared_ok.mp h]

instance Draws.publish {topics : List Symbol} {data : List Val} :
    Draws env (publish topics data : Invocation S ε Unit) :=
  .of_keeps fun _ _ _ h => by rw [publish_ok.mp h]

/-- A transfer draws the amount. -/
instance Draws.transfer {token src dst : Address} {amount : ℤ} :
    Draws env (transfer env token src dst amount : Invocation S ε Unit) where
  allowed hok := by
    obtain ⟨hallows, rfl⟩ := transfer_ok.mp hok
    exact ⟨[⟨token, src, dst, amount⟩], ⟨hallows, trivial⟩, rfl⟩

instance Draws.onlyIf {c : Prop} [Decidable c] {x : Invocation S ε Unit} [hx : Draws env x] :
    Draws env (onlyIf c x) where
  allowed hok := by
    rcases onlyIf_ok.mp hok with ⟨-, h⟩ | ⟨-, rfl⟩
    · exact hx.allowed h
    · exact ⟨[], trivial, rfl⟩

instance Draws.ite {c : Prop} [Decidable c] {x y : Invocation S ε α} [hx : Draws env x]
    [hy : Draws env y] : Draws env (if c then x else y) where
  allowed hok := by
    rcases ite_ok.mp hok with ⟨-, h⟩ | ⟨-, h⟩
    · exact hx.allowed h
    · exact hy.allowed h

instance Draws.mapErr {g : ε → ε'} {x : Invocation S ε α} [hx : Draws env x] :
    Draws env (mapErr g x) where
  allowed hok := hx.allowed (mapErr_ok.mp hok)

instance Draws.unwrap {t : Trap} {x : Invocation S ε α} [hx : Draws env x] :
    Draws env (unwrap t x : Invocation S ε' α) where
  allowed hok := hx.allowed (unwrap_ok.mp hok)

/-- A failing sub-invocation is rolled back. -/
instance Draws.attempt {x : Invocation S ε α} [hx : Draws env x] :
    Draws env (attempt x : Invocation S ε' (Except (Fault Trap ε) α)) where
  allowed {w a w'} hok := by
    unfold Exec.attempt at hok
    split at hok
    case h_1 b w₁ h =>
      cases hok
      exact hx.allowed h
    case h_2 e w₁ h =>
      cases hok
      exact ⟨[], trivial, rfl⟩

/-- The transfers of a call that is committed or rolled back. -/
theorem Draws.commit (x : Invocation S ε α) [hx : Draws env x] (w : World S) :
    ∃ xs, env.AllowsAll w.tokens xs ∧ (x.commit w).tokens = w.tokens.moveAll xs :=
  commit_induct (P := fun w' : World S => ∃ xs, env.AllowsAll w.tokens xs ∧
    w'.tokens = w.tokens.moveAll xs) ⟨[], trivial, rfl⟩ fun _ _ => hx.allowed

/-! ## The shared crate -/

instance Draws.setAdmin {admin : Address} : Draws env (setAdmin admin : Invocation S ε Unit) := by
  unfold Trellis.setAdmin
  infer_instance

instance Draws.getAdmin : Draws env (getAdmin : Invocation S ε Address) := by
  unfold Trellis.getAdmin
  infer_instance

instance Draws.isPaused : Draws env (isPaused : Invocation S ε Bool) := by
  unfold Trellis.isPaused
  infer_instance

instance Draws.setPausedFlag {paused : Bool} :
    Draws env (setPausedFlag paused : Invocation S ε Unit) := by
  unfold Trellis.setPausedFlag
  infer_instance

instance Draws.requireAdmin {env' : Env me} {caller : Address} :
    Draws env (requireAdmin env' caller : Invocation S Error Unit) := by
  unfold Trellis.requireAdmin
  infer_instance

instance Draws.emit {topic : Symbol} {data : List Val} :
    Draws env (emit topic data : Invocation S ε Unit) := by
  unfold Trellis.emit
  infer_instance

instance Draws.emitModuleInitialized {module : Symbol} {version : ℕ} {caller : Address} {at' : ℕ} :
    Draws env (emitModuleInitialized module version caller at' : Invocation S ε Unit) := by
  unfold Trellis.emitModuleInitialized
  infer_instance

instance Draws.emitActionExecuted {module action : Symbol} {caller : Address} {success : Bool}
    {at' : ℕ} :
    Draws env (emitActionExecuted module action caller success at' : Invocation S ε Unit) := by
  unfold Trellis.emitActionExecuted
  infer_instance

instance Draws.safeTransferFromContract {token dst : Address} {amount : ℤ} :
    Draws env (safeTransferFromContract env token dst amount : Invocation S Error Unit) := by
  unfold Trellis.safeTransferFromContract
  infer_instance

instance Draws.createEscrow {token depositor beneficiary : Address} {amount : ℤ} {expiry : ℕ} :
    Draws env (createEscrow env token depositor beneficiary amount expiry :
      Invocation S Error ℕ) := by
  unfold Trellis.createEscrow nextEscrowId storeEscrow
  infer_instance

instance Draws.releaseEscrow {token : Address} {id : ℕ} :
    Draws env (releaseEscrow env token id : Invocation S Error Unit) := by
  unfold Trellis.releaseEscrow removeFromActive
  infer_instance

instance Draws.refundEscrow {token : Address} {id : ℕ} :
    Draws env (refundEscrow env token id : Invocation S Error Unit) := by
  unfold Trellis.refundEscrow removeFromActive
  infer_instance

end Trellis
