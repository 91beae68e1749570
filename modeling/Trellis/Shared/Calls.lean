import Trellis.Shared.World

/-!
# Calls of other contracts

`env.try_invoke_contract` hands control to another contract. What that contract does is a function
of the state of the other contracts, `X`, and is a parameter of every call; the host undoes what a
failed callee did and lets no callee re-enter its caller, so that it changes nothing else.

Results:
* `tryInvoke_ok`: the result of a call and the state it leaves.
* `leftBy_value`: what a callee that returns a value does stands.
* `asCallee_value`: a contract of this development as the callee.
-/

namespace Trellis

/-- What `try_invoke_contract::<α, ε>` returns. -/
inductive CallResult (ε α : Type) where
  /-- `Ok(Ok(a))`. -/
  | value (a : α)
  /-- `Ok(Err(_))`: the callee returned something else than an `α`. -/
  | mistyped
  /-- `Err(Ok(e))`: the callee failed with an error of the expected kind. -/
  | error (e : ε)
  /-- `Err(Err(_))`: the callee failed in another way. -/
  | failed
  deriving DecidableEq, Repr

/-- The callee returned, so that what it did stands. -/
def CallResult.returned {ε α : Type} : CallResult ε α → Bool
  | .value _ | .mistyped => true
  | .error _ | .failed => false

/-- The storage `S` of a contract beside the state `X` of the contracts it calls. -/
structure Linked (S X : Type) where
  own : S
  others : X

variable {S X ε : Type}

open Exec

/-- Reads the contract's own storage. -/
def readOwn {α : Type} (f : S → α) : Invocation (Linked S X) ε α := read fun s => f s.own

/-- Writes the contract's own storage. -/
def writeOwn (f : S → S) : Invocation (Linked S X) ε Unit :=
  write fun s => { s with own := f s.own }

/-- `env.try_invoke_contract(..)`. -/
def tryInvoke {ε' α : Type} (call : X → CallResult ε' α × X) :
    Invocation (Linked S X) ε (CallResult ε' α) := do
  let others ← read Linked.others
  let result := call others
  onlyIf (result.1.returned = true) (write fun s => { s with others := result.2 })
  pure result.1

/-- What the callee leaves behind: nothing if it failed. -/
def leftBy {ε α : Type} (call : X → CallResult ε α × X) (others : X) : X :=
  if (call others).1.returned = true then (call others).2 else others

/-- An entry point of another contract as its caller sees it: the host undoes what a failure did. -/
def asCallee {W α : Type} (x : Exec W Trap ε α) (w : W) : CallResult ε α × W :=
  match x w with
  | .ok a w' => (.value a, w')
  | .fail (.err e) _ => (.error e, w)
  | .fail (.trap _) _ => (.failed, w)

/-- The environment of `callee` when the contract at `me` calls it: the direct caller has authorised
    the call. -/
def Env.invoke {me : Address} (env : Env me) (callee : Address) : Env callee where
  sequence := env.sequence
  timestamp := env.timestamp
  signed := fun a => decide (a ≠ callee ∧ (a = me ∨ env.signed a = true))
  admits := env.admits
  me_unsigned := by simp

/-- The callee returns a value exactly when its entry point succeeds with it. -/
theorem asCallee_value {W α : Type} {x : Exec W Trap ε α} {w w' : W} {a : α} :
    asCallee x w = (.value a, w') ↔ x w = .ok a w' := by
  unfold asCallee
  rcases x w with ⟨a', s⟩ | ⟨e | t, s⟩ <;> simp

@[simp] theorem readOwn_ok {α : Type} {f : S → α} {w w' : World (Linked S X)} {a : α} :
    (readOwn f : Invocation (Linked S X) ε α) w = .ok a w' ↔ a = f w.store.own ∧ w' = w := by
  simp [readOwn]

@[simp] theorem writeOwn_ok {f : S → S} {w w' : World (Linked S X)} {u : Unit} :
    (writeOwn f : Invocation (Linked S X) ε Unit) w = .ok u w' ↔
      w' = { w with store := { w.store with own := f w.store.own } } := by
  simp [writeOwn]

@[simp] theorem tryInvoke_ok {ε' α : Type} {call : X → CallResult ε' α × X}
    {w w' : World (Linked S X)} {r : CallResult ε' α} :
    (tryInvoke call : Invocation (Linked S X) ε (CallResult ε' α)) w = .ok r w' ↔
      r = (call w.store.others).1 ∧
        w' = { w with store := { w.store with others := leftBy call w.store.others } } := by
  unfold leftBy
  by_cases hreturned : (call w.store.others).1.returned = true <;>
    simp [tryInvoke, hreturned, and_comm]

/-- A call that returns a value of the expected type. -/
theorem leftBy_value {ε α : Type} {call : X → CallResult ε α × X} {others : X} {a : α}
    (h : (call others).1 = .value a) : call others = (.value a, leftBy call others) := by
  have hreturned : (call others).1.returned = true := by
    rw [h]
    rfl
  rw [leftBy, if_pos hreturned, ← h]

end Trellis
