import Trellis.Shared.Batch

/-!
# The reentrancy guard of the batch executors

The three executors of `shared::batch` invoke contracts, and a contract that they invoke may call
the executors of the same contract again. What an invoked contract does is a tree (`Code`): it
changes what it can reach, tries other contracts, whose failures are rolled back, calls executors,
and returns or fails. The ban that the host itself puts on re-entering a contract is left out.

Results:
* `executeMultiTransfer_conforming`: with a conforming token the executor of transfers is the one of
  `Trellis.Shared.Batch`.
* `execute_congr`: an executor depends on the host only through the invocations that `Invokes`
  names.
* `execute_ok`, `execute_err`, `execute_of_held`: what an executor does with the guard when it
  returns.
* `run_keeps`: whatever a contract does, the guard is in the end as it was.
* `visits_held`: the guard is held wherever an invoked contract calls an executor.
* `guard_law`: these for every tree of calls.
-/

namespace Trellis.Nested

open Exec

variable {me : Address} {S ε α : Type}

/-! ## The executors -/

/-- What the host does when a contract invokes another: the other contract fails, or it returns a
    value, which is `()` or not. -/
abbrev Host (S : Type) : Type := Address → Symbol → List Val → Invocation S Error Bool

/-- Model of `execute_single_transfer` (shared/src/batch.rs:346–382). -/
def executeSingleTransfer (host : Host S) (token caller : Address) (x : BatchTransfer) :
    BatchMode → Invocation S BatchError OperationResult
  | .atomic => do
    let unit ← unwrap .unwrapped
      (host token "transfer" [.address caller, .address x.dst, .i128 x.amount])
    trapIf (unit = false) .unwrapped
    pure .success
  | .nonAtomic => do
    let result ← attempt (host token "transfer" [.address caller, .address x.dst, .i128 x.amount])
    match result with
    | .ok true => pure .success
    | .ok false => pure (.failure Error.invalidAmount.code)
    | .error _ => pure (.failure Error.invalidAmount.code)

/-- Model of `execute_single_invoke` (shared/src/batch.rs:478–510). -/
def executeSingleInvoke (host : Host S) (contract : Address) (func : Symbol) (args : List Val) :
    BatchMode → Invocation S BatchError OperationResult
  | .atomic => do
    let _ ← unwrap .unwrapped (host contract func args)
    pure .success
  | .nonAtomic => do
    let result ← attempt (host contract func args)
    match result with
    | .ok _ => pure .success
    | .error _ => pure (.failure Error.invalidAmount.code)

/-- What a loop does with the result of an operation: it breaks, or it goes on. -/
def record (mode : BatchMode) (t : Tally) : OperationResult → Tally ⊕ Tally
  | .success => .inr t.success
  | .failure code => match mode with
    | .atomic => .inl (t.failure code).revert
    | .nonAtomic => .inr (t.failure code)
  | .skipped => .inr t.skip

/-- The loop that the executors share (shared/src/batch.rs:282–315, 433–453, 582–618). -/
def runOperations (mode : BatchMode) (operation : α → Invocation S BatchError OperationResult) :
    List α → Tally → Invocation S BatchError Tally
  | [], t => pure t
  | x :: xs, t => do
    let result ← operation x
    match record mode t result with
    | .inl t => pure t
    | .inr t => runOperations mode operation xs t

/-- What an executor does before its loop. -/
def enter (config : BatchConfig) (count : ℕ) : Invocation S BatchError Unit := do
  validateConfig config
  failIf (count = 0) .emptyBatch
  failIf (count > config.maxOperations) .batchTooLarge
  acquireReentrancyGuard

/-- What the executors share around their loops. -/
def executeBatch (config : BatchConfig) (count : ℕ) (loop : Invocation S BatchError Tally) :
    Invocation S BatchError BatchResult := do
  enter config count
  let t ← loop
  releaseReentrancyGuard
  publish (batchDoneEvent count t).topics (batchDoneEvent count t).data
  pure (t.toResult count)

/-- An operation of `execute_multi_transfer`: an amount that is not positive fails without a call
    (shared/src/batch.rs:284–292). -/
def transferOperation (host : Host S) (token caller : Address) (mode : BatchMode)
    (x : BatchTransfer) :
    Invocation S BatchError OperationResult :=
  match validateTransfer x with
  | .error e => pure (.failure e.code)
  | .ok () => executeSingleTransfer host token caller x mode

/-- Model of `execute_multi_transfer` (shared/src/batch.rs:253–337). -/
def executeMultiTransfer (host : Host S) (caller token : Address) (transfers : List BatchTransfer)
    (config : BatchConfig) : Invocation S BatchError BatchResult :=
  executeBatch config transfers.length
    (runOperations config.mode (transferOperation host token caller config.mode) transfers .start)

/-- Model of `execute_multi_invoke` (shared/src/batch.rs:408–475). -/
def executeMultiInvoke (host : Host S) (config : BatchConfig)
    (calls : List (Address × Symbol × List Val)) : Invocation S BatchError BatchResult :=
  executeBatch config calls.length
    (runOperations config.mode (fun c => executeSingleInvoke host c.1 c.2.1 c.2.2 config.mode) calls
      .start)

/-- Model of `batch_invoke_no_args` (shared/src/batch.rs:560–638). -/
def batchInvokeNoArgs (host : Host S) (config : BatchConfig) (calls : List (Address × Symbol)) :
    Invocation S BatchError BatchResult :=
  executeBatch config calls.length
    (runOperations config.mode (fun c => executeSingleInvoke host c.1 c.2 [] config.mode)
      calls .start)

/-- A call of an executor. -/
inductive BatchCall where
  | executeMultiTransfer (caller token : Address) (transfers : List BatchTransfer)
      (config : BatchConfig)
  | executeMultiInvoke (config : BatchConfig) (calls : List (Address × Symbol × List Val))
  | batchInvokeNoArgs (config : BatchConfig) (calls : List (Address × Symbol))

namespace BatchCall

def config : BatchCall → BatchConfig
  | .executeMultiTransfer _ _ _ config => config
  | .executeMultiInvoke config _ => config
  | .batchInvokeNoArgs config _ => config

/-- The number of operations. -/
def count : BatchCall → ℕ
  | .executeMultiTransfer _ _ transfers _ => transfers.length
  | .executeMultiInvoke _ calls => calls.length
  | .batchInvokeNoArgs _ calls => calls.length

/-- The loop of the executor. -/
def loop (host : Host S) : BatchCall → Invocation S BatchError Tally
  | .executeMultiTransfer caller token transfers config =>
    runOperations config.mode (transferOperation host token caller config.mode) transfers .start
  | .executeMultiInvoke config calls =>
    runOperations config.mode (fun c => executeSingleInvoke host c.1 c.2.1 c.2.2 config.mode)
      calls .start
  | .batchInvokeNoArgs config calls =>
    runOperations config.mode (fun c => executeSingleInvoke host c.1 c.2 [] config.mode)
      calls .start

def execute (host : Host S) : BatchCall → Invocation S BatchError BatchResult
  | .executeMultiTransfer caller token transfers config =>
    Nested.executeMultiTransfer host caller token transfers config
  | .executeMultiInvoke config calls => Nested.executeMultiInvoke host config calls
  | .batchInvokeNoArgs config calls => Nested.batchInvokeNoArgs host config calls

theorem execute_eq (host : Host S) (call : BatchCall) :
    call.execute host = executeBatch call.config call.count (call.loop host) := by
  cases call <;> rfl

/-- The configuration and the size pass the checks. -/
def Accepted (call : BatchCall) : Prop :=
  1 ≤ call.config.maxOperations ∧ call.config.maxOperations ≤ absoluteMaxBatchSize ∧
    1 ≤ call.count ∧ call.count ≤ call.config.maxOperations

end BatchCall

/-! ## Conforming tokens -/

/-- A host with conforming tokens and nothing else. -/
def conforming (env : Env me) : Host S := fun token func args =>
  match args with
  | [.address src, .address dst, .i128 amount] =>
    if func = "transfer" then do
      transfer env token src dst amount
      pure true
    else abort .refused
  | _ => abort .refused

theorem executeSingleTransfer_conforming (env : Env me) (token caller : Address) (x : BatchTransfer)
    (mode : BatchMode) :
    (executeSingleTransfer (conforming env) token caller x mode : Invocation S BatchError _) =
      Trellis.executeSingleTransfer env token caller x mode := by
  cases mode with
  | atomic =>
    simp only [executeSingleTransfer, Trellis.executeSingleTransfer, conforming, transfer,
      unwrap_bind,
      unwrap_trapIf, unwrap_gets, unwrap_update, unwrap_pure, if_true, bind_bind, pure_bind_eq,
      trapIf_of_not (show ¬ (true = false) by simp)]
  | nonAtomic =>
    simp only [executeSingleTransfer, Trellis.executeSingleTransfer, conforming, attempt_bind_pure,
      if_true, bind_bind, pure_bind_eq]
    congr 1
    funext result
    cases result <;> rfl

theorem runOperations_conforming (env : Env me) (token caller : Address) (mode : BatchMode)
    (xs : List BatchTransfer) (t : Tally) :
    (runOperations mode (transferOperation (conforming env) token caller mode) xs t :
      Invocation S BatchError Tally) = runTransfers env token caller mode xs t := by
  induction xs generalizing t with
  | nil => rfl
  | cons x xs ih =>
    rw [runOperations, runTransfers, transferOperation]
    cases validateTransfer x with
    | error e => cases mode <;> simp [pure_bind_eq, record, ih]
    | ok u =>
      simp only [executeSingleTransfer_conforming]
      congr 1
      funext result
      cases result with
      | success => exact ih _
      | failure code => cases mode <;> simp [record, ih]
      | skipped => exact ih _

/-- With conforming tokens the executor of transfers is `Trellis.executeMultiTransfer`. -/
theorem executeMultiTransfer_conforming (env : Env me) (caller token : Address)
    (transfers : List BatchTransfer) (config : BatchConfig) :
    (executeMultiTransfer (conforming env) caller token transfers config :
      Invocation S BatchError BatchResult) =
        Trellis.executeMultiTransfer env caller token transfers config := by
  rw [executeMultiTransfer, runOperations_conforming]
  simp only [executeBatch, enter, Trellis.executeMultiTransfer, bind_bind]

/-! ## The operations of an executor -/

/-- The guard is held. -/
def locked (w : World S) : Bool := w.shared.batchLock

/-- The operation `x` of the loop begins in the state `w₁`. -/
inductive Performs (mode : BatchMode) (operation : α → Invocation S BatchError OperationResult) :
    List α → Tally → World S → α → World S → Prop
  | here {x : α} {xs : List α} {t : Tally} {w : World S} : Performs mode operation (x :: xs) t w x w
  | later {x y : α} {xs : List α} {t t' : Tally} {w w' w₁ : World S} {result : OperationResult} :
      operation x w = .ok result w' → record mode t result = .inr t' →
      Performs mode operation xs t' w' y w₁ → Performs mode operation (x :: xs) t w y w₁

/-- The executor, called in the state `w`, invokes the function of the contract in the state
    `w₁`. -/
inductive BatchCall.Invokes (host : Host S) (w : World S) :
    BatchCall → Address → Symbol → List Val → World S → Prop
  | transfer {caller token : Address} {transfers : List BatchTransfer} {config : BatchConfig}
      {x : BatchTransfer} {w₀ w₁ : World S} :
      enter config transfers.length w = .ok () w₀ →
      Performs config.mode (transferOperation host token caller config.mode) transfers
        .start w₀ x w₁ →
      0 < x.amount →
      Invokes host w (.executeMultiTransfer caller token transfers config) token "transfer"
        [.address caller, .address x.dst, .i128 x.amount] w₁
  | invoke {config : BatchConfig} {calls : List (Address × Symbol × List Val)}
      {c : Address × Symbol × List Val} {w₀ w₁ : World S} :
      enter config calls.length w = .ok () w₀ →
      Performs config.mode (fun c => executeSingleInvoke host c.1 c.2.1 c.2.2 config.mode)
        calls .start
        w₀ c w₁ →
      Invokes host w (.executeMultiInvoke config calls) c.1 c.2.1 c.2.2 w₁
  | noArgs {config : BatchConfig} {calls : List (Address × Symbol)} {c : Address × Symbol}
      {w₀ w₁ : World S} :
      enter config calls.length w = .ok () w₀ →
      Performs config.mode (fun c => executeSingleInvoke host c.1 c.2 [] config.mode) calls .start
        w₀ c w₁ →
      Invokes host w (.batchInvokeNoArgs config calls) c.1 c.2 [] w₁

section Operations

variable {host host' : Host S}

theorem runOperations_congr {mode : BatchMode}
    {operation operation' : α → Invocation S BatchError OperationResult} {xs : List α} {t : Tally}
    {w : World S}
    (h : ∀ x w₁, Performs mode operation xs t w x w₁ → operation x w₁ = operation' x w₁) :
    runOperations mode operation xs t w = runOperations mode operation' xs t w := by
  induction xs generalizing t w with
  | nil => rfl
  | cons x xs ih =>
    rw [runOperations, runOperations, ← bind_congr_head (h x w .here)]
    apply bind_congr_of_ok
    intro result w' hfirst
    cases hrecord : record mode t result with
    | inl t' => rfl
    | inr t' =>
      apply ih
      intro y w₁ hperforms
      exact h y w₁ (.later hfirst hrecord hperforms)

theorem executeSingleInvoke_congr {contract : Address} {func : Symbol} {args : List Val}
    {w : World S} (h : host contract func args w = host' contract func args w) (mode : BatchMode) :
    executeSingleInvoke host contract func args mode w =
      executeSingleInvoke host' contract func args mode w := by
  cases mode with
  | atomic => exact bind_congr_head (by simp only [unwrap, h])
  | nonAtomic => exact bind_congr_head (by simp only [attempt, h])

theorem transferOperation_congr {token caller : Address} {x : BatchTransfer} {w : World S}
    (h : 0 < x.amount → host token "transfer" [.address caller, .address x.dst, .i128 x.amount] w =
      host' token "transfer" [.address caller, .address x.dst, .i128 x.amount] w)
    (mode : BatchMode) :
    transferOperation host token caller mode x w =
      transferOperation host' token caller mode x w := by
  unfold transferOperation validateTransfer
  split_ifs with hx
  · rfl
  have hcall := h (by omega)
  cases mode with
  | atomic => exact bind_congr_head (by simp only [unwrap, hcall])
  | nonAtomic => exact bind_congr_head (by simp only [attempt, hcall])

/-- Nothing that an executor asks of the host is missing from `Invokes`. -/
theorem execute_congr {call : BatchCall} {w : World S}
    (h : ∀ contract func args w₁, call.Invokes host w contract func args w₁ →
      host contract func args w₁ = host' contract func args w₁) :
    call.execute host w = call.execute host' w := by
  rw [call.execute_eq, call.execute_eq]
  apply bind_congr_of_ok
  intro _ w₀ henter
  apply bind_congr_head
  cases call with
  | executeMultiTransfer caller token transfers config =>
    apply runOperations_congr
    intro x w₁ hperforms
    exact transferOperation_congr (fun hx => h _ _ _ _ (.transfer henter hperforms hx)) _
  | executeMultiInvoke config calls =>
    apply runOperations_congr
    intro c w₁ hperforms
    exact executeSingleInvoke_congr (h _ _ _ _ (.invoke henter hperforms)) _
  | batchInvokeNoArgs config calls =>
    apply runOperations_congr
    intro c w₁ hperforms
    exact executeSingleInvoke_congr (h _ _ _ _ (.noArgs henter hperforms)) _

end Operations

/-! ## Trees of calls -/

/-- A change of the state that leaves the guard alone: only the executors write it. -/
structure Bystander (S : Type) where
  change : World S → World S
  keeps : ∀ w, locked (change w) = locked w

/-- What a contract does when it is invoked. -/
inductive Code (S : Type) where
  /-- It returns, `()` or something else. -/
  | returns (unit : Bool)
  /-- It returns an error, or traps. -/
  | fails (f : Fault Trap Error)
  /-- It changes the state and goes on as the state tells. -/
  | acts (f : Bystander S) (next : World S → Code S)
  /-- It tries a contract and goes on with what comes of that. -/
  | tries (callee : Code S) (next : Except (Fault Trap Error) Bool → Code S)
  /-- It calls an executor, which may invoke any of these contracts, and goes on with the result. -/
  | batch (call : BatchCall) (callees : Address → Symbol → List Val → Code S)
      (next : Except BatchError BatchResult → Code S)

/-- Runs the code. A failure of a contract that is tried is rolled back, and a contract that is
    invoked and not tried is one whose failure the code follows with a trap of its own. A trap of an
    executor, from an operation in atomic mode, is one of the code. -/
def Code.run : Code S → Invocation S Error Bool
  | returns unit => pure unit
  | fails f => fun w => .fail f w
  | acts f next => fun w => (next (f.change w)).run (f.change w)
  | tries callee next => do
    let result ← attempt callee.run
    (next result).run
  | batch call callees next => fun w =>
    match call.execute (fun contract func args => (callees contract func args).run) w with
    | .ok r w' => (next (.ok r)).run w'
    | .fail (.err e) w' => (next (.error e)).run w'
    | .fail (.trap t) w' => .fail (.trap t) w'

/-- A host whose contracts are given by their code. -/
def hostOf (callees : Address → Symbol → List Val → Code S) : Host S :=
  fun contract func args => (callees contract func args).run

/-- A call of an executor in a tree: what it may invoke, and the state in which it is made. -/
structure Visit (S : Type) where
  call : BatchCall
  callees : Address → Symbol → List Val → Code S
  state : World S

/-- The code, run from the state, comes to the call of an executor. -/
inductive Visits : Code S → World S → Visit S → Prop
  | acts {f : Bystander S} {next : World S → Code S} {w : World S} {v : Visit S} :
      Visits (next (f.change w)) (f.change w) v → Visits (.acts f next) w v
  | callee {callee : Code S} {next : Except (Fault Trap Error) Bool → Code S} {w : World S}
      {v : Visit S} : Visits callee w v → Visits (.tries callee next) w v
  | tried {callee : Code S} {next : Except (Fault Trap Error) Bool → Code S} {w w' : World S}
      {r : Except (Fault Trap Error) Bool} {v : Visit S} :
      (attempt callee.run : Invocation S Error _) w = .ok r w' → Visits (next r) w' v →
      Visits (.tries callee next) w v
  | here {call : BatchCall} {callees : Address → Symbol → List Val → Code S}
      {next : Except BatchError BatchResult → Code S} {w : World S} :
      Visits (.batch call callees next) w ⟨call, callees, w⟩
  | inside {call : BatchCall} {callees : Address → Symbol → List Val → Code S}
      {next : Except BatchError BatchResult → Code S} {w w₁ : World S} {contract : Address}
      {func : Symbol} {args : List Val} {v : Visit S} :
      call.Invokes (hostOf callees) w contract func args w₁ →
      Visits (callees contract func args) w₁ v → Visits (.batch call callees next) w v
  | returned {call : BatchCall} {callees : Address → Symbol → List Val → Code S}
      {next : Except BatchError BatchResult → Code S} {w w' : World S} {r : BatchResult}
      {v : Visit S} :
      call.execute (hostOf callees) w = .ok r w' → Visits (next (.ok r)) w' v →
      Visits (.batch call callees next) w v
  | refused {call : BatchCall} {callees : Address → Symbol → List Val → Code S}
      {next : Except BatchError BatchResult → Code S} {w w' : World S} {e : BatchError}
      {v : Visit S} :
      call.execute (hostOf callees) w = .fail (.err e) w' → Visits (next (.error e)) w' v →
      Visits (.batch call callees next) w v

/-! ## Entering and leaving -/

/-- The checks before the loop, in their order. -/
theorem enter_eq (config : BatchConfig) (count : ℕ) (w : World S) :
    enter config count w =
      if config.maxOperations = 0 ∨ config.maxOperations > absoluteMaxBatchSize then
        .fail (.err .invalidConfig) w
      else if count = 0 then .fail (.err .emptyBatch) w
      else if count > config.maxOperations then .fail (.err .batchTooLarge) w
      else if locked w = true then .fail (.err .reentrancyDetected) w
      else .ok () { w with shared := { w.shared with batchLock := true } } := by
  rw [enter, validateConfig, failIf_bind, failIf_bind, failIf_bind]
  congr 3
  show (failIf (locked w = true) BatchError.reentrancyDetected >>= fun _ => _) w = _
  exact failIf_bind

theorem enter_ok {config : BatchConfig} {count : ℕ} {w w' : World S} {u : Unit}
    (h : enter config count w = .ok u w') : locked w = false ∧ locked w' = true := by
  rw [enter_eq] at h
  split_ifs at h with _ _ _ hfree
  cases h
  exact ⟨by simpa using hfree, rfl⟩

theorem enter_err {config : BatchConfig} {count : ℕ} {w w' : World S} {f : Fault Trap BatchError}
    (h : enter config count w = .fail f w') : w' = w := by
  rw [enter_eq] at h
  split_ifs at h <;> cases h <;> rfl

theorem enter_of_held (config : BatchConfig) (count : ℕ) {w : World S} (hheld : locked w = true) :
    ∃ e, enter config count w = .fail (.err e) w := by
  rw [enter_eq]
  split_ifs
  all_goals exact ⟨_, rfl⟩

theorem BatchCall.enter_of_accepted {call : BatchCall} (hok : call.Accepted) {w : World S}
    (hheld : locked w = true) :
    enter call.config call.count w = .fail (.err .reentrancyDetected) w := by
  obtain ⟨hmin, hmax, hone, hsize⟩ := hok
  rw [enter_eq, if_neg (by omega), if_neg (by omega), if_neg (by omega), if_pos hheld]

/-! ## What the operations keep -/

section Keeping

variable {host : Host S} {γ : Type} {f : World S → γ}

theorem executeSingleTransfer_steady
    (hhost : ∀ contract func args, Keeps f (host contract func args)) (token caller : Address)
    (x : BatchTransfer) (mode : BatchMode) :
    Steady f (executeSingleTransfer host token caller x mode) := by
  cases mode with
  | atomic =>
    exact (Steady.unwrap (hhost _ _ _)).bind fun unit => Steady.trapIf.bind fun _ => Steady.pure _
  | nonAtomic =>
    apply (Steady.attempt (hhost _ _ _)).bind
    intro result
    split <;> exact Steady.pure _

theorem executeSingleInvoke_steady (hhost : ∀ contract func args, Keeps f (host contract func args))
    (contract : Address) (func : Symbol) (args : List Val) (mode : BatchMode) :
    Steady f (executeSingleInvoke host contract func args mode) := by
  cases mode with
  | atomic => exact (Steady.unwrap (hhost _ _ _)).bind fun _ => Steady.pure _
  | nonAtomic =>
    apply (Steady.attempt (hhost _ _ _)).bind
    intro result
    split <;> exact Steady.pure _

theorem transferOperation_steady (hhost : ∀ contract func args, Keeps f (host contract func args))
    (token caller : Address) (mode : BatchMode) (x : BatchTransfer) :
    Steady f (transferOperation host token caller mode x) := by
  unfold transferOperation
  split
  · exact Steady.pure _
  · exact executeSingleTransfer_steady hhost token caller x mode

theorem runOperations_steady {mode : BatchMode}
    {operation : α → Invocation S BatchError OperationResult} (hop : ∀ x, Steady f (operation x))
    (xs : List α) (t : Tally) :
    Steady f (runOperations mode operation xs t) := by
  induction xs generalizing t with
  | nil => exact Steady.pure _
  | cons x xs ih =>
    apply (hop x).bind
    intro result
    split
    · exact Steady.pure _
    · exact ih _

/-- Whatever the host does, the loop of an executor returns no error. -/
theorem BatchCall.loop_ne_err (call : BatchCall) {w w' : World S} {e : BatchError} :
    call.loop host w ≠ .fail (.err e) w' := by
  have hhost : ∀ contract func args, Keeps (fun _ => ()) (host contract func args) :=
    fun _ _ _ _ _ _ _ => rfl
  cases call with
  | executeMultiTransfer =>
    exact (runOperations_steady (transferOperation_steady hhost _ _ _) _ _).ne_err w e w'
  | executeMultiInvoke =>
    exact (runOperations_steady (fun _ => executeSingleInvoke_steady hhost _ _ _ _) _ _).ne_err
      w e w'
  | batchInvokeNoArgs =>
    exact (runOperations_steady (fun _ => executeSingleInvoke_steady hhost _ _ _ _) _ _).ne_err
      w e w'

/-- What the operations keep is at each of them what it was before the loop. -/
theorem Performs.keeps {mode : BatchMode} {operation : α → Invocation S BatchError OperationResult}
    (hop : ∀ x, Steady f (operation x)) {xs : List α} {t : Tally} {w w₁ : World S} {x : α}
    (h : Performs mode operation xs t w x w₁) : f w₁ = f w := by
  induction h with
  | here => rfl
  | later hfirst _ _ ih => exact ih.trans ((hop _).keeps _ _ _ hfirst)

end Keeping

/-! ## The executors -/

/-- An error of an executor comes from the checks before its loop. -/
theorem execute_err {host : Host S} {call : BatchCall} {w w' : World S} {e : BatchError}
    (h : call.execute host w = .fail (.err e) w') : w' = w := by
  rw [call.execute_eq, executeBatch, bind_fail] at h
  rcases h with h | ⟨_, w₀, -, h⟩
  · exact enter_err h
  rcases bind_fail.mp h with h | ⟨t, w₁, -, h⟩
  · exact absurd h call.loop_ne_err
  · simp [releaseReentrancyGuard, publish] at h

/-- An executor that returns a result found the guard free, and leaves it free. -/
theorem execute_ok {host : Host S} {call : BatchCall} {w w' : World S} {r : BatchResult}
    (h : call.execute host w = .ok r w') : locked w = false ∧ locked w' = false := by
  rw [call.execute_eq, executeBatch, bind_ok] at h
  obtain ⟨_, w₀, henter, h⟩ := h
  simp only [releaseReentrancyGuard, bind_ok, writeShared_ok, publish_ok, pure_ok] at h
  obtain ⟨t, w₁, -, _, _, rfl, _, _, rfl, -, rfl⟩ := h
  exact ⟨(enter_ok henter).1, rfl⟩

/-- An executor that finds the guard held refuses, and changes nothing. -/
theorem execute_of_held (host : Host S) (call : BatchCall) {w : World S} (hheld : locked w = true) :
    ∃ e, call.execute host w = .fail (.err e) w := by
  obtain ⟨e, he⟩ := enter_of_held call.config call.count hheld
  refine ⟨e, ?_⟩
  rw [call.execute_eq, executeBatch, bind_fail]
  exact .inl he

theorem execute_of_accepted (host : Host S) {call : BatchCall} (hok : call.Accepted) {w : World S}
    (hheld : locked w = true) :
    call.execute host w = .fail (.err .reentrancyDetected) w := by
  rw [call.execute_eq, executeBatch, bind_fail]
  exact .inl (call.enter_of_accepted hok hheld)

theorem BatchCall.Invokes.free {host : Host S} {call : BatchCall} {w w₁ : World S}
    {contract : Address} {func : Symbol} {args : List Val}
    (h : call.Invokes host w contract func args w₁) : locked w = false := by
  cases h with
  | transfer henter => exact (enter_ok henter).1
  | invoke henter => exact (enter_ok henter).1
  | noArgs henter => exact (enter_ok henter).1

/-- The guard is held whenever an executor invokes a contract, if no contract touches it. -/
theorem invokes_held {host : Host S}
    (hhost : ∀ contract func args, Keeps locked (host contract func args)) {call : BatchCall}
    {w w₁ : World S} {contract : Address} {func : Symbol} {args : List Val}
    (h : call.Invokes host w contract func args w₁) : locked w₁ = true := by
  cases h with
  | transfer henter hperforms =>
    exact (hperforms.keeps (transferOperation_steady hhost _ _ _)).trans (enter_ok henter).2
  | invoke henter hperforms =>
    exact (hperforms.keeps fun c => executeSingleInvoke_steady hhost _ _ _ _).trans
      (enter_ok henter).2
  | noArgs henter hperforms =>
    exact (hperforms.keeps fun c => executeSingleInvoke_steady hhost _ _ _ _).trans
      (enter_ok henter).2

/-! ## Trees -/

/-- Whatever a contract does, the guard is in the end as it was. The induction is on the code: an
    executor that returns a result found the guard free and left it free, one that refuses changed
    nothing, and what a failure undoes is as it was. -/
theorem run_keeps (c : Code S) : Keeps locked c.run := by
  induction c with
  | returns unit => exact Keeps.pure _
  | fails f =>
    intro w a w' h
    cases h
  | acts f next ih =>
    intro w a w' h
    exact (ih _ _ _ _ h).trans (f.keeps w)
  | tries callee next ihcallee ihnext => exact (Steady.attempt ihcallee).keeps.bind ihnext
  | batch call callees next _ ihnext =>
    intro w a w' h
    unfold Code.run at h
    split at h
    case h_1 r w₁ hexecute =>
      obtain ⟨hfree, hfree₁⟩ := execute_ok hexecute
      rw [ihnext _ _ _ _ h, hfree, hfree₁]
    case h_2 e w₁ hexecute => rw [ihnext _ _ _ _ h, execute_err hexecute]
    case h_3 => cases h

/-- Wherever a call of an executor is reached from a state with the guard held, it is held. -/
theorem visits_held {c : Code S} {w : World S} {v : Visit S} (h : Visits c w v)
    (hheld : locked w = true) : locked v.state = true := by
  induction h with
  | acts _ ih => exact ih ((Bystander.keeps _ _).trans hheld)
  | callee _ ih => exact ih hheld
  | tried hrun _ ih => exact ih (((Steady.attempt (run_keeps _)).keeps _ _ _ hrun).trans hheld)
  | here => exact hheld
  | inside hinvokes _ ih => exact ih (invokes_held (fun _ _ _ => run_keeps _) hinvokes)
  | returned hexecute _ _ => exact absurd (execute_ok hexecute).1 (by simp [hheld])
  | refused hexecute _ ih => exact ih (by rw [execute_err hexecute, hheld])

/-! ## The law -/

/-- For every call of an executor, whatever the contracts do that it may invoke. While it runs the
    guard is held wherever one of them calls an executor again, at any depth, and that call refuses
    with `ReentrancyDetected`, if its checks pass, and invokes nothing, so that it ends alike
    whatever the contracts do. An executor that starts with the guard free leaves it free, and one
    that finds it held leaves everything as it is. -/
theorem guard_law (call : BatchCall) (callees : Address → Symbol → List Val → Code S)
    (w : World S) :
    (∀ contract func args w₁ v, call.Invokes (hostOf callees) w contract func args w₁ →
      Visits (callees contract func args) w₁ v →
        locked v.state = true ∧
        (v.call.Accepted → v.call.execute (hostOf v.callees) v.state =
          .fail (.err .reentrancyDetected) v.state) ∧
        (∀ contract func args w₂,
          ¬ v.call.Invokes (hostOf v.callees) v.state contract func args w₂) ∧
        ∀ host : Host S, v.call.execute host v.state = v.call.execute (hostOf v.callees) v.state) ∧
    (locked w = false →
      (∀ r w', call.execute (hostOf callees) w = .ok r w' → locked w' = false) ∧
      ∀ e w', call.execute (hostOf callees) w = .fail (.err e) w' → locked w' = false) ∧
    (locked w = true → ∃ e, call.execute (hostOf callees) w = .fail (.err e) w) := by
  refine ⟨?_, ?_, execute_of_held _ call⟩
  · intro contract func args w₁ v hinvokes hvisits
    have hheld : locked v.state = true :=
      visits_held hvisits (invokes_held (fun _ _ _ => run_keeps _) hinvokes)
    have hinvokesNone : ∀ contract func args w₂,
        ¬ v.call.Invokes (hostOf v.callees) v.state contract func args w₂ := by
      intro _ _ _ w₂ hnested
      rw [hnested.free] at hheld
      cases hheld
    refine ⟨hheld, fun hok => execute_of_accepted _ hok hheld, hinvokesNone, fun host => ?_⟩
    exact (execute_congr fun _ _ _ _ hnested => absurd hnested (hinvokesNone _ _ _ _)).symm
  · intro hfree
    refine ⟨fun r w' h => (execute_ok h).2, ?_⟩
    intro e w' h
    rw [execute_err h, hfree]

/-- A batch of calls of `pause`. -/
def pauses : BatchCall := .batchInvokeNoArgs ⟨.atomic, 2⟩ [(⟨7⟩, "pause")]

/-- A contract that makes the batch, and fails if it is refused. -/
def relay : Code Unit :=
  .batch pauses (fun _ _ _ => .returns true) fun
    | .ok _ => .returns true
    | .error _ => .fails (.err .unauthorized)

/-- A batch of one call, of the contract at ⟨3⟩, which relays. -/
def relays : BatchCall := .executeMultiInvoke ⟨.nonAtomic, 5⟩ [(⟨3⟩, "relay", [])]

/-- The contract that relays is refused. -/
theorem guard_law_relay :
    let w : World Unit := .deployed () (.ofList [])
    let w₁ : World Unit := { w with shared := { w.shared with batchLock := true } }
    pauses.execute (hostOf fun _ _ _ => .returns true) w₁ = .fail (.err .reentrancyDetected) w₁ :=
  ((guard_law relays (fun _ _ _ => relay) (.deployed () (.ofList []))).1 ⟨3⟩ "relay" [] _ _
    (.invoke rfl .here) .here).2.1 ⟨by decide, by decide, by decide, by decide⟩

example : (relays.execute (hostOf fun _ _ _ => relay)).value (.deployed () (.ofList [])) =
    some ⟨[.failure Error.invalidAmount.code], 1, 0, 1, false⟩ := by
  decide +kernel

end Trellis.Nested
