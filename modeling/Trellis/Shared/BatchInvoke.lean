import Trellis.Shared.BatchAccounting
import Trellis.Shared.Calls

/-!
# Batches of invocations

Model of the two generic executors of `shared::batch` (shared/src/batch.rs:408–510, 560–638).
`batch_invoke_no_args` repeats the body of `execute_multi_invoke` and of `execute_single_invoke`
with an empty list of arguments; it is translated by itself. The contracts that they invoke are a
parameter: one of them returns a value, fails with an error of its own, or aborts, depending on the
state it is invoked in.

Results:
* `batchInvokeLoop_eq`: the two loops agree.
* `batchInvokeNoArgs_refines`: so do the two executors.
* `multiInvokeLoop_nonAtomic`, `multiInvokeLoop_atomic_ok`: what the loop does in the two modes.
* `invoke_truthful`: the results of both executors say truly which invocations returned.
* `nested_executors`: the executors are those of `Trellis.Nested`.
-/

namespace Trellis.Invoke

open Exec

variable {S V ε : Type}

/-! ## Invoking a contract -/

/-- What the contracts do when they are invoked. An error of a contract is given by its code. -/
abbrev Contracts (S V : Type) : Type := Address → Symbol → List Val → Exec (World S) Trap ℕ V

/-- The codes of `shared::errors::Error` (shared/src/errors.rs:10–117). -/
def knownCode (code : ℕ) : Bool :=
  (1 ≤ code && code ≤ 19) || (700 ≤ code && code ≤ 710) || (900 ≤ code && code ≤ 910) ||
    (1000 ≤ code && code ≤ 1008)

/-- The result of `try_invoke_contract::<Val, Error>`: every value is a `Val`, and the code of an
    error may be none of `Error`. -/
def classify : Except (Fault Trap ℕ) V → CallResult ℕ V
  | .ok v => .value v
  | .error (.err code) => if knownCode code then .error code else .failed
  | .error (.trap _) => .failed

variable (host : Contracts S V)

/-- `env.invoke_contract(..)`: a failure aborts. -/
def invokeContract (contract : Address) (func : Symbol) (args : List Val) : Invocation S ε V :=
  unwrap .unwrapped (host contract func args)

/-- `env.try_invoke_contract(..)`: a failure is rolled back. -/
def tryInvokeContract (contract : Address) (func : Symbol) (args : List Val) :
    Invocation S ε (CallResult ℕ V) := do
  let result ← attempt (host contract func args)
  pure (classify result)

/-! ## The executors -/

/-- Model of `execute_single_invoke` (shared/src/batch.rs:478–510). -/
def executeSingleInvoke (contract : Address) (func : Symbol) (args : List Val) :
    BatchMode → Invocation S BatchError OperationResult
  | .atomic => do
    let _ ← invokeContract host contract func args
    pure .success
  | .nonAtomic => do
    let result ← tryInvokeContract host contract func args
    match result with
    | .value _ | .mistyped => pure .success
    | .error _ | .failed => pure (.failure Error.invalidAmount.code)

/-- The loop of `execute_multi_invoke` (shared/src/batch.rs:433–453). -/
def multiInvokeLoop (mode : BatchMode) :
    List (Address × Symbol × List Val) → Tally → Invocation S BatchError Tally
  | [], t => pure t
  | (contract, func, args) :: calls, t => do
    let callResult ← executeSingleInvoke host contract func args mode
    match callResult with
    | .success => multiInvokeLoop mode calls t.success
    | .failure code =>
      if mode = .atomic then pure (t.failure code).revert
      else multiInvokeLoop mode calls (t.failure code)
    | .skipped => multiInvokeLoop mode calls t.skip

/-- Model of `execute_multi_invoke` (shared/src/batch.rs:408–475). -/
def executeMultiInvoke (config : BatchConfig) (calls : List (Address × Symbol × List Val)) :
    Invocation S BatchError BatchResult := do
  validateConfig config
  failIf (calls.length = 0) .emptyBatch
  failIf (calls.length > config.maxOperations) .batchTooLarge
  acquireReentrancyGuard
  let t ← multiInvokeLoop host config.mode calls .start
  releaseReentrancyGuard
  if t.reverted then
    emit batchCompleted [.u32 calls.length, .u32 t.succeeded, .u32 t.failed, .bool true]
  else if t.failed > 0 then
    emit batchPartial [.u32 calls.length, .u32 t.succeeded, .u32 t.failed]
  else
    emit batchCompleted [.u32 calls.length, .u32 t.succeeded, .u32 t.failed, .bool false]
  pure ⟨t.results, calls.length, t.succeeded, t.failed, t.reverted⟩

/-- The loop of `batch_invoke_no_args` (shared/src/batch.rs:582–618), with the invocation in it. -/
def batchInvokeLoop (mode : BatchMode) :
    List (Address × Symbol) → Tally → Invocation S BatchError Tally
  | [], t => pure t
  | (contract, func) :: calls, t => do
    let call : Invocation S BatchError OperationResult := match mode with
      | .atomic => do
        let _ ← invokeContract host contract func []
        pure .success
      | .nonAtomic => do
        let result ← tryInvokeContract host contract func []
        match result with
        | .value _ | .mistyped => pure .success
        | .error _ | .failed => pure (.failure Error.invalidAmount.code)
    let callResult ← call
    match callResult with
    | .success => batchInvokeLoop mode calls t.success
    | .failure code =>
      if mode = .atomic then pure (t.failure code).revert
      else batchInvokeLoop mode calls (t.failure code)
    | .skipped => batchInvokeLoop mode calls t.skip

/-- Model of `batch_invoke_no_args` (shared/src/batch.rs:560–638). -/
def batchInvokeNoArgs (config : BatchConfig) (calls : List (Address × Symbol)) :
    Invocation S BatchError BatchResult := do
  validateConfig config
  failIf (calls.length = 0) .emptyBatch
  failIf (calls.length > config.maxOperations) .batchTooLarge
  acquireReentrancyGuard
  let t ← batchInvokeLoop host config.mode calls .start
  releaseReentrancyGuard
  if t.reverted then
    emit batchCompleted [.u32 calls.length, .u32 t.succeeded, .u32 t.failed, .bool true]
  else if t.failed > 0 then
    emit batchPartial [.u32 calls.length, .u32 t.succeeded, .u32 t.failed]
  else
    emit batchCompleted [.u32 calls.length, .u32 t.succeeded, .u32 t.failed, .bool false]
  pure ⟨t.results, calls.length, t.succeeded, t.failed, t.reverted⟩

/-! ## One executor by the other -/

variable {host}

/-- The call without arguments. -/
def noArgs (c : Address × Symbol) : Address × Symbol × List Val := (c.1, c.2, [])

theorem batchInvokeLoop_eq (mode : BatchMode) (calls : List (Address × Symbol)) (t : Tally) :
    batchInvokeLoop host mode calls t = multiInvokeLoop host mode (calls.map noArgs) t := by
  induction calls generalizing t with
  | nil => rfl
  | cons c calls ih =>
    obtain ⟨contract, func⟩ := c
    rw [List.map_cons, noArgs, multiInvokeLoop]
    -- in both modes the invocation in the loop is `executeSingleInvoke` without arguments
    cases mode with
    | atomic =>
      rw [batchInvokeLoop]
      show (executeSingleInvoke host contract func [] .atomic >>= _) = _ >>= _
      congr 1
      funext r
      cases r with
      | success => exact ih _
      | failure code => rfl
      | skipped => exact ih _
    | nonAtomic =>
      rw [batchInvokeLoop]
      show (executeSingleInvoke host contract func [] .nonAtomic >>= _) = _ >>= _
      congr 1
      funext r
      cases r with
      | success => exact ih _
      | failure code => exact ih _
      | skipped => exact ih _

/-! ## The operations of a batch -/

variable (host) in
/-- What a call leaves when a failure is rolled back. -/
def settle (c : Address × Symbol × List Val) (w : World S) : World S :=
  (host c.1 c.2.1 c.2.2).commit w

variable (host) in
/-- The result of a call in a loop that goes on. -/
def callResult (c : Address × Symbol × List Val) (w : World S) : OperationResult :=
  match host c.1 c.2.1 c.2.2 w with
  | .ok _ _ => .success
  | .fail _ _ => .failure Error.invalidAmount.code

variable (host) in
/-- The results of the calls, each in the state that those before it leave. -/
def callResults (calls : List (Address × Symbol × List Val)) (w : World S) : List OperationResult :=
  (trace (settle host) w calls).map fun p => callResult host p.2 p.1

theorem callResult_success {c : Address × Symbol × List Val} {w : World S} :
    callResult host c w = .success ↔ (host c.1 c.2.1 c.2.2).Succeeds w := by
  unfold callResult Succeeds
  cases host c.1 c.2.1 c.2.2 w <;> simp

/-- In non-atomic mode a call stands, or fails and is rolled back; an error of any code fails. -/
theorem executeSingleInvoke_nonAtomic (c : Address × Symbol × List Val) (w : World S) :
    executeSingleInvoke host c.1 c.2.1 c.2.2 .nonAtomic w =
      .ok (callResult host c w) (settle host c w) := by
  show ((attempt (host c.1 c.2.1 c.2.2) >>= fun result => pure (classify result)) >>= fun result =>
    match result with
    | .value _ | .mistyped => pure OperationResult.success
    | .error _ | .failed => pure (OperationResult.failure Error.invalidAmount.code) :
      Invocation S BatchError _) w = _
  rw [bind_bind]
  cases hcall : host c.1 c.2.1 c.2.2 w with
  | ok v w' =>
    have hattempt : (attempt (host c.1 c.2.1 c.2.2) : Invocation S BatchError _) w =
        .ok (.ok v) w' := by
      rw [attempt, hcall]
    rw [bind_of_ok hattempt, callResult, settle, commit, hcall]
    rfl
  | fail f w' =>
    have hattempt : (attempt (host c.1 c.2.1 c.2.2) : Invocation S BatchError _) w =
        .ok (.error f) w := by
      rw [attempt, hcall]
    rw [bind_of_ok hattempt, callResult, settle, commit, hcall]
    cases f with
    | trap trap => rfl
    | err code =>
      -- the code may be one of the shared errors or none; both are failures
      show (match (if knownCode code then CallResult.error code
        else CallResult.failed : CallResult ℕ V) with
        | .value _ | .mistyped => pure OperationResult.success
        | .error _ | .failed => pure (OperationResult.failure Error.invalidAmount.code) :
          Invocation S BatchError _) w = _
      split_ifs <;> rfl

theorem executeSingleInvoke_atomic_ok {c : Address × Symbol × List Val} {w w' : World S}
    {r : OperationResult} (h : executeSingleInvoke host c.1 c.2.1 c.2.2 .atomic w = .ok r w') :
    r = .success ∧ callResult host c w = .success ∧ w' = settle host c w := by
  simp only [executeSingleInvoke, invokeContract, bind_ok, unwrap_ok, pure_ok] at h
  obtain ⟨v, w₁, hcall, rfl, rfl⟩ := h
  refine ⟨rfl, callResult_success.mpr ⟨v, w', hcall⟩, ?_⟩
  rw [settle, commit_of_ok hcall]

/-! ## The loop -/

/-- In non-atomic mode the loop ends, whatever the contracts do. -/
theorem multiInvokeLoop_nonAtomic (calls : List (Address × Symbol × List Val)) (t : Tally)
    (w : World S) :
    multiInvokeLoop host .nonAtomic calls t w =
      .ok (t.addAll (callResults host calls w)) (run (settle host) w calls) := by
  induction calls generalizing t w with
  | nil => rfl
  | cons c calls ih =>
    rw [multiInvokeLoop, bind_of_ok (executeSingleInvoke_nonAtomic c w)]
    have hcons : callResults host (c :: calls) w =
        callResult host c w :: callResults host calls (settle host c w) := rfl
    rw [hcons, run_cons]
    cases callResult host c w with
    | success => exact ih _ _
    | failure code => exact ih _ _
    | skipped => exact ih _ _

/-- When the loop ends in atomic mode, every call has returned. -/
theorem multiInvokeLoop_atomic_ok {calls : List (Address × Symbol × List Val)} {t t' : Tally}
    {w w' : World S} (h : multiInvokeLoop host .atomic calls t w = .ok t' w') :
    t' = t.addAll (callResults host calls w) ∧ w' = run (settle host) w calls ∧
      ∀ r ∈ callResults host calls w, r = .success := by
  induction calls generalizing t w with
  | nil =>
    obtain ⟨rfl, rfl⟩ := pure_ok.mp h
    exact ⟨rfl, rfl, fun r hr => absurd hr List.not_mem_nil⟩
  | cons c calls ih =>
    obtain ⟨r, w₁, hcall, hrest⟩ := bind_ok.mp h
    obtain ⟨rfl, hresult, rfl⟩ := executeSingleInvoke_atomic_ok hcall
    obtain ⟨ht, hw, hall⟩ := ih hrest
    have hcons : callResults host (c :: calls) w =
        callResult host c w :: callResults host calls (settle host c w) := rfl
    rw [hcons, hresult]
    refine ⟨ht, hw, ?_⟩
    rw [List.forall_mem_cons]
    exact ⟨rfl, hall⟩

/-! ## The executors -/

/-- The executor is its loop between the checks and the end that all executors share. -/
theorem executeMultiInvoke_eq (config : BatchConfig) (calls : List (Address × Symbol × List Val)) :
    executeMultiInvoke host config calls =
      Nested.executeBatch config calls.length (multiInvokeLoop host config.mode calls .start) := by
  simp only [executeMultiInvoke, Nested.executeBatch, Nested.enter, bind_bind]
  iterate 6 (congr 1; funext _)
  unfold batchDoneEvent
  split_ifs <;> rfl

theorem batchInvokeNoArgs_eq (config : BatchConfig) (calls : List (Address × Symbol)) :
    batchInvokeNoArgs host config calls =
      Nested.executeBatch config calls.length
        (multiInvokeLoop host config.mode (calls.map noArgs) .start) := by
  simp only [batchInvokeNoArgs, Nested.executeBatch, Nested.enter, bind_bind, batchInvokeLoop_eq]
  iterate 6 (congr 1; funext _)
  unfold batchDoneEvent
  split_ifs <;> rfl

/-- `batch_invoke_no_args` is `execute_multi_invoke` with an empty list of arguments for each call:
    it returns the same, publishes the same events, leaves the same state of all contracts and of
    the guard, and fails in the same way, whatever the configuration, the state and the
    contracts. -/
theorem batchInvokeNoArgs_refines (host : Contracts S V) (config : BatchConfig)
    (calls : List (Address × Symbol)) (w : World S) :
    batchInvokeNoArgs host config calls w =
      executeMultiInvoke host config (calls.map fun c => (c.1, c.2, [])) w := by
  rw [batchInvokeNoArgs_eq, executeMultiInvoke_eq, List.length_map]
  rfl

/-! ## The results -/

variable (host) in
/-- The state in which the `n`-th call is made: those before it stand, or were rolled back. -/
def stateBefore (calls : List (Address × Symbol × List Val)) (w : World S) (n : ℕ) : World S :=
  run (settle host) (Nested.entered w) (calls.take n)

variable (host) in
/-- The result `r` of a batch of calls that took the state `w` to `w'` counts every call once and
    says truly which of them returned. -/
structure Truthful (calls : List (Address × Symbol × List Val)) (w : World S) (r : BatchResult)
    (w' : World S) : Prop where
  reverted : r.reverted = false
  total : r.total = calls.length
  length : r.results.length = calls.length
  counted : r.succeeded + r.failed = r.total
  succeeded : r.succeeded = r.results.count .success
  success_iff (i : ℕ) (c : Address × Symbol × List Val) : calls[i]? = some c →
    (r.results[i]? = some .success ↔ (host c.1 c.2.1 c.2.2).Succeeds (stateBefore host calls w i))
  each (i : ℕ) (c : Address × Symbol × List Val) : calls[i]? = some c →
    (r.results[i]? = some .success ∧ ∃ v, host c.1 c.2.1 c.2.2 (stateBefore host calls w i) =
      .ok v (stateBefore host calls w (i + 1))) ∨
    ((∃ code, r.results[i]? = some (.failure code)) ∧
      (∃ f w₁, host c.1 c.2.1 c.2.2 (stateBefore host calls w i) = .fail f w₁) ∧
      stateBefore host calls w (i + 1) = stateBefore host calls w i)
  final : ∃ t, w' = Nested.left calls.length t (stateBefore host calls w calls.length)

theorem getElem?_callResults {calls : List (Address × Symbol × List Val)} {w : World S} {i : ℕ}
    {c : Address × Symbol × List Val} (hc : calls[i]? = some c) :
    (callResults host calls (Nested.entered w))[i]? = some
    (callResult host c (stateBefore host calls w i)) := by
  rw [callResults, List.getElem?_map, getElem?_trace hc]
  rfl

theorem truthful_of_results (calls : List (Address × Symbol × List Val)) (w : World S) :
    Truthful host calls w
      ((Tally.start.addAll (callResults host calls (Nested.entered w))).toResult calls.length)
      (Nested.left calls.length (Tally.start.addAll (callResults host calls (Nested.entered w)))
        (run (settle host) (Nested.entered w) calls)) := by
  have htried : ∀ r ∈ callResults host calls (Nested.entered w), r.tried = true := by
    intro r hr
    obtain ⟨p, -, rfl⟩ := List.mem_map.mp hr
    unfold callResult
    cases host p.2.1 p.2.2.1 p.2.2.2 p.1 <;> rfl
  have hlength : (callResults host calls (Nested.entered w)).length = calls.length := by
    rw [callResults, List.length_map, length_trace]
  obtain ⟨hall, hreverted, htotal, hsucceeded, hsum⟩ := Tally.toResult_addAll htried hlength
  constructor
  · exact hreverted
  · exact htotal
  · rw [hall, hlength]
  · exact hsum
  · rw [hall]
    exact hsucceeded
  · intro i c hc
    rw [hall, getElem?_callResults hc, Option.some_inj, callResult_success]
  · intro i c hc
    have hnext : stateBefore host calls w (i + 1) =
        (host c.1 c.2.1 c.2.2).commit (stateBefore host calls w i) := run_take_succ hc
    rw [hall, getElem?_callResults hc, hnext, callResult, commit]
    cases hcall : host c.1 c.2.1 c.2.2 (stateBefore host calls w i) with
    | ok v w' => exact .inl ⟨rfl, v, rfl⟩
    | fail f w' => exact .inr ⟨⟨_, rfl⟩, ⟨f, w', rfl⟩, rfl⟩
  · exact ⟨_, by rw [stateBefore, List.take_length]⟩

theorem executeBatch_returns {config : BatchConfig} {calls : List (Address × Symbol × List Val)}
    {w : World S} (hmode : config.mode = .nonAtomic) (hcount : config.AcceptsCount calls.length)
    (hfree : w.shared.batchLock = false) :
    ∃ r w',
      Nested.executeBatch config calls.length (multiInvokeLoop host config.mode calls .start) w =
        .ok r w' ∧ Truthful host calls w r w' := by
  have hloop : multiInvokeLoop host .nonAtomic calls .start (Nested.entered w) =
      .ok (Tally.start.addAll (callResults host calls (Nested.entered w)))
        (run (settle host) (Nested.entered w) calls) :=
    multiInvokeLoop_nonAtomic calls .start (Nested.entered w)
  rw [← hmode] at hloop
  exact ⟨_, _, Nested.executeBatch_of_loop hcount hfree hloop, truthful_of_results calls w⟩

theorem executeBatch_atomic {config : BatchConfig} {calls : List (Address × Symbol × List Val)}
    {w w' : World S} {r : BatchResult} (hmode : config.mode = .atomic)
    (h : Nested.executeBatch config calls.length (multiInvokeLoop host config.mode calls .start) w =
      .ok r w') : Truthful host calls w r w' ∧ ∀ x ∈ r.results, x = .success := by
  rw [hmode] at h
  obtain ⟨_, w₀, henter, h⟩ := bind_ok.mp h
  obtain ⟨t, w₁, hloop, h⟩ := bind_ok.mp h
  have hentered : w₀ = Nested.entered w := by
    rw [Nested.enter_eq] at henter
    split_ifs at henter
    cases henter
    rfl
  rw [hentered] at hloop
  obtain ⟨rfl, rfl, hall⟩ := multiInvokeLoop_atomic_ok hloop
  have hend : Outcome.ok ((Tally.start.addAll (callResults host calls (Nested.entered w))).toResult
      calls.length) (Nested.left calls.length
        (Tally.start.addAll (callResults host calls (Nested.entered w)))
        (run (settle host) (Nested.entered w) calls)) = (.ok r w' :
          Outcome _ Trap BatchError _) := h
  cases hend
  refine ⟨truthful_of_results calls w, ?_⟩
  show ∀ x ∈ (Tally.start.addAll (callResults host calls (Nested.entered w))).results, x = .success
  rw [(Tally.addAll_results _ _).1]
  exact hall

/-- Both executors, in both modes, for all contracts. In non-atomic mode an accepted batch returns
    true results; in atomic mode a batch that returns has only successes. -/
theorem invoke_truthful (host : Contracts S V) (config : BatchConfig)
    (calls : List (Address × Symbol × List Val)) (targets : List (Address × Symbol)) (w : World S) :
    (config.mode = .nonAtomic → w.shared.batchLock = false →
      (config.AcceptsCount calls.length →
        ∃ r w', executeMultiInvoke host config calls w = .ok r w' ∧
        Truthful host calls w r w') ∧
      (config.AcceptsCount targets.length →
        ∃ r w', batchInvokeNoArgs host config targets w = .ok r w' ∧
        Truthful host (targets.map noArgs) w r w')) ∧
    (config.mode = .atomic →
      (∀ r w', executeMultiInvoke host config calls w = .ok r w' →
        Truthful host calls w r w' ∧ ∀ x ∈ r.results, x = .success) ∧
      ∀ r w', batchInvokeNoArgs host config targets w = .ok r w' →
        Truthful host (targets.map noArgs) w r w' ∧ ∀ x ∈ r.results, x = .success) := by
  have hlength : targets.length = (targets.map noArgs).length := (List.length_map noArgs).symm
  rw [executeMultiInvoke_eq, batchInvokeNoArgs_eq, hlength]
  constructor
  · intro hmode hfree
    exact ⟨fun hcount => executeBatch_returns hmode hcount hfree,
      fun hcount => executeBatch_returns hmode hcount hfree⟩
  · intro hmode
    exact ⟨fun r w' => executeBatch_atomic hmode, fun r w' => executeBatch_atomic hmode⟩

/-- Every contract answers to "pause", and returns the error 7 on anything else. -/
def pausing : Contracts Unit Bool := fun _ func _ => do
  failIf (func ≠ "pause") 7
  pure true

/-- In non-atomic mode the failed call in the middle is told from the two others by both executors;
    the batch that returns in atomic mode has no failed call. -/
theorem invoke_truthful_pausing :
    let w : World Unit := .deployed () (.ofList [])
    let calls : List (Address × Symbol × List Val) :=
      [(⟨7⟩, "pause", []), (⟨8⟩, "stop", []), (⟨9⟩, "pause", [])]
    let targets : List (Address × Symbol) := [(⟨8⟩, "stop"), (⟨9⟩, "pause")]
    (∃ r w', executeMultiInvoke pausing ⟨.nonAtomic, 50⟩ calls w = .ok r w' ∧
      Truthful pausing calls w r w' ∧ r.results = [.success, .failure 3, .success]) ∧
    (∃ r w', batchInvokeNoArgs pausing ⟨.nonAtomic, 50⟩ targets w = .ok r w' ∧
      Truthful pausing (targets.map noArgs) w r w' ∧ r.results = [.failure 3, .success]) ∧
    ∃ r w', executeMultiInvoke pausing ⟨.atomic, 50⟩ (calls.take 1) w = .ok r w' ∧
      Truthful pausing (calls.take 1) w r w' ∧ ∀ x ∈ r.results, x = .success := by
  intro w calls targets
  have hnonAtomic := (invoke_truthful pausing ⟨.nonAtomic, 50⟩ calls targets w).1 rfl rfl
  have hatomic := (invoke_truthful pausing ⟨.atomic, 50⟩ (calls.take 1) targets w).2 rfl
  refine ⟨?_, ?_, _, _, rfl, hatomic.1 _ _ rfl⟩
  · obtain ⟨r, w', hok, htruthful⟩ := hnonAtomic.1 (by decide)
    refine ⟨r, w', hok, htruthful, ?_⟩
    cases hok
    rfl
  · obtain ⟨r, w', hok, htruthful⟩ := hnonAtomic.2 (by decide)
    refine ⟨r, w', hok, htruthful, ?_⟩
    cases hok
    rfl

/-- What is refused in non-atomic mode: an empty batch, which is within every limit, a limit that is
    too high, and a batch inside another. -/
theorem invoke_refused :
    let host : Contracts Unit Bool := fun _ _ _ => pure true
    let w : World Unit := .deployed () (.ofList [])
    let calls : List (Address × Symbol × List Val) := [(⟨7⟩, "pause", [])]
    executeMultiInvoke host ⟨.nonAtomic, 50⟩ [] w = .fail (.err .emptyBatch) w ∧
      batchInvokeNoArgs host ⟨.nonAtomic, 50⟩ [] w = .fail (.err .emptyBatch) w ∧
      executeMultiInvoke host ⟨.nonAtomic, 101⟩ calls w = .fail (.err .invalidConfig) w ∧
      executeMultiInvoke host ⟨.nonAtomic, 50⟩ calls (Nested.entered w) =
        .fail (.err .reentrancyDetected) (Nested.entered w) :=
  ⟨rfl, rfl, rfl, rfl⟩

/-! ## The executors under the guard -/

/-- The contracts of a host whose errors are the shared ones. -/
def contractsOf (host : Nested.Host S) : Contracts S Bool :=
  fun contract func args => mapErr Error.code (host contract func args)

theorem executeSingleInvoke_contractsOf (host : Nested.Host S) (contract : Address) (func : Symbol)
    (args : List Val) (mode : BatchMode) :
    executeSingleInvoke (contractsOf host) contract func args mode =
      Nested.executeSingleInvoke host contract func args mode := by
  funext w
  cases mode with
  | atomic =>
    apply bind_congr_head
    simp only [invokeContract, contractsOf, unwrap, mapErr]
    cases host contract func args w with
    | ok unit w' => rfl
    | fail f w' => cases f <;> rfl
  | nonAtomic =>
    have hsame : executeSingleInvoke (contractsOf host) contract func args .nonAtomic w =
        .ok (callResult (contractsOf host) (contract, func, args) w)
          (settle (contractsOf host) (contract, func, args) w) :=
      executeSingleInvoke_nonAtomic (contract, func, args) w
    rw [hsame]
    simp only [callResult, settle, contractsOf, commit, mapErr, Nested.executeSingleInvoke,
      bind, attempt]
    cases host contract func args w with
    | ok unit w' => rfl
    | fail f w' => cases f <;> rfl

theorem multiInvokeLoop_contractsOf (host : Nested.Host S) (mode : BatchMode)
    (calls : List (Address × Symbol × List Val)) (t : Tally) :
    multiInvokeLoop (contractsOf host) mode calls t =
      Nested.runOperations mode (fun c => Nested.executeSingleInvoke host c.1 c.2.1 c.2.2 mode)
        calls t := by
  induction calls generalizing t with
  | nil => rfl
  | cons c calls ih =>
    rw [multiInvokeLoop, Nested.runOperations, executeSingleInvoke_contractsOf]
    congr 1
    funext r
    cases r with
    | success => exact ih _
    | failure code => cases mode with
      | atomic => rfl
      | nonAtomic => exact ih _
    | skipped => exact ih _

/-- The executors of the law of the guard are these two. -/
theorem nested_executors (host : Nested.Host S) (config : BatchConfig)
    (calls : List (Address × Symbol × List Val)) (targets : List (Address × Symbol)) :
    Nested.executeMultiInvoke host config calls =
      executeMultiInvoke (contractsOf host) config calls ∧
      Nested.batchInvokeNoArgs host config targets =
        batchInvokeNoArgs (contractsOf host) config targets := by
  rw [executeMultiInvoke_eq, batchInvokeNoArgs_eq, multiInvokeLoop_contractsOf,
    multiInvokeLoop_contractsOf]
  refine ⟨rfl, ?_⟩
  have hloop : ∀ t, Nested.runOperations config.mode
      (fun c => Nested.executeSingleInvoke host c.1 c.2.1 c.2.2 config.mode)
        (targets.map noArgs) t =
        Nested.runOperations config.mode
          (fun c => Nested.executeSingleInvoke host c.1 c.2 [] config.mode) targets t := by
    intro t
    induction targets generalizing t with
    | nil => rfl
    | cons c targets ih =>
      rw [List.map_cons, Nested.runOperations, Nested.runOperations]
      simp only [ih]
      rfl
  rw [hloop]
  rfl

end Trellis.Invoke
