import Trellis.Shared.Events

/-!
# Batch transfers

Model of `shared::batch` (shared/src/batch.rs): the configuration, the reentrancy guard and the
executor of token transfers. The counters of the loop are `u32` in the source and stay at most 100,
the hard limit on the size of a batch.

Results:
* `runTransfers_atomic_ok`: what the loop does in atomic mode. It makes the transfers up to the
  first amount that is not positive; there it stops, and it traps if one of them is not possible.
* `executeMultiTransfer_atomic_ok`: the same for the executor.
* `executeMultiTransfer_err`: an error of the executor comes from its entry checks, before any
  transfer.
-/

namespace Trellis

/-! ## Types -/

/-- `BatchError` (shared/src/batch.rs:78–91). -/
inductive BatchError where
  | batchTooLarge
  | operationFailed
  | invalidConfig
  | invalidOperation
  | emptyBatch
  | reentrancyDetected
  deriving DecidableEq, Repr

/-- `error as u32`. -/
def BatchError.code : BatchError → ℕ
  | batchTooLarge => 800
  | operationFailed => 801
  | invalidConfig => 802
  | invalidOperation => 803
  | emptyBatch => 804
  | reentrancyDetected => 805

/-- `BatchMode` (shared/src/batch.rs:100–105). -/
inductive BatchMode where
  | atomic
  | nonAtomic
  deriving DecidableEq, Repr

/-- `BatchConfig` (shared/src/batch.rs:110–116). -/
structure BatchConfig where
  mode : BatchMode
  maxOperations : ℕ
  deriving DecidableEq, Repr

/-- `DEFAULT_MAX_BATCH_SIZE`. -/
def defaultMaxBatchSize : ℕ := 50

/-- `ABSOLUTE_MAX_BATCH_SIZE`. -/
def absoluteMaxBatchSize : ℕ := 100

/-- Model of `BatchConfig::atomic_default` (shared/src/batch.rs:121–126). -/
def BatchConfig.atomicDefault : BatchConfig where
  mode := .atomic
  maxOperations := defaultMaxBatchSize

@[simp] theorem BatchConfig.atomicDefault_mode : BatchConfig.atomicDefault.mode = .atomic := rfl

/-- `BatchTransfer` (shared/src/batch.rs:142–147); `dst` is the field `to`. -/
structure BatchTransfer where
  dst : Address
  amount : ℤ
  deriving DecidableEq, Repr

/-- `OperationResult` (shared/src/batch.rs:152–160). -/
inductive OperationResult where
  | success
  | failure (code : ℕ)
  | skipped
  deriving DecidableEq, Repr

/-- `BatchResult` (shared/src/batch.rs:165–176). -/
structure BatchResult where
  results : List OperationResult
  total : ℕ
  succeeded : ℕ
  failed : ℕ
  reverted : Bool
  deriving DecidableEq, Repr

/-- The token transfer that the executor makes for an item. -/
def BatchTransfer.toTransfer (token caller : Address) (x : BatchTransfer) : TokenTransfer :=
  ⟨token, caller, x.dst, x.amount⟩

/-- The sum of the amounts that go to others than the caller. -/
def paidToOthers (caller : Address) (xs : List BatchTransfer) : ℤ :=
  ((xs.filter fun x => x.dst ≠ caller).map BatchTransfer.amount).sum

/-- The caller loses what goes to others. -/
theorem netAll_toTransfer (token caller : Address) (xs : List BatchTransfer) :
    netAll token caller (xs.map (·.toTransfer token caller)) = - paidToOthers caller xs := by
  have hothers :
      sumToOthers caller (xs.map (·.toTransfer token caller)) = paidToOthers caller xs := by
    unfold sumToOthers paidToOthers
    rw [List.filter_map, List.map_map]
    rfl
  have hall : ∀ y ∈ xs.map (·.toTransfer token caller), y.token = token ∧ y.src = caller := by
    intro y hy
    obtain ⟨x, -, rfl⟩ := List.mem_map.mp hy
    exact ⟨rfl, rfl⟩
  rw [netAll_of_src_eq hall, amountIn, if_pos rfl, hothers]

/-! ## Guards and checks -/

variable {me : Address} {S ε : Type}

open Exec

/-- Model of `acquire_reentrancy_guard` (shared/src/batch.rs:194–200). -/
def acquireReentrancyGuard : Invocation S BatchError Unit := do
  let locked ← readShared SharedStore.batchLock
  failIf (locked = true) .reentrancyDetected
  writeShared fun s => { s with batchLock := true }

/-- Model of `release_reentrancy_guard` (shared/src/batch.rs:202–204). -/
def releaseReentrancyGuard : Invocation S ε Unit :=
  writeShared fun s => { s with batchLock := false }

/-- Model of `validate_config` (shared/src/batch.rs:211–216). -/
def validateConfig (config : BatchConfig) : Invocation S BatchError Unit :=
  failIf (config.maxOperations = 0 ∨ config.maxOperations > absoluteMaxBatchSize) .invalidConfig

/-- Model of `validate_transfer` (shared/src/batch.rs:219–224). -/
def validateTransfer (x : BatchTransfer) : Except BatchError Unit :=
  if x.amount ≤ 0 then .error .invalidOperation else .ok ()

/-! ## The executor -/

/-- Model of `execute_single_transfer` (shared/src/batch.rs:346–382). -/
def executeSingleTransfer (env : Env me) (token caller : Address) (x : BatchTransfer) :
    BatchMode → Invocation S BatchError OperationResult
  | .atomic => do
    transfer env token caller x.dst x.amount
    pure .success
  | .nonAtomic => do
    -- a failing sub-invocation is rolled back and reported, whatever it failed with
    let result ← attempt (transfer env token caller x.dst x.amount : Invocation S Error Unit)
    match result with
    | .ok () => pure .success
    | .error _ => pure (.failure Error.invalidAmount.code)

/-- The variables of the loop of `execute_multi_transfer`. -/
structure Tally where
  results : List OperationResult
  succeeded : ℕ
  failed : ℕ
  reverted : Bool
  deriving DecidableEq, Repr

def Tally.start : Tally := ⟨[], 0, 0, false⟩

/-- `results.push_back(Success); succeeded += 1`. -/
def Tally.success (t : Tally) : Tally :=
  { t with results := t.results ++ [.success], succeeded := t.succeeded + 1 }

/-- `results.push_back(Failure(code)); failed += 1`. -/
def Tally.failure (t : Tally) (code : ℕ) : Tally :=
  { t with results := t.results ++ [.failure code], failed := t.failed + 1 }

/-- `results.push_back(Skipped)`. -/
def Tally.skip (t : Tally) : Tally := { t with results := t.results ++ [.skipped] }

/-- `reverted = true`. -/
def Tally.revert (t : Tally) : Tally := { t with reverted := true }

/-- The loop of `execute_multi_transfer` (shared/src/batch.rs:282–315). After a failure it breaks in
    atomic mode and goes on with the next item otherwise. -/
def runTransfers (env : Env me) (token caller : Address) (mode : BatchMode) :
    List BatchTransfer → Tally → Invocation S BatchError Tally
  | [], t => pure t
  | x :: xs, t =>
    match validateTransfer x with
    | .error e =>
      match mode with
      | .atomic => pure (t.failure e.code).revert
      | .nonAtomic => runTransfers env token caller mode xs (t.failure e.code)
    | .ok () => do
      let result ← executeSingleTransfer env token caller x mode
      match result with
      | .success => runTransfers env token caller mode xs t.success
      | .failure code =>
        match mode with
        | .atomic => pure (t.failure code).revert
        | .nonAtomic => runTransfers env token caller mode xs (t.failure code)
      | .skipped => runTransfers env token caller mode xs t.skip

/-- `BATCH_COMPLETED`. -/
def batchCompleted : Symbol := "bat_done"

/-- `BATCH_PARTIAL`. -/
def batchPartial : Symbol := "bat_part"

/-- The event at the end of a batch (shared/src/batch.rs:320–328). -/
def batchDoneEvent (total : ℕ) (t : Tally) : Event :=
  if t.reverted then
    ⟨[batchCompleted], [.u32 total, .u32 t.succeeded, .u32 t.failed, .bool true]⟩
  else if t.failed > 0 then
    ⟨[batchPartial], [.u32 total, .u32 t.succeeded, .u32 t.failed]⟩
  else
    ⟨[batchCompleted], [.u32 total, .u32 t.succeeded, .u32 t.failed, .bool false]⟩

/-- The result that the executor returns. -/
def Tally.toResult (t : Tally) (total : ℕ) : BatchResult :=
  ⟨t.results, total, t.succeeded, t.failed, t.reverted⟩

/-- Model of `execute_multi_transfer` (shared/src/batch.rs:253–337). -/
def executeMultiTransfer (env : Env me) (caller token : Address) (transfers : List BatchTransfer)
    (config : BatchConfig) : Invocation S BatchError BatchResult := do
  validateConfig config
  failIf (transfers.length = 0) .emptyBatch
  failIf (transfers.length > config.maxOperations) .batchTooLarge
  acquireReentrancyGuard
  let t ← runTransfers env token caller config.mode transfers Tally.start
  releaseReentrancyGuard
  publish (batchDoneEvent transfers.length t).topics (batchDoneEvent transfers.length t).data
  pure (t.toResult transfers.length)

/-- Model of `multi_transfer_all` (shared/src/batch.rs:530–545). -/
def multiTransferAll (env : Env me) (caller token : Address) (recipients : List (Address × ℤ)) :
    Invocation S BatchError BatchResult :=
  executeMultiTransfer env caller token (recipients.map fun r => ⟨r.1, r.2⟩)
    BatchConfig.atomicDefault

/-! ## Atomic mode -/

/-- The items before the first one whose amount is not positive. -/
def leading (xs : List BatchTransfer) : List BatchTransfer := xs.takeWhile fun x => 0 < x.amount

/-- The variables of the loop when it ends in atomic mode. -/
def atomicTally : List BatchTransfer → Tally → Tally
  | [], t => t
  | x :: xs, t =>
    if 0 < x.amount then atomicTally xs t.success
    else (t.failure BatchError.invalidOperation.code).revert

theorem leading_cons_pos {x : BatchTransfer} (h : 0 < x.amount) (xs : List BatchTransfer) :
    leading (x :: xs) = x :: leading xs := by
  simp [leading, h]

theorem leading_cons_nonpos {x : BatchTransfer} (h : x.amount ≤ 0) (xs : List BatchTransfer) :
    leading (x :: xs) = [] := by
  simp [leading, h]

theorem leading_eq_self {xs : List BatchTransfer} :
    leading xs = xs ↔ ∀ x ∈ xs, 0 < x.amount := by
  simp [leading, List.takeWhile_eq_self_iff]

theorem pos_of_mem_leading {xs : List BatchTransfer} {x : BatchTransfer} (h : x ∈ leading xs) :
    0 < x.amount := by
  simpa using List.mem_takeWhile_imp h

theorem atomicTally_reverted (xs : List BatchTransfer) (t : Tally) :
    (atomicTally xs t).reverted = true ↔ t.reverted = true ∨ ∃ x ∈ xs, x.amount ≤ 0 := by
  induction xs generalizing t with
  | nil => simp [atomicTally]
  | cons x xs ih =>
    by_cases h : 0 < x.amount
    · have hx : ¬ x.amount ≤ 0 := by omega
      simp [atomicTally, h, hx, ih, Tally.success]
    · have hx : x.amount ≤ 0 := by omega
      simp [atomicTally, h, hx, Tally.revert]

theorem atomicTally_succeeded (xs : List BatchTransfer) (t : Tally) :
    (atomicTally xs t).succeeded = t.succeeded + (leading xs).length := by
  induction xs generalizing t with
  | nil => simp [atomicTally, leading]
  | cons x xs ih =>
    by_cases h : 0 < x.amount
    · simp only [atomicTally, if_pos h, ih, leading_cons_pos h, List.length_cons, Tally.success]
      omega
    · have hx : x.amount ≤ 0 := by omega
      simp [atomicTally, h, leading_cons_nonpos hx, Tally.revert, Tally.failure]

/-- In atomic mode the loop succeeds exactly when the transfers before the first amount that is not
    positive are possible one after the other, and it makes these. -/
theorem runTransfers_atomic_ok {env : Env me} {token caller : Address} {xs : List BatchTransfer}
    {t t' : Tally} {w w' : World S} :
    (runTransfers env token caller .atomic xs t) w = .ok t' w' ↔
      env.AllowsAll w.tokens ((leading xs).map (·.toTransfer token caller)) ∧
        t' = atomicTally xs t ∧
        w' = { w with
          tokens := w.tokens.moveAll ((leading xs).map (·.toTransfer token caller)) } := by
  induction xs generalizing t w with
  | nil => simp [runTransfers, atomicTally, leading, Env.AllowsAll]
  | cons x xs ih =>
    by_cases h : 0 < x.amount
    · have hx : ¬ x.amount ≤ 0 := by omega
      simp [runTransfers, validateTransfer, hx, executeSingleTransfer, ih, leading_cons_pos h,
        atomicTally, h, Env.AllowsAll, BatchTransfer.toTransfer, and_assoc]
    · have hx : x.amount ≤ 0 := by omega
      simp [runTransfers, validateTransfer, hx, leading_cons_nonpos hx, atomicTally, h,
        Env.AllowsAll]

/-! ## The executor as a whole -/

theorem executeSingleTransfer_ne_err {env : Env me} {token caller : Address} {x : BatchTransfer}
    {mode : BatchMode} {w w' : World S} {e : BatchError} :
    executeSingleTransfer env token caller x mode w ≠ .fail (.err e) w' := by
  cases mode with
  | atomic => simp [executeSingleTransfer, transfer_ne_err]
  | nonAtomic =>
    intro h
    simp only [executeSingleTransfer, bind_fail] at h
    rcases h with h | ⟨r, w₁, -, h⟩
    · unfold attempt at h
      split at h <;> cases h
    · cases r <;> simp at h

theorem runTransfers_ne_err {env : Env me} {token caller : Address} {mode : BatchMode}
    {xs : List BatchTransfer} {t : Tally} {w w' : World S} {e : BatchError} :
    runTransfers env token caller mode xs t w ≠ .fail (.err e) w' := by
  induction xs generalizing t w with
  | nil => simp [runTransfers]
  | cons x xs ih =>
    intro h
    unfold runTransfers at h
    cases hv : validateTransfer x with
    | error e' =>
      cases mode
      · simp [hv] at h
      · exact ih (by simpa [hv] using h)
    | ok u =>
      simp only [hv, bind_fail] at h
      rcases h with h | ⟨r, w₁, -, h⟩
      · exact executeSingleTransfer_ne_err h
      · cases r
        · exact ih h
        · cases mode
          · simp at h
          · exact ih h
        · exact ih h

/-- An error of the executor comes from its entry checks: nothing has happened yet. -/
theorem executeMultiTransfer_err {env : Env me} {caller token : Address}
    {transfers : List BatchTransfer} {config : BatchConfig} {w w' : World S} {e : BatchError}
    (h : executeMultiTransfer env caller token transfers config w = .fail (.err e) w') :
    w' = w := by
  simp only [executeMultiTransfer, bind_fail] at h
  rcases h with h | ⟨_, w₁, h₁, h⟩
  · exact (failIf_fail.mp h).2.2
  obtain ⟨-, rfl⟩ := failIf_ok.mp h₁
  rcases h with h | ⟨_, w₂, h₂, h⟩
  · exact (failIf_fail.mp h).2.2
  obtain ⟨-, rfl⟩ := failIf_ok.mp h₂
  rcases h with h | ⟨_, w₃, h₃, h⟩
  · exact (failIf_fail.mp h).2.2
  obtain ⟨-, rfl⟩ := failIf_ok.mp h₃
  rcases h with h | ⟨_, w₄, -, h | ⟨t, w₅, -, h⟩⟩
  · simp only [acquireReentrancyGuard, bind_fail, readShared_fail, readShared_ok, failIf_fail,
      writeShared_fail, false_or, and_false, exists_false, or_false] at h
    obtain ⟨-, -, ⟨-, rfl⟩, -, -, rfl⟩ := h
    rfl
  · exact absurd h runTransfers_ne_err
  · simp [releaseReentrancyGuard] at h

/-- What the checks before the loop of `execute_multi_transfer` ask of a batch. -/
def BatchConfig.Accepts (config : BatchConfig) (transfers : List BatchTransfer) : Prop :=
  1 ≤ config.maxOperations ∧ config.maxOperations ≤ absoluteMaxBatchSize ∧
    transfers ≠ [] ∧ transfers.length ≤ config.maxOperations

instance (config : BatchConfig) (transfers : List BatchTransfer) :
    Decidable (config.Accepts transfers) := inferInstanceAs (Decidable (_ ∧ _))

/-- In atomic mode the executor succeeds exactly on an accepted batch with the guard free, when the
    transfers before the first amount that is not positive are possible one after the other. It
    makes these, and touches no other storage. -/
theorem executeMultiTransfer_atomic_ok {env : Env me} {caller token : Address}
    {transfers : List BatchTransfer} {config : BatchConfig} (hmode : config.mode = .atomic)
    {w w' : World S} {r : BatchResult} :
    executeMultiTransfer env caller token transfers config w = .ok r w' ↔
      config.Accepts transfers ∧ w.shared.batchLock = false ∧
        env.AllowsAll w.tokens ((leading transfers).map (·.toTransfer token caller)) ∧
        r = (atomicTally transfers .start).toResult transfers.length ∧
        w' = { w with
          tokens := w.tokens.moveAll ((leading transfers).map (·.toTransfer token caller))
          events :=
            w.events ++ [batchDoneEvent transfers.length (atomicTally transfers .start)] } := by
  have hlock : ∀ s : SharedStore, s.batchLock = false →
      { s with batchLock := false } = s := by
    intro s hs
    rw [← hs]
  have haccepts : config.Accepts transfers ↔
      ¬ (config.maxOperations = 0 ∨ config.maxOperations > absoluteMaxBatchSize) ∧
        ¬ transfers.length = 0 ∧ ¬ transfers.length > config.maxOperations := by
    rw [BatchConfig.Accepts, ← List.length_pos_iff_ne_nil]
    omega
  simp only [executeMultiTransfer, bind_ok, validateConfig, acquireReentrancyGuard,
    releaseReentrancyGuard, failIf_ok, readShared_ok, writeShared_ok, publish_ok, hmode,
    runTransfers_atomic_ok, pure_ok, haccepts]
  constructor
  · rintro ⟨_, _, ⟨hcfg, rfl⟩, _, _, ⟨hne, rfl⟩, _, _, ⟨hsize, rfl⟩, _, _,
      ⟨locked, _, ⟨rfl, rfl⟩, _, _, ⟨hfree, rfl⟩, rfl⟩, t, _, ⟨hall, rfl, rfl⟩, _, _, rfl,
      _, _, rfl, rfl, rfl⟩
    rw [Bool.not_eq_true] at hfree
    exact ⟨⟨hcfg, hne, hsize⟩, hfree, hall, rfl, by rw [hlock _ hfree]⟩
  · rintro ⟨⟨hcfg, hne, hsize⟩, hfree, hall, rfl, rfl⟩
    refine ⟨(), w, ⟨hcfg, rfl⟩, (), w, ⟨hne, rfl⟩, (), w, ⟨hsize, rfl⟩, (), _,
      ⟨_, w, ⟨rfl, rfl⟩, (), w, ⟨by simp [hfree], rfl⟩, rfl⟩, _, _, ⟨hall, rfl, rfl⟩, (), _, rfl,
      (), _, rfl, rfl, by rw [hlock _ hfree]⟩

end Trellis
