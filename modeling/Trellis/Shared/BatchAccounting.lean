import Trellis.Lib.Run
import Trellis.Shared.BatchAtomicity
import Trellis.Shared.Reentrancy

/-!
# Accounts of batches that go on

In non-atomic mode a batch goes on after a failure, and the failed operation is rolled back. So the
batch does what its operations do one after another when those that fail are left out, and its
results say which they were.

Results:
* `Tally.toResult_addAll`: what a loop that goes on counts.
* `runTransfers_nonAtomic`: the loop over transfers in non-atomic mode.
* `executeBatch_of_loop`, `executeBatch_refused`: an executor whose checks pass, and one whose do
  not.
* `executeMultiTransfer_accounted`: the result beside the transfers that were made.
-/

namespace Trellis

open Exec

variable {me : Address} {S : Type}

/-! ## Counting -/

/-- What a loop that goes on does with a result. -/
def Tally.add (t : Tally) : OperationResult → Tally
  | .success => t.success
  | .failure code => t.failure code
  | .skipped => t.skip

/-- The same for a list of results. -/
def Tally.addAll (t : Tally) (results : List OperationResult) : Tally := results.foldl Tally.add t

/-- The operation was tried: it succeeded or failed. -/
def OperationResult.tried : OperationResult → Bool
  | .skipped => false
  | _ => true

theorem Tally.addAll_results (results : List OperationResult) (t : Tally) :
    (t.addAll results).results = t.results ++ results ∧
    (t.addAll results).reverted = t.reverted := by
  induction results generalizing t with
  | nil => simp [Tally.addAll]
  | cons r results ih =>
    obtain ⟨hresults, hreverted⟩ := ih (t.add r)
    have hcons : t.addAll (r :: results) = (t.add r).addAll results := rfl
    rw [hcons, hresults, hreverted]
    cases r <;> simp [Tally.add, Tally.success, Tally.failure, Tally.skip]

theorem Tally.addAll_counts {results : List OperationResult} (h : ∀ r ∈ results, r.tried = true)
    (t : Tally) :
    (t.addAll results).succeeded = t.succeeded + results.count .success ∧
      (t.addAll results).succeeded + (t.addAll results).failed =
        t.succeeded + t.failed + results.length := by
  induction results generalizing t with
  | nil => simp [Tally.addAll]
  | cons r results ih =>
    rw [List.forall_mem_cons] at h
    obtain ⟨hsucceeded, hsum⟩ := ih h.2 (t.add r)
    have hcons : t.addAll (r :: results) = (t.add r).addAll results := rfl
    rw [hcons, hsum, hsucceeded]
    cases r with
    | success => simp [Tally.add, Tally.success]; omega
    | failure code => simp [Tally.add, Tally.failure]; omega
    | skipped => cases h.1

/-- The result of a loop that goes on from the start, over operations that are all tried. -/
theorem Tally.toResult_addAll {results : List OperationResult} (h : ∀ r ∈ results, r.tried = true)
    {total : ℕ} (htotal : results.length = total) :
    let r := (Tally.start.addAll results).toResult total
    r.results = results ∧ r.reverted = false ∧ r.total = total ∧
      r.succeeded = results.count .success ∧ r.succeeded + r.failed = total := by
  obtain ⟨hresults, hreverted⟩ := Tally.addAll_results results .start
  obtain ⟨hsucceeded, hsum⟩ := Tally.addAll_counts h .start
  refine ⟨hresults, hreverted, rfl, hsucceeded.trans (Nat.zero_add _), hsum.trans ?_⟩
  rw [htotal]
  exact Nat.zero_add _

/-! ## Transfers one after another -/

section

variable (env : Env me) (token caller : Address)

/-- The item can be transferred: its amount is positive and the token lets it through. -/
def Possible (x : BatchTransfer) (tokens : TokenLedger) : Prop :=
  0 < x.amount ∧ env.Allows tokens (x.toTransfer token caller)

instance (x : BatchTransfer) (tokens : TokenLedger) :
    Decidable (Possible env token caller x tokens) :=
  inferInstanceAs (Decidable (_ ∧ _))

/-- Makes the transfer, or leaves it out when it is not possible. -/
def makeOrSkip (x : BatchTransfer) (tokens : TokenLedger) : TokenLedger :=
  if Possible env token caller x tokens then tokens.move (x.toTransfer token caller) else tokens

/-- The result of an item in non-atomic mode. -/
def transferResult (x : BatchTransfer) (tokens : TokenLedger) : OperationResult :=
  if x.amount ≤ 0 then .failure BatchError.invalidOperation.code
  else if env.Allows tokens (x.toTransfer token caller) then .success
  else .failure Error.invalidAmount.code

/-- The results of the items, each in the state that those before it leave. -/
def transferResults (xs : List BatchTransfer) (tokens : TokenLedger) : List OperationResult :=
  (trace (makeOrSkip env token caller) tokens xs).map fun p =>
    transferResult env token caller p.2 p.1

end

section

variable {env : Env me} {token caller : Address}

theorem transferResult_success {x : BatchTransfer} {tokens : TokenLedger} :
    transferResult env token caller x tokens = .success ↔ Possible env token caller x tokens := by
  unfold transferResult Possible
  split_ifs with hneg hallows
  · simp [not_lt.mpr hneg]
  · simp [not_le.mp hneg, hallows]
  · simp [hallows]

theorem transferResult_failure {x : BatchTransfer} {tokens : TokenLedger}
    (h : ¬ Possible env token caller x tokens) :
    ∃ code, transferResult env token caller x tokens = .failure code := by
  unfold transferResult
  split_ifs with hneg hallows
  · exact ⟨_, rfl⟩
  · exact absurd ⟨not_le.mp hneg, hallows⟩ h
  · exact ⟨_, rfl⟩

/-- In non-atomic mode a transfer is made, or fails and leaves the state alone. -/
theorem executeSingleTransfer_nonAtomic {x : BatchTransfer} (hpos : 0 < x.amount) (w : World S) :
    executeSingleTransfer env token caller x .nonAtomic w =
      .ok (transferResult env token caller x w.tokens)
        { w with tokens := makeOrSkip env token caller x w.tokens } := by
  show (attempt (transfer env token caller x.dst x.amount : Invocation S Error Unit) >>= _) w = _
  rw [transferResult, if_neg (not_le.mpr hpos), makeOrSkip]
  by_cases hallows : env.Allows w.tokens (x.toTransfer token caller)
  · have hok : (transfer env token caller x.dst x.amount : Invocation S Error Unit) w =
        .ok () { w with tokens := w.tokens.move (x.toTransfer token caller) } :=
      transfer_ok.mpr ⟨hallows, rfl⟩
    have hattempt : (attempt (transfer env token caller x.dst x.amount : Invocation S Error Unit) :
        Invocation S BatchError _) w =
          .ok (.ok ()) { w with tokens := w.tokens.move (x.toTransfer token caller) } := by
      rw [attempt, hok]
    rw [bind_of_ok hattempt, if_pos hallows, if_pos ⟨hpos, hallows⟩]
    rfl
  · cases htransfer : (transfer env token caller x.dst x.amount : Invocation S Error Unit) w with
    | ok u w' => exact absurd (transfer_ok.mp htransfer).1 hallows
    | fail f w' =>
      have hattempt :
        (attempt (transfer env token caller x.dst x.amount : Invocation S Error Unit) :
          Invocation S BatchError _) w = .ok (.error f) w := by
        rw [attempt, htransfer]
      rw [bind_of_ok hattempt, if_neg hallows, if_neg fun hpossible => hallows hpossible.2]
      rfl

/-- What the loop does with an item before it goes on. -/
theorem runTransfers_cons_nonAtomic (x : BatchTransfer) (xs : List BatchTransfer) (t : Tally)
    (w : World S) :
    runTransfers env token caller .nonAtomic (x :: xs) t w =
      runTransfers env token caller .nonAtomic xs
        (t.add (transferResult env token caller x w.tokens))
        { w with tokens := makeOrSkip env token caller x w.tokens } := by
  rw [runTransfers]
  by_cases hneg : x.amount ≤ 0
  · rw [validateTransfer, if_pos hneg, transferResult, if_pos hneg, makeOrSkip,
      if_neg fun hpossible => absurd hpossible.1 (not_lt.mpr hneg)]
    rfl
  · rw [validateTransfer, if_neg hneg]
    dsimp only
    rw [bind_of_ok (executeSingleTransfer_nonAtomic (not_le.mp hneg) w)]
    cases transferResult env token caller x w.tokens <;> rfl

/-- In non-atomic mode the loop makes the transfers that are possible, and records the results. -/
theorem runTransfers_nonAtomic (xs : List BatchTransfer) (t : Tally) (w : World S) :
    runTransfers env token caller .nonAtomic xs t w =
      .ok (t.addAll (transferResults env token caller xs w.tokens))
        { w with tokens := run (makeOrSkip env token caller) w.tokens xs } := by
  induction xs generalizing t w with
  | nil => rfl
  | cons x xs ih =>
    rw [runTransfers_cons_nonAtomic, ih]
    rfl

/-- The transfers of the items whose result is a success. -/
def made (token caller : Address) (xs : List BatchTransfer) (results : List OperationResult) :
    List TokenTransfer :=
  ((xs.zip results).filter fun p => p.2 = .success).map fun p => p.1.toTransfer token caller

/-- The transfers whose results are successes, one after another. -/
theorem run_makeOrSkip (xs : List BatchTransfer) (tokens : TokenLedger) :
    run (makeOrSkip env token caller) tokens xs =
      tokens.moveAll (made token caller xs (transferResults env token caller xs tokens)) := by
  induction xs generalizing tokens with
  | nil => rfl
  | cons x xs ih =>
    have hcons : transferResults env token caller (x :: xs) tokens =
        transferResult env token caller x tokens ::
          transferResults env token caller xs (makeOrSkip env token caller x tokens) := rfl
    rw [run_cons, ih, hcons, made, made, List.zip_cons_cons, List.filter_cons, makeOrSkip]
    by_cases hpossible : Possible env token caller x tokens
    · rw [transferResult_success.mpr hpossible, if_pos hpossible]
      rfl
    · obtain ⟨code, hcode⟩ := transferResult_failure hpossible
      rw [hcode, if_neg hpossible]
      rfl

end

/-! ## The executor -/

/-- The size of a batch passes the checks. -/
def BatchConfig.AcceptsCount (config : BatchConfig) (count : ℕ) : Prop :=
  1 ≤ config.maxOperations ∧ config.maxOperations ≤ absoluteMaxBatchSize ∧ 1 ≤ count ∧
    count ≤ config.maxOperations

instance (config : BatchConfig) (count : ℕ) : Decidable (config.AcceptsCount count) :=
  inferInstanceAs (Decidable (_ ∧ _))

theorem BatchConfig.accepts_iff {config : BatchConfig} {transfers : List BatchTransfer} :
    config.Accepts transfers ↔ config.AcceptsCount transfers.length := by
  unfold BatchConfig.Accepts BatchConfig.AcceptsCount
  rw [← List.length_pos_iff_ne_nil]
  exact Iff.rfl

namespace Nested

/-- An executor whose checks do not pass refuses, and changes nothing. -/
theorem executeBatch_refused {config : BatchConfig} {count : ℕ} {w : World S}
    (h : ¬ (config.AcceptsCount count ∧ locked w = false)) (loop : Invocation S BatchError Tally) :
    ∃ e, executeBatch config count loop w = .fail (.err e) w := by
  have henter : ∃ e, enter config count w = .fail (.err e) w := by
    rw [enter_eq]
    split_ifs with hconfig hempty hsize hheld
    · exact ⟨_, rfl⟩
    · exact ⟨_, rfl⟩
    · exact ⟨_, rfl⟩
    · exact ⟨_, rfl⟩
    · refine absurd ⟨?_, by simpa using hheld⟩ h
      unfold BatchConfig.AcceptsCount
      omega
  obtain ⟨e, he⟩ := henter
  exact ⟨e, bind_of_fail he⟩

/-- The state in which the loop of an executor begins. -/
def entered (w : World S) : World S := { w with shared := { w.shared with batchLock := true } }

/-- The state in which an executor ends. -/
def left (count : ℕ) (t : Tally) (w : World S) : World S := { w with
  shared := { w.shared with batchLock := false }
  events := w.events ++ [batchDoneEvent count t] }

theorem enter_of_accepted {config : BatchConfig} {count : ℕ} {w : World S}
    (hcount : config.AcceptsCount count) (hfree : locked w = false) :
    enter config count w = .ok () (entered w) := by
  obtain ⟨hmin, hmax, hone, hsize⟩ := hcount
  rw [enter_eq, if_neg (by omega), if_neg (by omega), if_neg (by omega), if_neg (by simp [hfree])]
  rfl

/-- An executor whose loop ends returns what the loop has counted. -/
theorem executeBatch_of_loop {config : BatchConfig} {count : ℕ}
    {loop : Invocation S BatchError Tally} {t : Tally} {w w' : World S}
    (hcount : config.AcceptsCount count) (hfree : locked w = false)
    (hloop : loop (entered w) = .ok t w') :
    executeBatch config count loop w = .ok (t.toResult count) (left count t w') := by
  rw [executeBatch, bind_of_ok (enter_of_accepted hcount hfree), bind_of_ok hloop]
  rfl

end Nested

section

variable {env : Env me} {token caller : Address}

theorem executeMultiTransfer_nonAtomic {transfers : List BatchTransfer} {config : BatchConfig}
    (hmode : config.mode = .nonAtomic) (haccepts : config.Accepts transfers) {w : World S}
    (hfree : w.shared.batchLock = false) :
    executeMultiTransfer env caller token transfers config w =
      .ok ((Tally.start.addAll (transferResults env token caller transfers w.tokens)).toResult
          transfers.length)
        { w with
          tokens := run (makeOrSkip env token caller) w.tokens transfers
          events := w.events ++ [batchDoneEvent transfers.length
            (Tally.start.addAll (transferResults env token caller transfers w.tokens))] } := by
  have hlock : { w.shared with batchLock := false } = w.shared := by rw [← hfree]
  have hloop : Nested.runOperations config.mode
      (Nested.transferOperation (Nested.conforming env) token caller config.mode) transfers .start
        (Nested.entered w) =
      .ok (Tally.start.addAll (transferResults env token caller transfers w.tokens))
        { Nested.entered w with
          tokens := run (makeOrSkip env token caller) w.tokens transfers } := by
    rw [Nested.runOperations_conforming, hmode]
    exact runTransfers_nonAtomic transfers .start (Nested.entered w)
  rw [← Nested.executeMultiTransfer_conforming, Nested.executeMultiTransfer,
    Nested.executeBatch_of_loop (BatchConfig.accepts_iff.mp haccepts) hfree hloop]
  show Outcome.ok _ { w with
    shared := { w.shared with batchLock := false }
    tokens := _
    events := _ } = _
  rw [hlock]
  rfl

theorem executeMultiTransfer_refused {transfers : List BatchTransfer} {config : BatchConfig}
    {w : World S} (h : ¬ (config.Accepts transfers ∧ w.shared.batchLock = false)) :
    ∃ e, executeMultiTransfer env caller token transfers config w = .fail (.err e) w := by
  rw [BatchConfig.accepts_iff] at h
  rw [← Nested.executeMultiTransfer_conforming]
  exact Nested.executeBatch_refused h _

end

/-! ## The accounts -/

/-- The balances that the first `n` transfers leave when those that are not possible are left
    out. -/
def balancesAfter (env : Env me) (token caller : Address) (transfers : List BatchTransfer)
    (w : World S) (n : ℕ) : TokenLedger :=
  run (makeOrSkip env token caller) w.tokens (transfers.take n)

/-- The result `r` of a batch that took the state `w` to `w'` counts every transfer once and says
    truly which of them were made. -/
structure Accounted (env : Env me) (caller token : Address) (transfers : List BatchTransfer)
    (w : World S)
    (r : BatchResult) (w' : World S) : Prop where
  reverted : r.reverted = false
  total : r.total = transfers.length
  length : r.results.length = transfers.length
  counted : r.succeeded + r.failed = r.total
  succeeded : r.succeeded = r.results.count .success
  success_iff (i : ℕ) (x : BatchTransfer) : transfers[i]? = some x →
    (r.results[i]? = some .success ↔
      Possible env token caller x (balancesAfter env token caller transfers w i))
  each (i : ℕ) (x : BatchTransfer) : transfers[i]? = some x →
    (r.results[i]? = some .success ∧ balancesAfter env token caller transfers w (i + 1) =
      (balancesAfter env token caller transfers w i).move (x.toTransfer token caller)) ∨
    ((∃ code, r.results[i]? = some (.failure code)) ∧
      balancesAfter env token caller transfers w (i + 1) =
        balancesAfter env token caller transfers w i)
  nonpos (i : ℕ) (x : BatchTransfer) : transfers[i]? = some x → x.amount ≤ 0 →
    ∃ code, r.results[i]? = some (.failure code)
  moved : w'.tokens = w.tokens.moveAll (made token caller transfers r.results)
  final : w' = { w with
    tokens := balancesAfter env token caller transfers w transfers.length
    events := w'.events }

theorem getElem?_transferResults {env : Env me} {caller token : Address}
    {transfers : List BatchTransfer} {w : World S} {i : ℕ} {x : BatchTransfer}
    (hx : transfers[i]? = some x) :
    (transferResults env token caller transfers w.tokens)[i]? =
      some (transferResult env token caller x (balancesAfter env token caller transfers w i)) := by
  rw [transferResults, List.getElem?_map, getElem?_trace hx]
  rfl

/-- The accounts that the loop of an accepted batch gives. -/
theorem accounted_of_results (env : Env me) (caller token : Address)
    (transfers : List BatchTransfer) (w : World S) (events : List Event) :
    Accounted env caller token transfers w
      ((Tally.start.addAll (transferResults env token caller transfers w.tokens)).toResult
        transfers.length)
      { w with
        tokens := run (makeOrSkip env token caller) w.tokens transfers, events := events } := by
  have htried : ∀ r ∈ transferResults env token caller transfers w.tokens, r.tried = true := by
    intro r hr
    obtain ⟨p, -, rfl⟩ := List.mem_map.mp hr
    unfold transferResult
    split_ifs <;> rfl
  have hlength : (transferResults env token caller transfers w.tokens).length =
      transfers.length := by
    rw [transferResults, List.length_map, length_trace]
  obtain ⟨hall, hreverted, htotal, hsucceeded, hsum⟩ := Tally.toResult_addAll htried hlength
  constructor
  · exact hreverted
  · exact htotal
  · rw [hall, hlength]
  · exact hsum
  · rw [hall]
    exact hsucceeded
  · intro i x hx
    rw [hall, getElem?_transferResults hx, Option.some_inj, transferResult_success]
  · intro i x hx
    have hnext : balancesAfter env token caller transfers w (i + 1) =
        makeOrSkip env token caller x (balancesAfter env token caller transfers w i) :=
          run_take_succ hx
    rw [hall, getElem?_transferResults hx, hnext, makeOrSkip]
    by_cases hpossible : Possible env token caller x (balancesAfter env token caller transfers w i)
    · rw [transferResult_success.mpr hpossible, if_pos hpossible]
      exact .inl ⟨rfl, rfl⟩
    · obtain ⟨code, hcode⟩ := transferResult_failure hpossible
      rw [hcode, if_neg hpossible]
      exact .inr ⟨⟨code, rfl⟩, rfl⟩
  · intro i x hx hneg
    rw [hall, getElem?_transferResults hx]
    obtain ⟨code, hcode⟩ := transferResult_failure
      (fun hpossible => absurd hpossible.1 (not_lt.mpr hneg) :
        ¬ Possible env token caller x (balancesAfter env token caller transfers w i))
    exact ⟨code, congrArg some hcode⟩
  · rw [hall]
    exact run_makeOrSkip transfers w.tokens
  · rw [balancesAfter, List.take_length]

/-- In non-atomic mode a batch that passes the checks returns true accounts, and any other is
    refused and changes nothing. -/
theorem executeMultiTransfer_accounted (env : Env me) (caller token : Address)
    (transfers : List BatchTransfer) (config : BatchConfig) (hmode : config.mode = .nonAtomic)
    (w : World S) :
    (config.Accepts transfers → w.shared.batchLock = false →
      ∃ r w', executeMultiTransfer env caller token transfers config w = .ok r w' ∧
        Accounted env caller token transfers w r w') ∧
    (¬ (config.Accepts transfers ∧ w.shared.batchLock = false) →
      ∃ e, executeMultiTransfer env caller token transfers config w = .fail (.err e) w) := by
  refine ⟨?_, executeMultiTransfer_refused⟩
  intro haccepts hfree
  exact ⟨_, _, executeMultiTransfer_nonAtomic hmode haccepts hfree,
    accounted_of_results _ _ _ _ _ _⟩

/-- A batch of four: the caller pays 30, nothing, more than it has left, and 70. -/
theorem executeMultiTransfer_accounted_four :
    ∃ r w', executeMultiTransfer (Env.signedBy ⟨0⟩ 1 1 [⟨1⟩]) ⟨1⟩ ⟨9⟩
        [⟨⟨2⟩, 30⟩, ⟨⟨3⟩, 0⟩, ⟨⟨4⟩, 71⟩, ⟨⟨5⟩, 70⟩] ⟨.nonAtomic, 4⟩ callerFunded = .ok r w' ∧
      Accounted (Env.signedBy ⟨0⟩ 1 1 [⟨1⟩]) ⟨1⟩ ⟨9⟩ [⟨⟨2⟩, 30⟩, ⟨⟨3⟩, 0⟩, ⟨⟨4⟩, 71⟩, ⟨⟨5⟩, 70⟩]
        callerFunded r w' :=
  (executeMultiTransfer_accounted (Env.signedBy ⟨0⟩ 1 1 [⟨1⟩]) ⟨1⟩ ⟨9⟩ _ ⟨.nonAtomic, 4⟩ rfl
    callerFunded).1 (by decide) rfl

example : (executeMultiTransfer (Env.signedBy ⟨0⟩ 1 1 [⟨1⟩]) ⟨1⟩ ⟨9⟩
    [⟨⟨2⟩, 30⟩, ⟨⟨3⟩, 0⟩, ⟨⟨4⟩, 71⟩, ⟨⟨5⟩, 70⟩] ⟨.nonAtomic, 4⟩).value callerFunded =
      some ⟨[.success, .failure 803, .failure 3, .success], 4, 2, 2, false⟩ := by
  decide +kernel

end Trellis
