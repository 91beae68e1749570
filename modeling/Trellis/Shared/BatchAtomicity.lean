import Trellis.Shared.Batch

/-!
# Atomicity of batch transfers

In atomic mode a batch should make all its transfers or none. `AllOrNothing` says so of an outcome
of the executor: every item was applied in order, or every balance is what it was. A trap rolls the
invocation back, and an invocation that returns a value is committed.

Results:
* `executeMultiTransfer_allOrNothing_iff`: exactly when the executor keeps to this. It does not
  when a positive prefix of the batch has paid others and an amount that is not positive follows:
  the loop breaks there, the value it returns says `reverted`, and the prefix stays paid.
-/

namespace Trellis

variable {me : Address} {S : Type}

/-- Every token balance of `w'` is the one of `w`. -/
def SameBalances (w w' : World S) : Prop :=
  ∀ t a, w'.tokens.balance t a = w.tokens.balance t a

/-- An outcome of the executor from the state `w` made all the transfers in order, or left every
    balance as it was. -/
def AllOrNothing (token caller : Address) (transfers : List BatchTransfer) (w : World S) :
    Outcome (World S) Trap BatchError BatchResult → Prop
  | .ok r w' =>
    (w'.tokens = w.tokens.moveAll (transfers.map (·.toTransfer token caller)) ∧
      r.total = transfers.length ∧ r.succeeded = r.total ∧ r.reverted = false) ∨ SameBalances w w'
  | .fail (.err _) w' => SameBalances w w'
  | .fail (.trap _) _ => True

/-- Items that all go to the caller change no balance. -/
theorem netAll_of_dst_eq {token caller : Address} {xs : List BatchTransfer}
    (h : ∀ x ∈ xs, x.dst = caller) (t a : Address) :
    netAll t a (xs.map (·.toTransfer token caller)) = 0 := by
  induction xs with
  | nil => rfl
  | cons x xs ih =>
    have hx : x.dst = caller := h x (by simp)
    rw [List.map_cons, netAll_cons, ih fun y hy => h y (by simp [hy])]
    unfold Transfer.net BatchTransfer.toTransfer
    split_ifs <;> simp_all

/-- Positive items bring something to others unless they all go to the caller. -/
theorem paidToOthers_pos {caller : Address} {xs : List BatchTransfer}
    (hpos : ∀ x ∈ xs, 0 < x.amount) (h : ¬ ∀ x ∈ xs, x.dst = caller) :
    0 < paidToOthers caller xs := by
  push Not at h
  obtain ⟨x, hx, hdst⟩ := h
  have hle : x.amount ≤ paidToOthers caller xs := by
    refine List.single_le_sum (fun y hy => ?_) _ (List.mem_map_of_mem ?_)
    · obtain ⟨z, hz, rfl⟩ := List.mem_map.mp hy
      exact (hpos z (List.mem_filter.mp hz).1).le
    · exact List.mem_filter.mpr ⟨hx, decide_eq_true hdst⟩
  exact (hpos x hx).trans_le hle

/-- An executor that returns no result has changed no balance. -/
theorem allOrNothing_of_not_ok {env : Env me} {caller token : Address}
    {transfers : List BatchTransfer} {config : BatchConfig} {w : World S}
    (h : ∀ r w', executeMultiTransfer env caller token transfers config w ≠ .ok r w') :
    AllOrNothing token caller transfers w
      (executeMultiTransfer env caller token transfers config w) := by
  cases hx : executeMultiTransfer env caller token transfers config w with
  | ok r w' => exact absurd hx (h r w')
  | fail f w' =>
    cases f with
    | err e =>
      have hw : w' = w := executeMultiTransfer_err hx
      subst hw
      exact fun t a => rfl
    | trap t => exact trivial

/-- An accepted batch in atomic mode is all or nothing exactly when the guard was held, or every
    amount is positive, or the items before the first amount that is not positive all go to the
    caller itself (there may be none), or one of these items is not possible and traps. -/
theorem executeMultiTransfer_allOrNothing_iff (env : Env me) (caller token : Address)
    (transfers : List BatchTransfer) (config : BatchConfig) (w : World S)
    (hmode : config.mode = .atomic) (haccepts : config.Accepts transfers) :
    AllOrNothing token caller transfers w
        (executeMultiTransfer env caller token transfers config w) ↔
      w.shared.batchLock = true ∨ (∀ x ∈ transfers, 0 < x.amount) ∨
        (∀ x ∈ leading transfers, x.dst = caller) ∨
        ¬ env.AllowsAll w.tokens ((leading transfers).map (·.toTransfer token caller)) := by
  by_cases hlock : w.shared.batchLock = true
  · refine iff_of_true (allOrNothing_of_not_ok fun r w' h => ?_) (.inl hlock)
    rw [executeMultiTransfer_atomic_ok hmode] at h
    simp [hlock] at h
  by_cases hall : env.AllowsAll w.tokens ((leading transfers).map (·.toTransfer token caller))
  swap
  · refine iff_of_true (allOrNothing_of_not_ok fun r w' h => ?_) (.inr (.inr (.inr hall)))
    rw [executeMultiTransfer_atomic_ok hmode] at h
    exact hall h.2.2.1
  -- the executor returns; what it did is known
  have hok := (executeMultiTransfer_atomic_ok hmode).mpr
    ⟨haccepts, by simpa using hlock, hall, rfl, rfl⟩
  rw [hok]
  simp only [hlock, hall, not_true, or_false, false_or, Bool.false_eq_true]
  constructor
  · rintro (⟨-, -, -, hrev⟩ | hsame)
    · left
      intro x hx
      by_contra hneg
      have hrev' : (atomicTally transfers .start).reverted = true :=
        (atomicTally_reverted transfers .start).mpr (.inr ⟨x, hx, by omega⟩)
      rw [Tally.toResult, hrev'] at hrev
      cases hrev
    · right
      have hnet := hsame token caller
      rw [Ledger.balance_moveAll, netAll_toTransfer] at hnet
      by_contra hothers
      have hpaid := paidToOthers_pos (fun x hx => pos_of_mem_leading hx) hothers
      omega
  · rintro (hpos | hself)
    · left
      have hrev : ¬ (atomicTally transfers .start).reverted = true := by
        rw [atomicTally_reverted]
        rintro (h | ⟨x, hx, hle⟩)
        · cases h
        · exact absurd (hpos x hx) (by omega)
      have hlead : leading transfers = transfers := leading_eq_self.mpr hpos
      refine ⟨by rw [hlead], rfl, ?_, by simpa [Tally.toResult] using hrev⟩
      simp [Tally.toResult, atomicTally_succeeded, hlead, Tally.start]
    · right
      intro t a
      rw [Ledger.balance_moveAll, netAll_of_dst_eq hself, add_zero]

/-! ## Two batches -/

/-- The caller `⟨1⟩` of the contract `⟨0⟩` holds 100 of the token `⟨9⟩`. -/
def callerFunded : World Unit := World.deployed () (.ofList [(⟨9⟩, ⟨1⟩, 100)])

/-- A batch of two positive items. -/
theorem executeMultiTransfer_allOrNothing_positive :
    AllOrNothing ⟨9⟩ ⟨1⟩ [⟨⟨2⟩, 30⟩, ⟨⟨3⟩, 40⟩] callerFunded
      (executeMultiTransfer (Env.signedBy ⟨0⟩ 1 1 [⟨1⟩]) ⟨1⟩ ⟨9⟩ [⟨⟨2⟩, 30⟩, ⟨⟨3⟩, 40⟩]
        ⟨.atomic, 3⟩ callerFunded) :=
  (executeMultiTransfer_allOrNothing_iff (Env.signedBy ⟨0⟩ 1 1 [⟨1⟩]) ⟨1⟩ ⟨9⟩
    [⟨⟨2⟩, 30⟩, ⟨⟨3⟩, 40⟩] ⟨.atomic, 3⟩ callerFunded rfl (by decide)).mpr (.inr (.inl (by decide)))

/-- A batch of two positive items and one of zero: the executor returns, and the two stay paid. -/
theorem executeMultiTransfer_half_done :
    BatchConfig.Accepts ⟨.atomic, 3⟩ [⟨⟨2⟩, 30⟩, ⟨⟨3⟩, 40⟩, ⟨⟨4⟩, 0⟩] ∧
      ¬ AllOrNothing ⟨9⟩ ⟨1⟩ [⟨⟨2⟩, 30⟩, ⟨⟨3⟩, 40⟩, ⟨⟨4⟩, 0⟩] callerFunded
        (executeMultiTransfer (Env.signedBy ⟨0⟩ 1 1 [⟨1⟩]) ⟨1⟩ ⟨9⟩
          [⟨⟨2⟩, 30⟩, ⟨⟨3⟩, 40⟩, ⟨⟨4⟩, 0⟩] ⟨.atomic, 3⟩ callerFunded) := by
  refine ⟨by decide, ?_⟩
  rintro (⟨-, -, -, hrev⟩ | hsame)
  · exact absurd hrev (by decide)
  · exact absurd (hsame ⟨9⟩ ⟨2⟩) (by decide)

end Trellis
