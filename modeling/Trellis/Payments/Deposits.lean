import Trellis.Lib.Lockstep
import Trellis.Payments.Solvency

/-!
# The deposits

The contract keeps a balance for each user and the total of them. Both withdrawals lower the total
by `total.checked_sub(x).unwrap_or(0)`, which would set it to zero if the subtraction failed, and
`withdraw_amount` lowers the balance by a plain `-`.

Results:
* `withdraw_eq_exact`, `withdrawAmount_eq_exact`: none of these subtractions fails in a reachable
  state.
* `depositors_run`: the users with a stored balance are those who have deposited.
* `balanceOf_step`: a step changes the balance of the user who signed it, if any.
* `deposit_bookkeeping`: the same over every run, and the total is the sum of the balances.
-/

namespace Trellis.Payments

open Exec

variable {me : Address}

/-! ## The subtractions -/

/-- `withdraw` with a subtraction that cannot fail. -/
def withdrawExact (env : Env me) (who : Address) : Invocation Store Error ℤ := do
  requireAuth env who
  let deposited ← read fun s => s.balanceOf who
  failIf (deposited ≤ 0) .paymentInsufficientBalance
  let net ← payOut env who deposited
  write fun s => { s with deposited := s.deposited.insert who 0 }
  let total ← read Store.getTotalDeposits
  write fun s => { s with totalDeposits := some (total - deposited) }
  emit "t_wdw" [.symbol "default", .address who, .i128 deposited, .i128 net]
  pure net

/-- `withdraw_amount` with subtractions that cannot fail. -/
def withdrawAmountExact (env : Env me) (who : Address) (amount : ℤ) : Invocation Store Error ℤ := do
  failIf (amount ≤ 0) .paymentInvalidAmount
  requireAuth env who
  let deposited ← read fun s => s.balanceOf who
  failIf (amount > deposited) .paymentInsufficientBalance
  let net ← payOut env who amount
  write fun s => { s with deposited := s.deposited.insert who (deposited - amount) }
  let total ← read Store.getTotalDeposits
  write fun s => { s with totalDeposits := some (total - amount) }
  pure net

section

variable {token : Address} {w : World Store} (h : Inv token w) (env : Env me) (who : Address)

include h

/-- In `withdraw` the fallback `unwrap_or(0)` is never taken. -/
theorem withdraw_eq_exact : withdraw env who w = withdrawExact env who w := by
  unfold withdraw withdrawExact
  apply bind_congr_of_ok
  intro _ w₁ hauth
  obtain ⟨-, rfl⟩ := requireAuth_ok.mp hauth
  apply bind_congr_of_ok
  intro deposited w₂ hread
  obtain ⟨rfl, rfl⟩ := read_ok.mp hread
  apply bind_congr_of_ok
  intro _ w₃ hcheck
  obtain ⟨hpos, rfl⟩ := failIf_ok.mp hcheck
  apply bind_congr_of_ok
  intro net w₄ hpay
  obtain ⟨_, _, _, -, -, -, events, rfl⟩ := payOut_ok hpay
  apply bind_congr_of_ok
  intro _ w₅ hwrite
  obtain rfl := write_ok.mp hwrite
  apply bind_congr_of_ok
  intro total w₆ htotal
  obtain ⟨rfl, rfl⟩ := read_ok.mp htotal
  have hsub := (h.checkedSub (not_le.mp hpos) le_rfl).1
  dsimp only [Store.getTotalDeposits] at hsub ⊢
  rw [hsub]

/-- In `withdraw_amount` it is not taken either, and the balance is at least the amount. -/
theorem withdrawAmount_eq_exact (amount : ℤ) :
    withdrawAmount env who amount w = withdrawAmountExact env who amount w := by
  unfold withdrawAmount withdrawAmountExact
  apply bind_congr_of_ok
  intro _ w₁ hcheck
  obtain ⟨hpos, rfl⟩ := failIf_ok.mp hcheck
  apply bind_congr_of_ok
  intro _ w₂ hauth
  obtain ⟨-, rfl⟩ := requireAuth_ok.mp hauth
  apply bind_congr_of_ok
  intro deposited w₃ hread
  obtain ⟨rfl, rfl⟩ := read_ok.mp hread
  apply bind_congr_of_ok
  intro _ w₄ hcheck
  obtain ⟨hle, rfl⟩ := failIf_ok.mp hcheck
  apply bind_congr_of_ok
  intro net w₅ hpay
  obtain ⟨_, _, _, -, -, -, events, rfl⟩ := payOut_ok hpay
  have hbalance : checkedSub (w₄.store.balanceOf who) amount =
      some (w₄.store.balanceOf who - amount) := by
    have hsum := balanceOf_le_sum h.nonneg who
    have htotal := h.total_eq
    obtain ⟨-, hhigh⟩ := h.fits
    exact checkedSub_eq_some.mpr ⟨⟨by omega, by omega⟩, rfl⟩
  rw [hbalance, bind_of_ok (expect_ok.mpr ⟨rfl, rfl⟩)]
  apply bind_congr_of_ok
  intro _ w₆ hwrite
  obtain rfl := write_ok.mp hwrite
  apply bind_congr_of_ok
  intro total w₇ htotal
  obtain ⟨rfl, rfl⟩ := read_ok.mp htotal
  have hsub := (h.checkedSub (not_le.mp hpos) (not_lt.mp hle)).1
  dsimp only [Store.getTotalDeposits] at hsub ⊢
  rw [hsub]

end

/-! ## Who has deposited -/

/-- The user whose deposit the step is, if it goes through. -/
def depositor (w : World Store) : Step me Entry → Option Address
  | .call env (.deposit src amount) => ((deposit env src amount).value w).map fun _ => src
  | _ => none

/-- The user whose balance a call is about. -/
def Entry.user : Entry → Option Address
  | .deposit src _ => some src
  | .withdraw who => some who
  | .withdrawAmount who _ => some who
  | _ => none

theorem mem_keys_of_pos {s : Store} {who : Address} (h : 0 < s.balanceOf who) :
    who ∈ s.deposited.keys := by
  unfold Store.balanceOf at h
  cases hb : s.deposited.lookup who with
  | none =>
    rw [hb] at h
    exact absurd h (lt_irrefl 0)
  | some b => exact Table.mem_keys_of_lookup hb

theorem balanceOf_set {s s' : Store} {who a : Address} {balance : ℤ}
    (h : s'.deposited = s.deposited.insert who balance) (hne : a ≠ who) :
    s'.balanceOf a = s.balanceOf a := by
  unfold Store.balanceOf
  rw [h, Table.lookup_set, if_neg hne]

/-- A call that goes through leaves the balances alone, or is a deposit or a withdrawal that its
    user has signed. -/
theorem deposited_done {env : Env me} {c : Entry} {w w' : World Store} (hdone : Done env w c w') :
    w'.store.deposited = w.store.deposited ∨
      ∃ who balance, c.user = some who ∧ env.signed who = true ∧
        w'.store.deposited = w.store.deposited.insert who balance ∧
        ((∃ amount, c = .deposit who amount) ∨ who ∈ w.store.deposited.keys) := by
  cases hdone with
  | init | setFeeRate | createEscrowEntry | releaseEscrowEntry | refundEscrowEntry | batchPayout =>
    exact .inl rfl
  | @deposit src amount events token hpos htoken hsigned =>
    exact .inr ⟨src, _, rfl, hsigned, rfl, .inl ⟨amount, rfl⟩⟩
  | @withdraw who events token recipient fee net htoken hrecipient hsigned hpos =>
    exact .inr ⟨who, _, rfl, hsigned, rfl, .inr (mem_keys_of_pos hpos)⟩
  | @withdrawAmount who amount events token recipient fee net htoken hrecipient hsigned hpos hle =>
    exact .inr ⟨who, _, rfl, hsigned, rfl, .inr (mem_keys_of_pos (hpos.trans_le hle))⟩

/-- A step changes the balance of a user only if it is a call about that user, who has signed it. -/
theorem balanceOf_step {w : World Store} {s : Step me Entry} {a : Address}
    (h : (step s w).store.balanceOf a ≠ w.store.balanceOf a) :
    ∃ env c, s = .call env c ∧ c.user = some a ∧ env.signed a = true := by
  rcases step_cases s w with ⟨env, x, hx⟩ | hx | ⟨env, c, w', rfl, hx, hdone⟩
  · rw [hx, store_outsideTransfer] at h
    exact absurd rfl h
  · rw [hx] at h
    exact absurd rfl h
  · rw [hx] at h
    rcases deposited_done hdone with hsame | ⟨who, balance, huser, hsigned, hset, -⟩
    · refine absurd ?_ h
      unfold Store.balanceOf
      rw [hsame]
    · have hwho : a = who := by
        by_contra hne
        exact h (balanceOf_set hset hne)
      exact ⟨env, c, rfl, hwho ▸ huser, hwho ▸ hsigned⟩

/-- The users with a stored balance after a step are those before, and the one who deposits in
    it. -/
theorem depositor_step (w : World Store) (s : Step me Entry) (a : Address) :
    a ∈ (step s w).store.deposited.keys ↔
      a ∈ w.store.deposited.keys ∨ depositor w s = some a := by
  by_cases hdeposit : ∃ env src amount, s = .call env (.deposit src amount)
  · obtain ⟨env, src, amount, rfl⟩ := hdeposit
    refine value_commit_induct (G := fun o (w' : World Store) =>
      a ∈ w'.store.deposited.keys ↔ _ ∨ o.map (fun _ => src) = some a) ?_ fun u w' hok => ?_
    · simp
    · cases deposit_done hok with
      | deposit =>
        dsimp only
        rw [Option.map_some, Option.some_inj, Table.keys_set, Finset.mem_insert, or_comm, eq_comm]
  · have hnone : depositor w s = none := by
      unfold depositor
      split
      · exact absurd ⟨_, _, _, rfl⟩ hdeposit
      · rfl
    rw [hnone]
    simp only [reduceCtorEq, or_false]
    rcases step_cases s w with ⟨env, x, hx⟩ | hx | ⟨env, c, w', rfl, hx, hdone⟩
    · rw [hx, store_outsideTransfer]
    · rw [hx]
    · rw [hx]
      rcases deposited_done hdone with hsame | ⟨who, balance, -, -, hset, ⟨amount, rfl⟩ | hmem⟩
      · rw [hsame]
      · exact absurd ⟨env, who, amount, rfl⟩ hdeposit
      · rw [hset, Table.keys_set, Finset.insert_eq_of_mem hmem]

/-! ## Every run -/

/-- The sum of the balances is the sum over those who have deposited. -/
theorem sumDeposited_eq {w : World Store} {steps : List (Step me Entry)}
    (hempty : w.store.deposited = ∅) :
    (run step w steps).store.sumDeposited =
      ∑ a ∈ (yields step depositor w steps).toFinset, (run step w steps).store.balanceOf a := by
  have hkeys : (run step w steps).store.deposited.keys =
      (yields step depositor w steps).toFinset := by
    ext a
    have htaken := taken_run_iff (P := fun _ => True)
      (fun (w : World Store) a => a ∈ w.store.deposited.keys) (fun _ _ _ => trivial)
      (fun w s a _ => depositor_step w s a) trivial steps a (s := w)
    rw [htaken, hempty, List.mem_toFinset]
    simp
  unfold Store.sumDeposited Table.total
  rw [hkeys]
  refine Finset.sum_congr rfl fun a _ => ?_
  unfold Store.balanceOf
  cases (run step w steps).store.deposited.lookup a <;> rfl

/-- After the first `initialize` and any steps without another one: no balance is negative; the
    total is the sum of the balances of all who have deposited; every step changes at most the
    balance of the user it is about, who has signed it; and the withdrawals are those with plain
    subtractions. -/
theorem deposit_bookkeeping {env₀ : Env me} {admin token recipient : Address} {rate : ℤ}
    {tokens : TokenLedger} {w : World Store} {u : Unit}
    (hinit : init env₀ admin token rate recipient (World.deployed Store.empty tokens) = .ok u w)
    (steps : List (Step me Entry)) (honce : ∀ s ∈ steps, ¬ Initializes s) :
    (∀ a, 0 ≤ (run step w steps).store.balanceOf a) ∧
    (run step w steps).store.getTotalDeposits =
      ∑ a ∈ (yields step depositor w steps).toFinset, (run step w steps).store.balanceOf a ∧
    (∀ x ∈ trace step w steps, ∀ a, (step x.2 x.1).store.balanceOf a ≠ x.1.store.balanceOf a →
      ∃ env c, x.2 = .call env c ∧ c.user = some a ∧ env.signed a = true) ∧
    ∀ (env : Env me) who,
      withdraw env who (run step w steps) = withdrawExact env who (run step w steps) ∧
      ∀ amount, withdrawAmount env who amount (run step w steps) =
        withdrawAmountExact env who amount (run step w steps) := by
  have hinv : Inv token (run step w steps) :=
    run_induct_of_trace (Q := fun _ s => ¬ Initializes s) (fun _ _ h hs => h.step hs)
      (Inv.start hinit) fun x hx => honce x.2 (mem_of_mem_trace hx)
  have hempty : w.store.deposited = ∅ := by
    cases init_done hinit with
    | init => rfl
  refine ⟨balanceOf_nonneg hinv.nonneg, ?_, fun x _ a h => balanceOf_step h, fun env who => ?_⟩
  · rw [hinv.total_eq, sumDeposited_eq hempty]
  · exact ⟨withdraw_eq_exact hinv env who, withdrawAmount_eq_exact hinv env who⟩

/-- The user deposits 60 and withdraws 20 of it. -/
def partialRun : List (Step ⟨0⟩ Entry) :=
  [.call (.signedBy ⟨0⟩ 2 2 [⟨2⟩]) (.deposit ⟨2⟩ 60),
    .call (.signedBy ⟨0⟩ 3 3 [⟨2⟩]) (.withdrawAmount ⟨2⟩ 20)]

theorem partialRun_once : ∀ s ∈ partialRun, ¬ Initializes s := by
  intro s hs
  fin_cases hs <;> exact id

/-- The total is then the one balance of 40. -/
theorem deposit_bookkeeping_partial :
    (run step opened partialRun).store.getTotalDeposits = 40 ∧
      (run step opened partialRun).store.getTotalDeposits =
        ∑ a ∈ (yields step depositor opened partialRun).toFinset,
          (run step opened partialRun).store.balanceOf a :=
  ⟨by decide, (deposit_bookkeeping init_opened partialRun partialRun_once).2.1⟩

end Trellis.Payments
