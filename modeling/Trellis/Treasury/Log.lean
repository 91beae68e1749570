import Trellis.Lib.Journal
import Trellis.Lib.Run
import Trellis.Treasury.Contract

/-!
# The event log of the treasury

The treasury keeps a balance a category, and publishes an event for every change of one. `booking`
reads the change off an event, as an indexer does; events of other topics book nothing.

Results:
* `Recorded.step`: a step keeps the balances what the log books, and none of them negative.
* `one_category`: a step changes the balance of one category at most.
* `ledger_eq_log`: the same for every run.
-/

namespace Trellis.Treasury

open Exec

variable {me : Address}

/-- The change that an event of the treasury stands for: a deposit, a withdrawal, a commission paid
    from the rewards, or an emergency withdrawal from the reserve. -/
def booking (e : Event) : Option (Booking Symbol) :=
  if e.topics = ["treasury", "deposit"] then
    match e.data with
    | [.symbol category, .address _, .i128 amount, .i128 newBalance] =>
      some ⟨category, amount, some newBalance⟩
    | _ => none
  else if e.topics = ["treasury", "withdraw"] then
    match e.data with
    | [.symbol category, .address _, .i128 amount, .i128 remaining] =>
      some ⟨category, -amount, some remaining⟩
    | _ => none
  else if e.topics = ["comm", "paid"] then
    match e.data with
    | [.address _, .i128 amount, .u64 _] => some ⟨rewardsCategory, -amount, none⟩
    | _ => none
  else if e.topics = [treasuryEmergencyWithdraw] then
    match e.data with
    | [.address _, .address _, .i128 amount] => some ⟨reserveCategory, -amount, none⟩
    | _ => none
  else none

theorem booking_logging (topic : Symbol) (data : List Val) :
    booking ⟨["logging", topic], data⟩ = none := by
  unfold booking
  rw [if_neg (by simp), if_neg (by simp), if_neg (by simp), if_neg (by simp)]

theorem booking_deposit (category : Symbol) (depositor : Address) (amount newBalance : ℤ) :
    booking ⟨["treasury", "deposit"],
      [.symbol category, .address depositor, .i128 amount, .i128 newBalance]⟩ =
        some ⟨category, amount, some newBalance⟩ := by
  unfold booking
  rw [if_pos rfl]

theorem booking_withdraw (category : Symbol) (recipient : Address) (amount remaining : ℤ) :
    booking ⟨["treasury", "withdraw"],
      [.symbol category, .address recipient, .i128 amount, .i128 remaining]⟩ =
        some ⟨category, -amount, some remaining⟩ := by
  unfold booking
  rw [if_neg (by simp), if_pos rfl]

theorem booking_paid (recipient : Address) (amount : ℤ) (paidAt : ℕ) :
    booking ⟨["comm", "paid"], [.address recipient, .i128 amount, .u64 paidAt]⟩ =
      some ⟨rewardsCategory, -amount, none⟩ := by
  unfold booking
  rw [if_neg (by simp), if_neg (by simp), if_pos rfl]

theorem booking_emergency (caller dst : Address) (amount : ℤ) :
    booking ⟨[treasuryEmergencyWithdraw], [.address caller, .address dst, .i128 amount]⟩ =
      some ⟨reserveCategory, -amount, none⟩ := by
  unfold booking
  rw [if_neg (by simp), if_neg (by simp), if_neg (by simp), if_pos rfl]

/-- The balances are what the log books, and none is negative. -/
structure Recorded (w : World Store) : Prop where
  accounts : Accounts booking w.events w.store.categoryBalance
  nonneg (category : Symbol) : 0 ≤ w.store.categoryBalance category

theorem categoryBalance_empty (category : Symbol) : Store.empty.categoryBalance category = 0 := by
  show ((∅ : Table Symbol ℤ).lookup category).getD 0 = 0
  rw [Finmap.lookup_empty, Option.getD_none]

theorem Recorded.deployed (tokens : TokenLedger) : Recorded (deployed tokens) := by
  constructor
  · exact Accounts.nil categoryBalance_empty
  · intro category
    exact (categoryBalance_empty category).ge

/-- An event that books nothing is published, and no balance changes. -/
theorem Recorded.log {w w' : World Store} (h : Recorded w) {e : Event} (he : booking e = none)
    (hevents : w'.events = w.events ++ [e]) (hbalances : w'.store.balances = w.store.balances) :
    Recorded w' := by
  have hsame : w'.store.categoryBalance = w.store.categoryBalance := by
    unfold Store.categoryBalance
    rw [hbalances]
  constructor
  · rw [hevents, hsame]
    exact h.accounts.note he
  · rw [hsame]
    exact h.nonneg

/-- A balance changes, and the event that books the change is published with another that books
    nothing. -/
theorem Recorded.book {w w' : World Store} (h : Recorded w) {category : Symbol} {balance : ℤ}
    {e e' : Event} {stated : Option ℤ}
    (he : booking e = some ⟨category, balance - w.store.categoryBalance category, stated⟩)
    (hstated : ∀ n, stated = some n → n = balance) (he' : booking e' = none)
    (hevents : w'.events = w.events ++ [e, e'])
    (hstore : w'.store = w.store.setBalance category balance) (hnonneg : 0 ≤ balance) :
    Recorded w' := by
  have hbalance : ∀ c, w'.store.categoryBalance c = w.store.categoryBalance c +
      if category = c then balance - w.store.categoryBalance category else 0 := by
    intro c
    rw [hstore, Store.categoryBalance_setBalance]
    by_cases hc : c = category
    · rw [if_pos hc, if_pos hc.symm, hc]
      omega
    · rw [if_neg hc, if_neg (Ne.symm hc), add_zero]
  constructor
  · rw [hevents, ← List.singleton_append, ← List.append_assoc]
    refine (h.accounts.post he hbalance ?_).note he'
    intro n hn
    rw [hstated n hn, hstore, Store.categoryBalance_setBalance, if_pos rfl]
  · intro c
    rw [hstore, Store.categoryBalance_setBalance]
    split_ifs
    · exact hnonneg
    · exact h.nonneg c

theorem Recorded.done {env : Env me} {w w' : World Store} {c : Entry} (h : Recorded w)
    (hdone : Done env w c w') : Recorded w' := by
  have hlogged : ∀ action caller, booking (loggedAction action caller env.timestamp) = none :=
    fun _ _ => booking_logging _ _
  cases hdone with
  | init => exact h.log (booking_logging _ _) rfl rfl
  | addTreasuryManager => exact h.log (booking_logging _ _) rfl rfl
  | removeTreasuryManager => exact h.log (booking_logging _ _) rfl rfl
  | setWithdrawalLimit => exact h.log (booking_logging _ _) rfl rfl
  | setReferralContract => exact h.log (booking_logging _ _) rfl rfl
  | @deposit caller category amount hpos =>
    have hnonneg := h.nonneg category
    have he := booking_deposit category caller amount (w.store.categoryBalance category + amount)
    have hchange : amount = w.store.categoryBalance category + amount -
        w.store.categoryBalance category := by omega
    exact h.book (he.trans (by rw [← hchange])) (fun n hn => (Option.some.inj hn).symm)
      (hlogged _ _)
      rfl rfl (by omega)
  | @withdraw caller dst amount category hpos hlimit hbalance =>
    have he := booking_withdraw category dst amount (w.store.categoryBalance category - amount)
    have hchange : -amount = w.store.categoryBalance category - amount -
        w.store.categoryBalance category := by omega
    exact h.book (he.trans (by rw [← hchange])) (fun n hn => (Option.some.inj hn).symm)
      (hlogged _ _)
      rfl rfl (by omega)
  | @emergencyWithdraw caller dst amount hpos hpaused hbalance =>
    have he := booking_emergency caller dst amount
    have hchange : -amount = w.store.categoryBalance reserveCategory - amount -
        w.store.categoryBalance reserveCategory := by omega
    exact h.book (he.trans (by rw [← hchange])) (fun n hn => by cases hn) (hlogged _ _) rfl rfl
      (by omega)
  | @distributeReward recipient amount referral hpos hbalance =>
    have he := booking_paid recipient amount env.timestamp
    have hchange : -amount = w.store.categoryBalance rewardsCategory - amount -
        w.store.categoryBalance rewardsCategory := by omega
    exact h.book (he.trans (by rw [← hchange])) (fun n hn => by cases hn) (hlogged _ _) rfl rfl
      (by omega)

theorem Recorded.step {w : World Store} (h : Recorded w) (s : Step me Entry) :
    Recorded (step s w) := by
  rcases step_cases s w with ⟨env, x, hstep⟩ | hstep | ⟨env, c, w', -, hstep, hdone⟩
  · rw [hstep]
    rcases outsideTransfer_cases env x w with hsame | ⟨-, -, hmoved⟩
    · rw [hsame]
      exact h
    · rw [hmoved]
      exact ⟨h.accounts, h.nonneg⟩
  · rw [hstep]
    exact h
  · rw [hstep]
    exact h.done hdone

/-- The balance of the category is not the same before and after the step. -/
def Changes (w : World Store) (s : Step me Entry) (category : Symbol) : Prop :=
  (step s w).store.categoryBalance category ≠ w.store.categoryBalance category

/-- A step that leaves all balances alone, or writes one, changes one category at most. -/
theorem eq_of_changes {w : World Store} {s : Step me Entry}
    (h : (step s w).store.balances = w.store.balances ∨
      ∃ category balance, (step s w).store = w.store.setBalance category balance) {k k' : Symbol}
    (hk : Changes w s k) (hk' : Changes w s k') : k = k' := by
  rcases h with hsame | ⟨category, balance, hstore⟩
  · refine absurd ?_ hk
    unfold Store.categoryBalance
    rw [hsame]
  · have honly : ∀ c, Changes w s c → c = category := by
      intro c hc
      by_contra hne
      refine hc ?_
      rw [hstore, Store.categoryBalance_setBalance, if_neg hne]
    rw [honly k hk, honly k' hk']

/-- A step changes one category at most. -/
theorem one_category {w : World Store} {s : Step me Entry} {k k' : Symbol} (hk : Changes w s k)
    (hk' : Changes w s k') : k = k' := by
  refine eq_of_changes ?_ hk hk'
  rcases step_cases s w with ⟨env, x, hstep⟩ | hstep | ⟨env, c, w', -, hstep, hdone⟩
  · left
    rw [hstep, store_outsideTransfer]
  · left
    rw [hstep]
  · rw [hstep]
    cases hdone with
    | init => exact .inl rfl
    | addTreasuryManager => exact .inl rfl
    | removeTreasuryManager => exact .inl rfl
    | setWithdrawalLimit => exact .inl rfl
    | setReferralContract => exact .inl rfl
    | deposit => exact .inr ⟨_, _, rfl⟩
    | withdraw => exact .inr ⟨_, _, rfl⟩
    | emergencyWithdraw => exact .inr ⟨_, _, rfl⟩
    | distributeReward => exact .inr ⟨_, _, rfl⟩

/-- The ledger of a fresh treasury after a run, and the log of the run. -/
structure LedgerEqLog (tokens : TokenLedger) (steps : List (Step me Entry)) : Prop where
  nonneg (category : Symbol) :
    0 ≤ (run step (deployed tokens) steps).store.categoryBalance category
  balance_eq (category : Symbol) :
    (run step (deployed tokens) steps).store.categoryBalance category =
      folded booking (run step (deployed tokens) steps).events category
  stated (pre post : List Event) (e : Event) (b : Booking Symbol) (balance : ℤ) :
    (run step (deployed tokens) steps).events = pre ++ e :: post → booking e = some b →
      b.balance = some balance → balance = folded booking (pre ++ [e]) b.account
  one_category (x : World Store × Step me Entry) (k k' : Symbol) :
    x ∈ trace step (deployed tokens) steps → Changes x.1 x.2 k → Changes x.1 x.2 k' → k = k'

/-- In every run of a fresh treasury, whatever the calls, the balances are what the events of the
    run book. -/
theorem ledger_eq_log (tokens : TokenLedger) (steps : List (Step me Entry)) :
    LedgerEqLog tokens steps := by
  have hrecorded : Recorded (run step (deployed tokens) steps) :=
    run_induct (P := Recorded) (fun w s h => h.step s) (Recorded.deployed tokens) steps
  constructor
  · exact hrecorded.nonneg
  · exact hrecorded.accounts.agrees
  · exact hrecorded.accounts.stated
  · intro x k k' _ hk hk'
    exact one_category hk hk'

end Trellis.Treasury
