import Trellis.Aid.Escrow
import Trellis.Lib.Sweep

/-!
# Nothing stays in escrow

Whatever happened to the contract, once the ledger has passed the last expiry anyone can give all
pending records back to their donors, by one `refund_aid` for each, paused or not. What then remains
in the contract is exactly what was sent to it from outside.

Results:
* `refund_step`, `refund_sweeps`: a refund after the expiry goes through, and what it does.
* `refunds_run`: a list of refunds pays every one of the donors.
* `drained`: this for all the pending records of a reachable state.
-/

namespace Trellis.Aid

open Exec

variable {me : Address}

/-- The pending records, in the order of their ids. -/
def pending (w : World Store) : List AidRecord :=
  w.store.aids.inOrder.filter fun r => r.status = .pending

/-- One call of `refund_aid` for each record. -/
def refunds (env : Env me) (records : List AidRecord) : List (Step me Entry) :=
  records.map fun r => .call env (.refundAid r.id)

/-- The payment of a refund. -/
def AidRecord.refund (me : Address) (r : AidRecord) : TokenTransfer :=
  ⟨r.token, me, r.donor, r.amount⟩

/-- The record after its refund. -/
def AidRecord.refunded (r : AidRecord) : AidRecord := { r with status := .refunded }

section

variable {tokens : TokenLedger} (hfunds : ∀ t a, 0 ≤ tokens.balance t a)

include hfunds

/-- A refund of a pending record after its expiry goes through. -/
theorem refund_step {env : Env me} (hadmits : ∀ l x, env.admits l x = true)
    (steps : List (Step me Entry)) {id : ℕ} {r : AidRecord}
    (hr : (reached tokens steps).store.aids.lookup id = some r) (hpending : r.status = .pending)
    (hlate : r.expiryLedger < env.sequence) :
    (step (.call env (.refundAid id)) (reached tokens steps)).store.aids =
        (reached tokens steps).store.aids.insert id r.refunded ∧
      (step (.call env (.refundAid id)) (reached tokens steps)).tokens =
        (reached tokens steps).tokens.move (r.refund me) := by
  have hsucceeds := (exits_reached hfunds steps hr hpending env hadmits).2.mpr hlate
  have hdone := commit_of_succeeds (fun _ _ => refundAid_done) hsucceeds
  show ((refundAid env id).commit (reached tokens steps)).store.aids = _ ∧
    ((refundAid env id).commit (reached tokens steps)).tokens = _
  generalize (refundAid env id).commit (reached tokens steps) = w' at hdone ⊢
  cases hdone with
  | refundAid r' events hr' =>
    obtain rfl := Option.some.inj (hr.symm.trans hr')
    exact ⟨rfl, rfl⟩

/-- From a reachable state the refunds of the pending records that have expired, each in an
    environment that may depend on the donor, are a sweep. -/
theorem refund_sweeps (env : Address → Env me) (hadmits : ∀ a l x, (env a).admits l x = true) :
    Sweeps step (fun w => ∃ steps : List (Step me Entry), w = reached tokens steps)
      (fun w => w.store.aids.lookup)
      (fun r => r.status = .pending ∧ r.expiryLedger < (env r.donor).sequence)
      (fun id r => .call (env r.donor) (.refundAid id)) AidRecord.refunded World.tokens
      (fun _ r l => l.move (r.refund me)) where
  keeps := by
    rintro w id r ⟨steps, rfl⟩ hr hdue
    exact ⟨steps ++ [.call (env r.donor) (.refundAid id)], by
      rw [reached, reached, run_append]; rfl⟩
  record := by
    rintro w id r ⟨steps, rfl⟩ hr ⟨hpending, hlate⟩
    rw [(refund_step hfunds (hadmits _) steps hr hpending hlate).1, Table.lookup_set, if_pos rfl]
  others := by
    rintro w id r ⟨steps, rfl⟩ hr ⟨hpending, hlate⟩ id' hid
    rw [(refund_step hfunds (hadmits _) steps hr hpending hlate).1, Table.lookup_set, if_neg hid]
  tally := by
    rintro w id r ⟨steps, rfl⟩ hr ⟨hpending, hlate⟩
    exact (refund_step hfunds (hadmits _) steps hr hpending hlate).2

/-- A list of refunds of different pending records after their expiry: each record is refunded, and
    each donor is paid. -/
theorem refunds_run {env : Env me} (hadmits : ∀ l x, env.admits l x = true)
    {records : List AidRecord} (hnodup : (records.map AidRecord.id).Nodup)
    (steps : List (Step me Entry))
    (hall : ∀ r ∈ records, (reached tokens steps).store.aids.lookup r.id = some r ∧
      r.status = .pending ∧ r.expiryLedger < env.sequence) :
    (reached tokens (steps ++ refunds env records)).tokens =
        (reached tokens steps).tokens.moveAll (records.map (AidRecord.refund me)) ∧
      (∀ r ∈ records,
        (reached tokens (steps ++ refunds env records)).store.aids.lookup r.id = some r.refunded) ∧
      ∀ id ∉ records.map AidRecord.id,
        (reached tokens (steps ++ refunds env records)).store.aids.lookup id =
          (reached tokens steps).store.aids.lookup id := by
  have hkeys : (records.map fun r => (r.id, r)).map Prod.fst = records.map AidRecord.id := by
    rw [List.map_map]
    rfl
  have hsweep : sweep (fun id _ => .call env (.refundAid id)) (records.map fun r => (r.id, r)) =
      refunds env records := by
    rw [sweep, refunds, List.map_map]
    rfl
  obtain ⟨-, htokens, hrefunded, hothers⟩ :=
    (refund_sweeps hfunds (fun _ => env) fun _ => hadmits).run (hkeys ▸ hnodup) ⟨steps, rfl⟩
      (List.forall_mem_map.mpr hall)
  rw [hsweep] at htokens hrefunded hothers
  rw [List.foldl_map] at htokens
  rw [hkeys] at hothers
  rw [reached, run_append]
  refine ⟨?_, List.forall_mem_map.mp hrefunded, hothers⟩
  rw [Ledger.moveAll, List.foldl_map]
  exact htokens

end

/-! ## The pending records -/

theorem mem_pending {w : World Store} (h : Inv me w) {r : AidRecord} :
    r ∈ pending w ↔ w.store.aids.lookup r.id = some r ∧ r.status = .pending := by
  rw [pending, List.mem_filter, Table.mem_inOrder, decide_eq_true_iff]
  refine and_congr_left fun _ => ⟨?_, fun hr => ⟨r.id, hr⟩⟩
  rintro ⟨id, hr⟩
  rw [(h.records id r hr).id_eq]
  exact hr

theorem nodup_pending {w : World Store} (h : Inv me w) : ((pending w).map AidRecord.id).Nodup := by
  rw [List.Nodup, List.pairwise_map]
  refine (Table.pairwise_inOrder fun id id' hlt r hr r' hr' hsame => ?_).filter _
  rw [(h.records id r hr).id_eq, (h.records id' r' hr').id_eq] at hsame
  omega

theorem owed_of_no_pending {aids : Table ℕ AidRecord}
    (h : ∀ id r, aids.lookup id = some r → r.status ≠ .pending) (t : Address) :
    aidHolding.owed aids t = 0 := by
  refine Finset.sum_eq_zero fun id _ => ?_
  cases hr : aids.lookup id with
  | none => rfl
  | some r => exact Holding.worth_dead (by simp [aidHolding, h id r hr]) t

/-- A run that is continued by calls receives nothing more from outside. -/
theorem receivedOutside_refunds (tokens : TokenLedger) (steps : List (Step me Entry)) (env : Env me)
    (records : List AidRecord) (t : Address) :
    receivedOutside tokens (steps ++ refunds env records) t = receivedOutside tokens steps t := by
  have hcalls : ∀ w : World Store,
      ((trace step w (refunds env records)).map fun x => x.2.received t x.1).sum = 0 := by
    induction records with
    | nil => exact fun _ => rfl
    | cons r records ih =>
      intro w
      show (0 : ℤ) + _ = 0
      rw [zero_add]
      exact ih _
  rw [receivedOutside, receivedOutside, trace_append, List.map_append, List.sum_append,
    hcalls, add_zero]

/-- From every reachable state, paused or not, once the ledger has passed the expiry of all pending
    records: anyone can call `refund_aid` for each of them; afterwards every one is refunded, every
    donor has its amounts back, no record is pending, and of every token the contract holds exactly
    what was sent to it from outside. -/
theorem drained (tokens : TokenLedger) (hfunds : ∀ t a, 0 ≤ tokens.balance t a)
    (steps : List (Step me Entry)) (env : Env me) (hadmits : ∀ l x, env.admits l x = true)
    (hlate : ∀ r ∈ pending (reached tokens steps), r.expiryLedger < env.sequence) :
    let cleared := reached tokens (steps ++ refunds env (pending (reached tokens steps)))
    cleared.tokens = (reached tokens steps).tokens.moveAll
        ((pending (reached tokens steps)).map (AidRecord.refund me)) ∧
      (∀ r ∈ pending (reached tokens steps), cleared.store.aids.lookup r.id = some r.refunded) ∧
      pending cleared = [] ∧
      ∀ t, cleared.tokens.balance t me = receivedOutside tokens steps t := by
  intro cleared
  have hinv := inv_reached tokens steps
  obtain ⟨htokens, hrefunded, hothers⟩ := refunds_run hfunds hadmits (nodup_pending hinv) steps
    fun r hr => ⟨((mem_pending hinv).mp hr).1, ((mem_pending hinv).mp hr).2, hlate r hr⟩
  have hnone : ∀ id r, cleared.store.aids.lookup id = some r → r.status ≠ .pending := by
    intro id r hr hpending
    by_cases hid : id ∈ (pending (reached tokens steps)).map AidRecord.id
    · obtain ⟨r', hr', rfl⟩ := List.mem_map.mp hid
      rw [hrefunded r' hr'] at hr
      obtain rfl := Option.some.inj hr
      cases hpending
    · rw [hothers id hid] at hr
      have hrid := (hinv.records id r hr).id_eq
      refine hid (List.mem_map.mpr ⟨r, (mem_pending hinv).mpr ⟨?_, hpending⟩, hrid⟩)
      rw [hrid]
      exact hr
  refine ⟨htokens, hrefunded, ?_, fun t => ?_⟩
  · rw [pending, List.filter_eq_nil_iff]
    intro r hr
    obtain ⟨id, hr⟩ := Table.mem_inOrder.mp hr
    simpa using hnone id r hr
  · have hsurplus : cleared.tokens.balance t me - aidHolding.owed cleared.store.aids t =
        receivedOutside tokens steps t := by
      rw [← receivedOutside_refunds tokens steps env (pending (reached tokens steps))]
      exact surplus_reached tokens _ t
    rw [← hsurplus, owed_of_no_pending hnone, sub_zero]

/-- After the run `donorsRun`, at the ledger sequence 13, the 60 and the 20 go back to `⟨1⟩`, and
    nothing of the record that was claimed. -/
theorem drained_donors :
    let w := reached donorsFunds donorsRun
    let cleared := reached donorsFunds (donorsRun ++ refunds (.signedBy ⟨0⟩ 13 13 []) (pending w))
    pending cleared = [] ∧ cleared.tokens.balance ⟨9⟩ ⟨0⟩ = 0 ∧
      (cleared.store.aids.lookup 0).map AidRecord.status = some .refunded ∧
      (cleared.store.aids.lookup 2).map AidRecord.status = some .refunded := by
  intro w cleared
  have hinv : Inv ⟨0⟩ w := inv_reached _ donorsRun
  have hlate : ∀ r ∈ pending w, r.expiryLedger < 13 := by
    intro r hr
    obtain ⟨hr, -⟩ := (mem_pending hinv).mp hr
    rw [aids_donors, Table.lookup_set, Table.lookup_set, Table.lookup_set, Table.lookup_set] at hr
    split_ifs at hr <;> cases hr <;> decide
  obtain ⟨-, hrefunded, hnone, hbalance⟩ := drained donorsFunds (Ledger.ofList_nonneg (by decide))
    donorsRun (.signedBy ⟨0⟩ 13 13 []) (fun _ _ => rfl) hlate
  have hstatus : ∀ r ∈ pending w, (cleared.store.aids.lookup r.id).map AidRecord.status =
      some .refunded := by
    intro r hr
    rw [hrefunded r hr]
    rfl
  refine ⟨hnone, hbalance ⟨9⟩, ?_, ?_⟩
  · exact hstatus ⟨0, ⟨1⟩, ⟨2⟩, ⟨9⟩, 60, 10, .pending⟩ ((mem_pending hinv).mpr ⟨rfl, rfl⟩)
  · exact hstatus ⟨2, ⟨1⟩, ⟨4⟩, ⟨9⟩, 20, 12, .pending⟩ ((mem_pending hinv).mpr ⟨rfl, rfl⟩)

end Trellis.Aid
