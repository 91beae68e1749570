import Trellis.Lib.Roll
import Trellis.Shared.Escrow

/-!
# The list of active escrows

`shared::payments` keeps the ids of its active escrows in a list under `ESCROW_ACTIVE`, beside the
records: `store_escrow` adds a new id at the end, and `remove_from_active` writes the list again
without the id of an escrow that is settled.

Results:
* `ActiveList.step`: every step keeps the list and the records in agreement.
* `activeEscrows_exact`: in every state of a run the list has the ids of the active records, in the
  order in which they were created, and every id that was given out has a record.
-/

namespace Trellis

open Exec

variable {me : Address} {S : Type}

/-- The list under `ESCROW_ACTIVE`, as `store_escrow` and `remove_from_active` read it. -/
def SharedStore.activeEscrows (s : SharedStore) : List ℕ := s.escrowActive.getD []

/-- The last id given out, as `next_escrow_id` reads it. -/
def SharedStore.lastEscrow (s : SharedStore) : ℕ := s.escrowIdSeq.getD 0

/-- The record is in state `Active`. -/
def EscrowRecord.isActive (r : EscrowRecord) : Bool := decide (r.state = .active)

/-- The escrow has a record in state `Active`. -/
def SharedStore.isActive (s : SharedStore) (id : ℕ) : Bool :=
  (s.escrows.lookup id).any EscrowRecord.isActive

/-- The id that a call of `create_escrow` returns. -/
def createdEscrow (w : World S) : Step me EscrowEntry → Option ℕ
  | .call env (.createEscrow token depositor beneficiary amount expiryLedger) =>
    (createEscrow env token depositor beneficiary amount expiryLedger).value w
  | _ => none

/-- The ids of the escrows created in a run from a fresh contract, in the order of their
    creation. -/
def createdEscrows (store : S) (tokens : TokenLedger) (steps : List (Step me EscrowEntry)) :
    List ℕ :=
  yields escrowStep createdEscrow (World.deployed store tokens) steps

/-! ## Calls that fail -/

/-! ## One step -/

/-- The list under `ESCROW_ACTIVE` and the records agree, when the ids `created` were given out. -/
structure ActiveList (created : List ℕ) (w : World S) : Prop where
  roll : Roll EscrowRecord.isActive created w.shared.escrows w.shared.activeEscrows
  created_eq : created = List.range' 1 w.shared.lastEscrow
  id_eq : w.shared.escrows.Forall fun id r => r.id = id

namespace ActiveList

variable {created : List ℕ} {w w' : World S}

theorem deployed (store : S) (tokens : TokenLedger) :
    ActiveList [] (World.deployed store tokens) where
  roll := Roll.empty _
  created_eq := rfl
  id_eq := Table.Forall.empty _

theorem congr (h : ActiveList created w) (hshared : w'.shared = w.shared) :
    ActiveList created w' where
  roll := by
    rw [hshared]
    exact h.roll
  created_eq := by
    rw [hshared]
    exact h.created_eq
  id_eq := by
    rw [hshared]
    exact h.id_eq

/-- A new escrow gets the next id, which ends the list. -/
theorem create (h : ActiveList created w) {r : EscrowRecord} (hid : r.id = w.shared.nextEscrow)
    (hactive : r.state = .active) (hseq : w'.shared.escrowIdSeq = some w.shared.nextEscrow)
    (hescrows : w'.shared.escrows = w.shared.escrows.insert w.shared.nextEscrow r)
    (hlist : w'.shared.activeEscrows = w.shared.activeEscrows ++ [w.shared.nextEscrow]) :
    ActiveList (created ++ [w.shared.nextEscrow]) w' := by
  have hnext : w.shared.nextEscrow = 1 + w.shared.lastEscrow := Nat.add_comm _ 1
  have hlast : w'.shared.lastEscrow = w.shared.lastEscrow + 1 := by
    rw [SharedStore.lastEscrow, hseq]
    rfl
  have hfresh : w.shared.nextEscrow ∉ created := by
    rw [h.created_eq, List.mem_range'_1, hnext]
    omega
  constructor
  · rw [hescrows, hlist]
    exact h.roll.add hfresh (decide_eq_true hactive)
  · rw [hlast, List.range'_concat, ← h.created_eq, hnext, one_mul]
  · rw [hescrows]
    exact h.id_eq.set hid

/-- Settling an escrow strikes its id off the list. -/
theorem settle (h : ActiveList created w) {id : ℕ} {r r' : EscrowRecord}
    (hr : w.shared.escrows.lookup id = some r) (hid : r'.id = r.id) (hclosed : r'.state ≠ .active)
    (hseq : w'.shared.escrowIdSeq = w.shared.escrowIdSeq)
    (hescrows : w'.shared.escrows = w.shared.escrows.insert id r')
    (hlist : w'.shared.activeEscrows = withoutId w.shared.activeEscrows id) :
    ActiveList created w' := by
  constructor
  · rw [hescrows, hlist]
    exact h.roll.close hr (decide_eq_false hclosed)
  · rw [SharedStore.lastEscrow, hseq]
    exact h.created_eq
  · rw [hescrows]
    exact h.id_eq.set (hid.trans (h.id_eq id r hr))

theorem step (h : ActiveList created w) (s : Step me EscrowEntry) :
    ActiveList (created ++ (createdEscrow w s).toList) (escrowStep s w) := by
  cases s with
  | outside env x =>
    show ActiveList (created ++ []) _
    rw [List.append_nil]
    exact h.congr (shared_outsideTransfer env x w)
  | call env c =>
    cases c with
    | createEscrow token depositor beneficiary amount expiryLedger =>
      refine value_commit_induct (G := fun id w' => ActiveList (created ++ id.toList) w') ?_
        fun id w' hok => ?_
      · rw [Option.toList_none, List.append_nil]
        exact h
      · obtain ⟨-, -, rfl, -, events, rfl⟩ := createEscrow_ok hok
        exact h.create rfl rfl rfl rfl rfl
    | releaseEscrow token escrowId =>
      show ActiveList (created ++ []) (commit _ w)
      rw [List.append_nil]
      refine commit_induct h fun u w' hok => ?_
      obtain ⟨r, hr, -, -, -, events, rfl⟩ := releaseEscrow_ok hok
      refine h.settle hr ?_ ?_ rfl rfl rfl
      · rfl
      · simp
    | refundEscrow token escrowId =>
      show ActiveList (created ++ []) (commit _ w)
      rw [List.append_nil]
      refine commit_induct h fun u w' hok => ?_
      obtain ⟨r, hr, -, -, events, rfl⟩ := refundEscrow_ok hok
      refine h.settle hr ?_ ?_ rfl rfl rfl
      · rfl
      · simp

theorem reached (store : S) (tokens : TokenLedger) (steps : List (Step me EscrowEntry)) :
    ActiveList (createdEscrows store tokens steps)
      (run escrowStep (World.deployed store tokens) steps) :=
  yields_induct (N := fun _ _ => True) (G := fun created w => ActiveList created w)
    (fun _ _ s _ h => h.step s) (deployed store tokens) fun _ _ => trivial

end ActiveList

/-! ## Runs -/

/-- The list under `ESCROW_ACTIVE` is exact, when the ids `created` were given out in this order. -/
structure ExactEscrows (created : List ℕ) (s : SharedStore) : Prop where
  /-- The list has the ids of the active records, in the order in which they were created. -/
  listed : s.activeEscrows = created.filter s.isActive
  /-- It has no id twice. -/
  nodup : s.activeEscrows.Nodup
  /-- Its ids are those of the records in state `Active`. -/
  mem_iff : ∀ id, id ∈ s.activeEscrows ↔
    ∃ key r, s.escrows.lookup key = some r ∧ r.id = id ∧ r.state = .active
  /-- The ids were given out from 1 on, up to the stored one. -/
  created_eq : created = List.range' 1 s.lastEscrow
  /-- Each of them has a record. -/
  recorded : ∀ id, 1 ≤ id → id ≤ s.lastEscrow → ∃ r, s.escrows.lookup id = some r ∧ r.id = id

/-- In every state that calls of the escrow operations reach, whether they succeed or fail, the list
    under `ESCROW_ACTIVE` is exact. -/
theorem activeEscrows_exact (store : S) (tokens : TokenLedger)
    (steps : List (Step me EscrowEntry)) :
    ExactEscrows (createdEscrows store tokens steps)
      (run escrowStep (World.deployed store tokens) steps).shared := by
  have h := ActiveList.reached store tokens steps
  refine ⟨h.roll.listed_eq, h.roll.nodup, fun id => ?_, h.created_eq, fun id hlow hhigh => ?_⟩
  · rw [h.roll.mem_iff]
    constructor
    · rintro ⟨r, hr, hactive⟩
      exact ⟨id, r, hr, h.id_eq id r hr, of_decide_eq_true hactive⟩
    · rintro ⟨key, r, hr, hid, hactive⟩
      obtain rfl := (h.id_eq key r hr).symm.trans hid
      exact ⟨r, hr, decide_eq_true hactive⟩
  · have hgiven : id ∈ createdEscrows store tokens steps := by
      rw [h.created_eq, List.mem_range'_1]
      omega
    obtain ⟨r, hr⟩ := (h.roll.stored id).mp hgiven
    exact ⟨r, hr, h.id_eq id r hr⟩

/-- The third creation fails and takes no id; the second escrow is refunded, and the next one gets
    the id 3. -/
example : (run escrowStep (World.deployed () twoTokens) (twoEscrows ++
    [.call (.signedBy ⟨0⟩ 3 3 [⟨4⟩]) (.createEscrow ⟨8⟩ ⟨4⟩ ⟨2⟩ 5 10),
      .call (.signedBy ⟨0⟩ 4 4 []) (.refundEscrow ⟨9⟩ 2),
      .call (.signedBy ⟨0⟩ 5 5 [⟨3⟩]) (.createEscrow ⟨9⟩ ⟨3⟩ ⟨2⟩ 5 10)])).shared.activeEscrows =
        [1, 3] := by
  decide

end Trellis
