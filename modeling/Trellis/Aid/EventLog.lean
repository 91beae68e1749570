import Trellis.Aid.Escrow
import Trellis.Lib.Deal
import Trellis.Shared.EventLog

/-!
# The events of the aid contract

An aid record is a deal: `create_aid` opens it, and `claim_aid` or `refund_aid` closes it. Each of
them publishes one event under a legacy topic that says so; the other events are copies in the newer
layouts, and configuration.

Results:
* `exec_tells`: what a call publishes leads from the records before it to the records after it.
* `records_from_events`: the records can be rebuilt from the events, and the events about an id are
  exactly the life of its record.
-/

namespace Trellis.Aid

open Exec

variable {me : Address}

/-! ## Reading the events -/

/-- What an `aid_crt` event says of the new record. -/
structure AidTerms where
  donor : Address
  recipient : Address
  amount : ℤ
  expiryLedger : ℕ
  deriving DecidableEq, Repr

/-- What an event says of the record that it names. -/
def decode (e : Event) : Option (DealEvent ℕ AidTerms AidStatus) :=
  if e.topics = [aidCreated] then
    match e.data with
    | [.u64 id, .address donor, .address recipient, .i128 amount, .u32 expiry] =>
      some (.opened id ⟨donor, recipient, amount, expiry⟩)
    | _ => none
  else if e.topics = [aidSettled] then
    match e.data with
    | [.u64 id] => some (.closed id .settled)
    | _ => none
  else if e.topics = [aidRefunded] then
    match e.data with
    | [.u64 id] => some (.closed id .refunded)
    | _ => none
  else none

/-- The exit that a record took. -/
def AidStatus.exit : AidStatus → Option AidStatus
  | pending => none
  | settled => some settled
  | refunded => some refunded

/-- The deal that a record stands for. -/
def AidRecord.deal (r : AidRecord) : AidTerms × Option AidStatus :=
  (⟨r.donor, r.recipient, r.amount, r.expiryLedger⟩, r.status.exit)

/-- The deals of the contract. -/
def deals (w : World Store) : Deals ℕ AidTerms AidStatus := dealsOf AidRecord.deal w.store.aids

/-- The record of a deal, in the token `token`. -/
def AidRecord.ofDeal (token : Address) (id : ℕ) (deal : AidTerms × Option AidStatus) : AidRecord :=
  ⟨id, deal.1.donor, deal.1.recipient, token, deal.1.amount, deal.1.expiryLedger,
    deal.2.getD .pending⟩

/-- A record can be rebuilt from its deal. -/
theorem AidRecord.ofDeal_deal (r : AidRecord) : AidRecord.ofDeal r.token r.id r.deal = r := by
  cases r with
  | mk id donor recipient token amount expiry status => cases status <;> rfl

/-! ## What a call publishes -/

/-- What the events grew by leads from the records of `w` to those of `w'`. -/
abbrev EventsTell (w w' : World Store) : Prop :=
  Recorded (recordIfAny decode Deals.record) World.events deals w w'

theorem init_tells {env : Env me} {admin treasury token : Address} {secs : ℕ} {w w' : World Store}
    {u : Unit} (h : init env admin treasury token secs w = .ok u w') : EventsTell w w' := by
  simp [init] at h
  obtain ⟨-, -, rfl⟩ := h
  exact .quiet _ rfl rfl rfl

theorem updateConfig_tells {env : Env me} {admin : Address} {treasury : Option Address}
    {secs : Option ℕ} {w w' : World Store} {u : Unit}
    (h : updateConfig env admin treasury secs w = .ok u w') : EventsTell w w' := by
  simp [updateConfig] at h
  obtain ⟨-, -, rfl⟩ := h
  exact .same rfl rfl

theorem setPaused_tells {env : Env me} {admin : Address} {paused : Bool} {w w' : World Store}
    {u : Unit} (h : setPaused env admin paused w = .ok u w') : EventsTell w w' := by
  simp [setPaused] at h
  obtain ⟨-, -, rfl⟩ := h
  exact .quiet _ rfl rfl rfl

theorem createAid_tells {env : Env me} {donor recipient : Address} {amount : ℤ} {expiry id : ℕ}
    {w w' : World Store} (h : createAid env donor recipient amount expiry w = .ok id w') :
    EventsTell w w' := by
  simp [createAid] at h
  obtain ⟨-, -, -, hnew, token, -, ⟨-, rfl⟩, rfl⟩ := h
  exact .one _ rfl rfl (record_set_new hnew rfl)

theorem claimAid_tells {env : Env me} {id : ℕ} {recipient : Address} {w w' : World Store} {u : Unit}
    (h : claimAid env id recipient w = .ok u w') : EventsTell w w' := by
  simp [claimAid] at h
  obtain ⟨-, -, r, hr, ⟨hns, hnr⟩, -, -, -, rfl⟩ := h
  have hpending : r.deal.2 = none := by rw [AidRecord.deal, pending_of_not hns hnr]; rfl
  exact .one _ rfl rfl (record_set_old hr (Prod.ext rfl hpending) rfl)

theorem refundAid_tells {env : Env me} {id : ℕ} {w w' : World Store} {u : Unit}
    (h : refundAid env id w = .ok u w') : EventsTell w w' := by
  simp [refundAid] at h
  obtain ⟨r, hr, hns, hnr, -, -, rfl⟩ := h
  have hpending : r.deal.2 = none := by rw [AidRecord.deal, pending_of_not hns hnr]; rfl
  exact .one _ rfl rfl (record_set_old hr (Prod.ext rfl hpending) rfl)

/-- What a call publishes leads from the records before it to the records after it. -/
theorem exec_tells (env : Env me) (c : Entry) (w : World Store) : EventsTell w (exec env c w) := by
  cases c with
  | init => exact commit_induct (.same rfl rfl) fun _ _ => init_tells
  | updateConfig => exact commit_induct (.same rfl rfl) fun _ _ => updateConfig_tells
  | createAid => exact commit_induct (.same rfl rfl) fun _ _ => createAid_tells
  | claimAid => exact commit_induct (.same rfl rfl) fun _ _ => claimAid_tells
  | refundAid => exact commit_induct (.same rfl rfl) fun _ _ => refundAid_tells
  | setPaused => exact commit_induct (.same rfl rfl) fun _ _ => setPaused_tells

/-! ## Runs from deployment -/

/-- What the events so far say of the records. -/
def dealLog (w : World Store) : List (DealEvent ℕ AidTerms AidStatus) := w.events.filterMap decode

theorem replay_dealLog (tokens : TokenLedger) (steps : List (Step me Entry)) :
    replay Deals.record (fun _ => none) (dealLog (reached tokens steps)) =
      some (deals (reached tokens steps)) := by
  rw [dealLog, ← replay_filterMap, reached]
  refine replay_reached (P := fun _ => True) (fun _ _ _ => trivial) (fun env x w => ?_)
    (fun env c w _ => exec_tells env c w) Store.empty tokens trivial steps
  rw [deals, store_outsideTransfer]
  rfl

/-- In every reachable state the records can be rebuilt from the events and the configured token.
    The events about an id are none, its creation, or its creation and then its one settlement or
    refund, as its record has it; and how the events about different ids are interleaved makes no
    difference. -/
theorem records_from_events (tokens : TokenLedger) (steps : List (Step me Entry)) :
    replay Deals.record (fun _ => none) (dealLog (reached tokens steps)) =
        some (deals (reached tokens steps)) ∧
      (∀ id, ((dealLog (reached tokens steps)).filter fun e => e.key = id) =
        life id (deals (reached tokens steps) id)) ∧
      (∀ log, (∀ id, (log.filter fun e => e.key = id) =
          (dealLog (reached tokens steps)).filter fun e => e.key = id) →
        replay Deals.record (fun _ => none) log = some (deals (reached tokens steps))) ∧
      ∀ token, (reached tokens steps).store.token = some token → ∀ id,
        (reached tokens steps).store.aids.lookup id =
          (deals (reached tokens steps) id).map (AidRecord.ofDeal token id) := by
  have hreplay := replay_dealLog tokens steps
  refine ⟨hreplay, fun id => ?_, fun log hsame => replay_of_sublogs hreplay hsame,
    fun token htoken id => ?_⟩
  · have hlife := replay_iff.mp hreplay id
    rw [hlife, life, List.nil_append]
  · rw [deals, dealsOf, Option.map_map]
    cases hr : (reached tokens steps).store.aids.lookup id with
    | none => rfl
    | some r =>
      obtain ⟨rfl, -, -, htoken'⟩ := (inv_reached tokens steps).records id r hr
      obtain rfl := Option.some.inj (htoken'.symm.trans htoken)
      exact congrArg some (AidRecord.ofDeal_deal r).symm

end Trellis.Aid
