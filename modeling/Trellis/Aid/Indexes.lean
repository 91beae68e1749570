import Trellis.Aid.Escrow
import Trellis.Lib.Pages

/-!
# The participant indexes

The id lists of contracts/aid-contract/src/storage.rs, one for each donor and one for each
recipient, and the pages over them. `create_aid` says that it appends the new id to both lists; it
calls neither append.

Results:
* `indexOf_append`: an append adds the id at the end of one list.
* `follow_paginate`: the pages over an index visit the records of its ids, in order.
* `kept_exec`: no call writes an index.
* `idsChange_step`: what a step can do to the ids of the records.
* `stored_iff_created`, `createdIds_nodup`: the ids returned by `create_aid` are those of the
  records, and no two are the same.
* `indexes_complete_iff`: the indexes are complete over a run exactly when no `create_aid` goes
  through.
-/

namespace Trellis.Aid

open Exec

variable {me : Address}

/-! ## The indexes of the storage -/

/-- The list at an address, empty when there is none. -/
def indexOf (index : Table Address (List ℕ)) (a : Address) : List ℕ := (index.lookup a).getD []

/-- Puts an id at the end of the list at an address. -/
def appendIndex (index : Table Address (List ℕ)) (a : Address) (aidId : ℕ) :
    Table Address (List ℕ) :=
  index.insert a (indexOf index a ++ [aidId])

/-- Model of `get_donor_index` (contracts/aid-contract/src/storage.rs:126–128). -/
def Store.getDonorIndex (s : Store) (donor : Address) : List ℕ := indexOf s.donorIndex donor

/-- Model of `append_donor_index` (contracts/aid-contract/src/storage.rs:131–135). -/
def Store.appendDonorIndex (s : Store) (donor : Address) (aidId : ℕ) : Store :=
  { s with donorIndex := appendIndex s.donorIndex donor aidId }

/-- Model of `get_recipient_index` (contracts/aid-contract/src/storage.rs:138–141). -/
def Store.getRecipientIndex (s : Store) (recipient : Address) : List ℕ :=
  indexOf s.recipientIndex recipient

/-- Model of `append_recipient_index` (contracts/aid-contract/src/storage.rs:144–148). -/
def Store.appendRecipientIndex (s : Store) (recipient : Address) (aidId : ℕ) : Store :=
  { s with recipientIndex := appendIndex s.recipientIndex recipient aidId }

/-- An append adds the id at the end of one list. -/
theorem indexOf_append (index : Table Address (List ℕ)) (a a' : Address) (aidId : ℕ) :
    indexOf (appendIndex index a aidId) a' = indexOf index a' ++ if a' = a then [aidId]
      else [] := by
  unfold appendIndex
  split_ifs with ha
  · rw [ha]
    show ((index.insert a (indexOf index a ++ [aidId])).lookup a).getD [] = _
    rw [Table.lookup_set, if_pos rfl, Option.getD_some]
  · show ((index.insert a (indexOf index a ++ [aidId])).lookup a').getD [] = _
    rw [Table.lookup_set, if_neg ha, List.append_nil]
    rfl

theorem getDonorIndex_append (s : Store) (a a' : Address) (aidId : ℕ) :
    (s.appendDonorIndex a aidId).getDonorIndex a' =
      s.getDonorIndex a' ++ if a' = a then [aidId] else [] :=
  indexOf_append s.donorIndex a a' aidId

theorem getRecipientIndex_append (s : Store) (a a' : Address) (aidId : ℕ) :
    (s.appendRecipientIndex a aidId).getRecipientIndex a' =
      s.getRecipientIndex a' ++ if a' = a then [aidId] else [] :=
  indexOf_append s.recipientIndex a a' aidId

/-! ## Pages -/

/-- `MAX_QUERY_LIMIT` (contracts/aid-contract/src/lib.rs:23). -/
def maxQueryLimit : ℕ := 50

/-- Model of `paginate` (contracts/aid-contract/src/lib.rs:386–406), with `AidPage` as a page of
    records. -/
def Store.paginate (s : Store) (ids : List ℕ) (cursor limit : ℕ) : Page AidRecord :=
  let effectiveLimit := if limit > maxQueryLimit then maxQueryLimit else limit
  pageAt s.aids.lookup ids effectiveLimit cursor

/-- The pages from the first on visit the records of the ids, in order. -/
theorem follow_paginate (s : Store) (ids : List ℕ) {limit : ℕ} (hlimit : 0 < limit) :
    follow (fun cursor => s.paginate ids cursor limit) (ids.length + 1) 0 =
      some (ids.filterMap s.aids.lookup) := by
  have heffective : 0 < if limit > maxQueryLimit then maxQueryLimit else limit := by
    split_ifs
    · show 0 < 50
      omega
    · exact hlimit
  have hfollow : follow (fun cursor => s.paginate ids cursor limit) (ids.length + 1) 0 =
      some ((ids.drop 0).filterMap s.aids.lookup) :=
    follow_pageAt heffective ids (by omega) (by omega)
  rw [hfollow, List.drop_zero]

/-! ## The ids that are given out -/

/-- The id that a call of `create_aid` returns. -/
def createdId (w : World Store) : Step me Entry → Option ℕ
  | .call env (.createAid donor recipient amount expiryLedger) =>
    (createAid env donor recipient amount expiryLedger).value w
  | _ => none

/-- The ids that the run gives out, in order. -/
def createdIds (tokens : TokenLedger) (steps : List (Step me Entry)) : List ℕ :=
  yields step createdId (World.deployed Store.empty tokens) steps

/-- The step is a call of `create_aid` that passes its checks. -/
def CreatesAid (w : World Store) : Step me Entry → Prop
  | .call env (.createAid donor _ amount expiryLedger) =>
    env.signed donor = true ∧ 0 < amount ∧ env.sequence < expiryLedger ∧
      w.store.aids.lookup w.store.getAidCounter = none ∧
      ∃ token, w.store.token = some token ∧ env.Allows w.tokens ⟨token, donor, me, amount⟩
  | _ => False

theorem createsAid_iff {env : Env me} {donor recipient : Address} {amount : ℤ} {expiry : ℕ}
    {w : World Store} : CreatesAid w (.call env (.createAid donor recipient amount expiry)) ↔
      (createAid env donor recipient amount expiry).Succeeds w := by
  simp [CreatesAid, Exec.Succeeds, createAid]

/-- The records of both states have the same ids. -/
def SameIds (w w' : World Store) : Prop :=
  ∀ id, (w'.store.aids.lookup id).isSome = (w.store.aids.lookup id).isSome

/-- What a call leaves alone: the indexes, and the ids of the records unless it is a
    `create_aid`. -/
structure Kept (c : Entry) (w w' : World Store) : Prop where
  donors : w'.store.donorIndex = w.store.donorIndex
  recipients : w'.store.recipientIndex = w.store.recipientIndex
  ids : (∀ donor recipient amount expiry, c ≠ .createAid donor recipient amount expiry) →
    SameIds w w'

theorem sameIds_of_old {w w' : World Store} {id : ℕ} {r r' : AidRecord}
    (hr : w.store.aids.lookup id = some r) (haids : w'.store.aids = w.store.aids.insert id r') :
    SameIds w w' := by
  intro n
  rw [haids, Table.lookup_set]
  split_ifs with hn
  · rw [hn, hr]
    rfl
  · rfl

theorem kept_exec (env : Env me) (c : Entry) (w : World Store) : Kept c w (exec env c w) := by
  rcases exec_cases env c w with hsame | hdone
  · rw [hsame]
    exact ⟨rfl, rfl, fun _ _ => rfl⟩
  · generalize exec env c w = w' at hdone
    cases hdone with
    | init => exact ⟨rfl, rfl, fun _ _ => rfl⟩
    | updateConfig => exact ⟨rfl, rfl, fun _ _ => rfl⟩
    | setPaused => exact ⟨rfl, rfl, fun _ _ => rfl⟩
    | createAid => exact ⟨rfl, rfl, fun hnot => absurd rfl (hnot _ _ _ _)⟩
    | claimAid r events hactive hsigned hr => exact ⟨rfl, rfl, fun _ => sameIds_of_old hr rfl⟩
    | refundAid r events hr => exact ⟨rfl, rfl, fun _ => sameIds_of_old hr rfl⟩

theorem indexes_exec (env : Env me) (c : Entry) (w : World Store) (a : Address) :
    (exec env c w).store.getDonorIndex a = w.store.getDonorIndex a ∧
      (exec env c w).store.getRecipientIndex a = w.store.getRecipientIndex a := by
  have hkept := kept_exec env c w
  unfold Store.getDonorIndex Store.getRecipientIndex
  rw [hkept.donors, hkept.recipients]
  exact ⟨rfl, rfl⟩

/-- What a step can do to the ids of the records: none is added, or the one that `create_aid`
    returns is. -/
inductive IdsChange (w : World Store) (s : Step me Entry) (w' : World Store) : Prop where
  | same (hnot : ¬ CreatesAid w s) (hid : createdId w s = none) (hsame : SameIds w w')
  | created (id : ℕ) (r : AidRecord) (hcreates : CreatesAid w s) (hid : createdId w s = some id)
      (hnew : w.store.aids.lookup id = none) (haids : w'.store.aids = w.store.aids.insert id r)

theorem idsChange_create (env : Env me) (donor recipient : Address) (amount : ℤ) (expiry : ℕ)
    (w : World Store) : IdsChange w (.call env (.createAid donor recipient amount expiry))
      ((createAid env donor recipient amount expiry).commit w) := by
  rcases commit_cases (createAid env donor recipient amount expiry) w with
    ⟨id, hok⟩ | ⟨hfails, hsame⟩
  · have hcreates := createsAid_iff.mpr ⟨id, _, hok⟩
    have hid := value_of_ok hok
    generalize commit _ w = w' at hok ⊢
    simp [createAid] at hok
    obtain ⟨-, -, -, hnew, token, -, ⟨-, rfl⟩, rfl⟩ := hok
    exact .created _ ⟨_, donor, recipient, token, amount, expiry, .pending⟩ hcreates hid hnew rfl
  · rw [hsame]
    exact .same (fun h => hfails (createsAid_iff.mp h)) (value_eq_none.mpr hfails) fun _ => rfl

/-- Every step makes one of these changes. -/
theorem idsChange_step (w : World Store) (s : Step me Entry) : IdsChange w s (step s w) := by
  cases s with
  | outside env x =>
    refine .same (fun h => h) rfl fun id => ?_
    rw [store_outside]
  | call env c =>
    have hids := (kept_exec env c w).ids
    cases c with
    | createAid => exact idsChange_create env _ _ _ _ w
    | _ => exact .same (fun h => h) rfl (hids (by simp))

/-! ## Runs -/

theorem indexes_reached (tokens : TokenLedger) (steps : List (Step me Entry)) (a : Address) :
    (reached tokens steps).store.getDonorIndex a = [] ∧
      (reached tokens steps).store.getRecipientIndex a = [] := by
  refine run_induct (P := fun w : World Store =>
    w.store.getDonorIndex a = [] ∧
      w.store.getRecipientIndex a = []) (fun w s h => ?_) ⟨rfl, rfl⟩ steps
  cases s with
  | call env c =>
    have hexec := indexes_exec env c w a
    exact ⟨hexec.1.trans h.1, hexec.2.trans h.2⟩
  | outside env x =>
    rw [store_outside]
    exact h

/-- An id has a record after a step when it had one before, or the step has returned it. -/
theorem stored_step_iff (w : World Store) (s : Step me Entry) (id : ℕ) :
    ((step s w).store.aids.lookup id).isSome = true ↔
      (w.store.aids.lookup id).isSome = true ∨ createdId w s = some id := by
  cases idsChange_step w s with
  | same hnot hid hsame =>
    rw [hsame id, hid]
    exact (or_iff_left (Option.some_ne_none id).symm).symm
  | created n r hcreates hid hnew haids =>
    rw [haids, hid, Table.lookup_set, Option.some.injEq]
    split_ifs with hn
    · exact iff_of_true rfl (.inr hn.symm)
    · exact (or_iff_left fun h => hn h.symm).symm

theorem not_stored_of_created {w : World Store} {s : Step me Entry} {id : ℕ}
    (h : createdId w s = some id) : ¬ (w.store.aids.lookup id).isSome = true := by
  cases idsChange_step w s with
  | same hnot hid hsame =>
    rw [hid] at h
    cases h
  | created n r hcreates hid hnew haids =>
    rw [hid] at h
    obtain rfl := Option.some.inj h
    simp [hnew]

/-- The ids of the records are those that the run has given out. -/
theorem stored_iff_created {tokens : TokenLedger} {steps : List (Step me Entry)} (id : ℕ) :
    id ∈ createdIds tokens steps ↔ ((reached tokens steps).store.aids.lookup id).isSome = true := by
  have hrun := taken_run_iff (P := fun _ => True)
    (fun (w : World Store) id => (w.store.aids.lookup id).isSome = true) (fun _ _ _ => trivial)
    (fun w (s : Step me Entry) id _ => stored_step_iff w s id)
      (s := World.deployed Store.empty tokens)
    trivial steps id
  refine (hrun.trans (or_iff_right ?_)).symm
  simp [World.deployed, Store.empty]

/-- No id is given out twice. -/
theorem createdIds_nodup (tokens : TokenLedger) (steps : List (Step me Entry)) :
    (createdIds tokens steps).Nodup :=
  yields_nodup (P := fun _ => True)
    (fun (w : World Store) id => (w.store.aids.lookup id).isSome = true) (fun _ _ _ => trivial)
    (fun w s id _ => stored_step_iff w s id) (fun _ _ _ _ => not_stored_of_created) trivial steps

/-! ## The indexes of a run -/

/-- The ids of the stored records of which the address is the party, in the order of their
    creation. -/
def idsOf (party : AidRecord → Address) (w : World Store) (created : List ℕ) (a : Address) :
    List ℕ :=
  created.filter fun id => (w.store.aids.lookup id).any fun r => party r = a

/-- The index of the addresses in their role as this party is complete. -/
structure Indexed (party : AidRecord → Address) (index : Address → List ℕ) (w : World Store)
    (created : List ℕ) : Prop where
  /-- The index of an address is the list of its records, in the order of their creation. -/
  listed (a : Address) : index a = idsOf party w created a
  /-- No record is listed twice. -/
  nodup (a : Address) : (index a).Nodup
  /-- The pages over the index visit the records of the address, each once and in this order. -/
  visited (a : Address) (limit : ℕ) : 0 < limit →
    follow (fun cursor => w.store.paginate (index a) cursor limit) ((index a).length + 1) 0 =
      some ((idsOf party w created a).filterMap w.store.aids.lookup)

/-- The indexes at the end of a run are complete. -/
structure Complete (tokens : TokenLedger) (steps : List (Step me Entry)) : Prop where
  /-- The ids that the run has given out are those of the stored records, each given out once. -/
  stored (id : ℕ) : id ∈ createdIds tokens steps ↔
    ((reached tokens steps).store.aids.lookup id).isSome = true
  distinct : (createdIds tokens steps).Nodup
  donors : Indexed AidRecord.donor (reached tokens steps).store.getDonorIndex (reached tokens steps)
    (createdIds tokens steps)
  recipients : Indexed AidRecord.recipient (reached tokens steps).store.getRecipientIndex
    (reached tokens steps) (createdIds tokens steps)
  /-- Claims and refunds change neither index. -/
  kept (env : Env me) (id : ℕ) (recipient a : Address) :
    ∀ c ∈ [Entry.claimAid id recipient, Entry.refundAid id],
      (exec env c (reached tokens steps)).store.getDonorIndex a =
          (reached tokens steps).store.getDonorIndex a ∧
        (exec env c (reached tokens steps)).store.getRecipientIndex a =
          (reached tokens steps).store.getRecipientIndex a

theorem Indexed.of_listed {party : AidRecord → Address} {index : Address → List ℕ} {w : World Store}
    {created : List ℕ} (hnodup : created.Nodup) (hlisted : ∀ a, index a = idsOf party w created a) :
    Indexed party index w created := by
  refine ⟨hlisted, fun a => ?_, fun a limit hlimit => ?_⟩
  · rw [hlisted a]
    exact hnodup.filter _
  · rw [follow_paginate w.store (index a) hlimit, hlisted a]

theorem complete_of_none {tokens : TokenLedger} {steps : List (Step me Entry)}
    (hnone : createdIds tokens steps = []) : Complete tokens steps := by
  have hnodup := createdIds_nodup tokens steps
  refine ⟨stored_iff_created, hnodup, .of_listed hnodup fun a => ?_, .of_listed hnodup fun a => ?_,
    fun env id recipient a c _ => indexes_exec env c _ a⟩
  · rw [(indexes_reached tokens steps a).1, hnone]
    rfl
  · rw [(indexes_reached tokens steps a).2, hnone]
    rfl

theorem not_complete_of_created {tokens : TokenLedger} {steps : List (Step me Entry)}
    {s : Step me Entry} (hcreates : CreatesAid (reached tokens steps) s) :
    ¬ Complete tokens (steps ++ [s]) := by
  intro hcomplete
  cases idsChange_step (reached tokens steps) s with
  | same hnot hid hsame => exact hnot hcreates
  | created id r hcreates hid hnew haids =>
    have hrun : reached tokens (steps ++ [s]) = step s (reached tokens steps) := by
      unfold reached
      rw [run_append]
      rfl
    have hrecord : (reached tokens (steps ++ [s])).store.aids.lookup id = some r := by
      rw [hrun, haids, Table.lookup_set, if_pos rfl]
    have hcreated : id ∈ createdIds tokens (steps ++ [s]) := by
      rw [hcomplete.stored id, hrecord]
      rfl
    -- the id belongs in the index of the donor, which is empty
    have hmem : id ∈ (reached tokens (steps ++ [s])).store.getDonorIndex r.donor := by
      rw [hcomplete.donors.listed]
      refine List.mem_filter.mpr ⟨hcreated, ?_⟩
      rw [hrecord]
      simp
    rw [(indexes_reached tokens (steps ++ [s]) r.donor).1] at hmem
    simp at hmem

theorem createdId_eq_none {w : World Store} {s : Step me Entry} (hnot : ¬ CreatesAid w s) :
    createdId w s = none := by
  cases idsChange_step w s with
  | same _ hid _ => exact hid
  | created id r hcreates _ _ _ => exact absurd hcreates hnot

/-- Over every run from the deployment, the indexes are complete in every state exactly when no call
    of `create_aid` passes its checks. -/
theorem indexes_complete_iff (tokens : TokenLedger) (steps : List (Step me Entry)) :
    (∀ pre post, steps = pre ++ post → Complete tokens pre) ↔
      ∀ x ∈ trace step (World.deployed Store.empty tokens) steps, ¬ CreatesAid x.1 x.2 := by
  constructor
  · intro h x hx hcreates
    obtain ⟨pre, post, hsteps, hstate⟩ := mem_trace_iff.mp hx
    rw [hstate] at hcreates
    exact not_complete_of_created hcreates (h (pre ++ [x.2]) post (by rw [hsteps]; simp))
  · rintro h pre post rfl
    refine complete_of_none (yields_eq_nil_iff.mpr fun x hx => createdId_eq_none (h x ?_))
    rw [trace_append]
    exact List.mem_append_left _ hx

/-- While the contract is only configured, the indexes are complete. -/
theorem indexes_complete_iff_configured :
    Complete (.ofList [(⟨9⟩, ⟨1⟩, 100)]) (createdRun.take 1) := by
  refine (indexes_complete_iff _ (createdRun.take 1)).mpr (fun x hx => ?_) _ [] ?_
  · have hstep := mem_of_mem_trace hx
    simp only [createdRun, List.take_succ_cons, List.take_zero, List.mem_singleton] at hstep
    rw [hstep]
    exact id
  · exact (List.append_nil _).symm

/-- The aid is stored with its donor and its recipient, and the indexes of both stay empty. -/
theorem indexes_not_complete :
    ¬ ∀ pre post, createdRun = pre ++ post → Complete (.ofList [(⟨9⟩, ⟨1⟩, 100)]) pre := by
  intro h
  have hdonors := (h createdRun [] (List.append_nil _).symm).donors.listed ⟨1⟩
  have hempty : (reached (.ofList [(⟨9⟩, ⟨1⟩, 100)]) createdRun).store.getDonorIndex ⟨1⟩ = [] := by
    decide
  have hcreated : 0 ∈ idsOf AidRecord.donor (reached (.ofList [(⟨9⟩, ⟨1⟩, 100)]) createdRun)
      (createdIds (.ofList [(⟨9⟩, ⟨1⟩, 100)]) createdRun) ⟨1⟩ := by decide
  rw [← hdonors, hempty] at hcreated
  cases hcreated

end Trellis.Aid
