import Trellis.Aid.Escrow

/-!
# The two stores of aid records

`create_aid` stores a record under `DataKey::Aid(id)`, and again in the map under `KEY_AIDS`.
`claim_aid` and `refund_aid` write the first only.

Results:
* `settlesAid_claim`, `settlesAid_refund`: when a claim or a refund goes through.
* `storesChange_step`: what a step can do to the two stores.
* `copied_run`: every record has its copy, as it was created.
* `mirrored_step_iff`: a step keeps the stores the same exactly when it is no claim and no refund.
* `mirrored_iff`: the same over every run.
-/

namespace Trellis.Aid

open Exec

variable {me : Address}

/-- The map under `KEY_AIDS`. -/
def Store.copies (s : Store) : Table ℕ AidRecord := s.keyAids.getD ∅

/-- Both stores hold the same ids, and the same record under each. -/
def Mirrored (w : World Store) : Prop :=
  ∀ id, w.store.copies.lookup id = w.store.aids.lookup id

/-- Both stores hold the same ids, and the map holds the records as they were created. -/
def Copied (w : World Store) : Prop :=
  ∀ id, w.store.copies.lookup id =
    (w.store.aids.lookup id).map fun r => { r with status := .pending }

/-- The step is a claim or a refund that passes its checks. -/
def SettlesAid (w : World Store) : Step me Entry → Prop
  | .call env (.claimAid id recipient) =>
    w.shared.paused.getD false = false ∧ env.signed recipient = true ∧
      ∃ r, w.store.aids.lookup id = some r ∧ r.status = .pending ∧ env.sequence ≤ r.expiryLedger ∧
        recipient = r.recipient ∧ env.Allows w.tokens ⟨r.token, me, r.recipient, r.amount⟩
  | .call env (.refundAid id) =>
    ∃ r, w.store.aids.lookup id = some r ∧ r.status = .pending ∧ r.expiryLedger < env.sequence ∧
      env.Allows w.tokens ⟨r.token, me, r.donor, r.amount⟩
  | _ => False

/-- What a step can do to the two stores. -/
inductive StoresChange (w : World Store) (s : Step me Entry) (w' : World Store) : Prop where
  | same (hnot : ¬ SettlesAid w s) (haids : w'.store.aids = w.store.aids)
      (hcopies : w'.store.copies = w.store.copies)
  | created (id : ℕ) (r : AidRecord) (hnot : ¬ SettlesAid w s) (hpending : r.status = .pending)
      (haids : w'.store.aids = w.store.aids.insert id r)
      (hcopies : w'.store.copies = w.store.copies.insert id r)
  | closed (id : ℕ) (r : AidRecord) (status : AidStatus) (hsettles : SettlesAid w s)
      (hr : w.store.aids.lookup id = some r) (hpending : r.status = .pending)
      (hstatus : status ≠ .pending)
      (haids : w'.store.aids = w.store.aids.insert id { r with status := status })
      (hcopies : w'.store.copies = w.store.copies)

section

variable {env : Env me} {w w' : World Store} {id : ℕ}

/-! ## Each call -/

theorem settlesAid_claim {recipient : Address} :
    SettlesAid w (.call env (.claimAid id recipient)) ↔ (claimAid env id recipient).Succeeds w := by
  constructor
  · rintro ⟨hactive, hsigned, r, hr, hpending, hdue, rfl, hallows⟩
    exact (claimAid_succeeds hr hpending).mpr ⟨hactive, hsigned, hdue, hallows⟩
  · rintro ⟨u, w', h⟩
    cases claimAid_done h with
    | claimAid r events hactive hsigned hr hpending hdue hallows =>
      exact ⟨hactive, hsigned, r, hr, hpending, hdue, rfl, hallows⟩

theorem settlesAid_refund :
    SettlesAid w (.call env (.refundAid id)) ↔ (refundAid env id).Succeeds w := by
  constructor
  · rintro ⟨r, hr, hpending, hdue, hallows⟩
    exact (refundAid_succeeds hr hpending).mpr ⟨hdue, hallows⟩
  · rintro ⟨u, w', h⟩
    cases refundAid_done h with
    | refundAid r events hr hpending hdue hallows => exact ⟨r, hr, hpending, hdue, hallows⟩

theorem storesChange_commit {ε α : Type} {x : Invocation Store ε α} {s : Step me Entry}
    (hnot : ¬ x.Succeeds w → ¬ SettlesAid w s)
    (h : ∀ a w', x w = .ok a w' → StoresChange w s w') : StoresChange w s (x.commit w) := by
  rcases commit_cases x w with ⟨a, ha⟩ | ⟨hfails, hsame⟩
  · exact h a _ ha
  · rw [hsame]
    exact .same (hnot hfails) rfl rfl

theorem storesChange_create {donor recipient : Address} {amount : ℤ} {expiry : ℕ}
    (h : createAid env donor recipient amount expiry w = .ok id w') :
    StoresChange w (.call env (.createAid donor recipient amount expiry)) w' := by
  cases createAid_done h with
  | createAid r events hr =>
    exact .created r.id r (fun h => h) (congrArg AidRecord.status hr) rfl rfl

theorem storesChange_claim {recipient : Address} {u : Unit}
    (h : claimAid env id recipient w = .ok u w') :
    StoresChange w (.call env (.claimAid id recipient)) w' := by
  have hsettles := settlesAid_claim.mpr ⟨u, w', h⟩
  cases claimAid_done h with
  | claimAid r events hactive hsigned hr hpending =>
    exact .closed id r .settled hsettles hr hpending (by decide) rfl rfl

theorem storesChange_refund {u : Unit} (h : refundAid env id w = .ok u w') :
    StoresChange w (.call env (.refundAid id)) w' := by
  have hsettles := settlesAid_refund.mpr ⟨u, w', h⟩
  cases refundAid_done h with
  | refundAid r events hr hpending =>
    exact .closed id r .refunded hsettles hr hpending (by decide) rfl rfl

end

/-- Every step makes one of these changes. -/
theorem storesChange_step (w : World Store) (s : Step me Entry) : StoresChange w s (step s w) := by
  cases s with
  | outside env x =>
    have hstore := store_outside env x w
    exact .same (fun h => h) (by rw [hstore]) (by rw [hstore])
  | call env c =>
    cases c with
    | init =>
      refine storesChange_commit (fun _ h => h) fun u w' h => ?_
      cases init_done h with
      | init => exact .same (fun h => h) rfl rfl
    | updateConfig =>
      refine storesChange_commit (fun _ h => h) fun u w' h => ?_
      cases updateConfig_done h with
      | updateConfig => exact .same (fun h => h) rfl rfl
    | setPaused =>
      refine storesChange_commit (fun _ h => h) fun u w' h => ?_
      cases setPaused_done h with
      | setPaused => exact .same (fun h => h) rfl rfl
    | createAid => exact storesChange_commit (fun _ h => h) fun id w' h => storesChange_create h
    | claimAid =>
      exact storesChange_commit (fun hfails h => hfails (settlesAid_claim.mp h))
        fun u w' h => storesChange_claim h
    | refundAid =>
      exact storesChange_commit (fun hfails h => hfails (settlesAid_refund.mp h))
        fun u w' h => storesChange_refund h

/-! ## Every run -/

/-- Every record keeps its copy, as it was created. -/
theorem copied_step {w : World Store} (h : Copied w) (s : Step me Entry) : Copied (step s w) := by
  intro n
  cases storesChange_step w s with
  | same hnot haids hcopies => rw [haids, hcopies, h n]
  | created id r hnot hpending haids hcopies =>
    rw [haids, hcopies, Table.lookup_set, Table.lookup_set]
    split_ifs
    · rw [Option.map_some, ← hpending]
    · exact h n
  | closed id r status hsettles hr hpending hstatus haids hcopies =>
    rw [haids, hcopies, Table.lookup_set, h n]
    split_ifs with hid
    · rw [hid, hr]
      rfl
    · rfl

/-- In every reachable state the two stores hold the same ids, and the copies are the records as
    they were created. -/
theorem copied_run (tokens : TokenLedger) (steps : List (Step me Entry)) :
    Copied (run step (World.deployed Store.empty tokens) steps) := by
  refine run_induct (P := Copied) (fun w s h => copied_step h s) ?_ steps
  intro id
  rfl

/-- A step keeps the two stores the same exactly when it is no claim and no refund that goes
    through. -/
theorem mirrored_step_iff {w : World Store} (h : Mirrored w) (s : Step me Entry) :
    Mirrored (step s w) ↔ ¬ SettlesAid w s := by
  cases storesChange_step w s with
  | same hnot haids hcopies =>
    refine iff_of_true (fun n => ?_) hnot
    rw [haids, hcopies, h n]
  | created id r hnot hpending haids hcopies =>
    refine iff_of_true (fun n => ?_) hnot
    rw [haids, hcopies, Table.lookup_set, Table.lookup_set, h n]
  | closed id r status hsettles hr hpending hstatus haids hcopies =>
    refine iff_of_false (fun hafter => ?_) (not_not.mpr hsettles)
    -- the copy is still pending
    have hcopy := hafter id
    rw [haids, hcopies, h id, hr, Table.lookup_set, if_pos rfl] at hcopy
    have hsame := congrArg AidRecord.status (Option.some.inj hcopy)
    exact hstatus (hsame.symm.trans hpending)

/-- Over every run from the deployment, the two stores are the same after every step exactly when no
    claim and no refund has gone through. -/
theorem mirrored_iff (tokens : TokenLedger) (steps : List (Step me Entry)) :
    (∀ x ∈ trace step (World.deployed Store.empty tokens) steps, ∀ id,
      (step x.2 x.1).store.copies.lookup id = (step x.2 x.1).store.aids.lookup id) ↔
      ∀ x ∈ trace step (World.deployed Store.empty tokens) steps, ¬ SettlesAid x.1 x.2 := by
  refine trace_forall_iff (P := fun _ => True) (G := Mirrored) (N := fun _ _ => True)
    (Q := fun w s => ¬ SettlesAid w s) (fun _ _ _ _ => trivial)
    (fun w s _ _ h => mirrored_step_iff h s) trivial ?_ fun _ _ => trivial
  intro id
  rfl

/-- A creation leaves the two stores the same. -/
theorem mirrored_iff_created :
    (reached (.ofList [(⟨9⟩, ⟨1⟩, 100)]) createdRun).store.copies.lookup 0 =
      (reached (.ofList [(⟨9⟩, ⟨1⟩, 100)]) createdRun).store.aids.lookup 0 := by
  have hall := (mirrored_iff (.ofList [(⟨9⟩, ⟨1⟩, 100)]) createdRun).mpr fun x hx => by
    have hstep := mem_of_mem_trace hx
    simp only [createdRun, List.mem_cons, List.not_mem_nil, or_false] at hstep
    rcases hstep with h | h <;> rw [h] <;> exact id
  exact hall (reached (.ofList [(⟨9⟩, ⟨1⟩, 100)]) (createdRun.take 1),
    .call (.signedBy ⟨0⟩ 2 2 [⟨1⟩]) (.createAid ⟨1⟩ ⟨2⟩ 60 10))
    (mem_trace_iff.mpr ⟨createdRun.take 1, [], rfl, rfl⟩) 0

/-- The recipient claims the aid. -/
def claimedRun : List (Step ⟨0⟩ Entry) :=
  createdRun ++ [.call (.signedBy ⟨0⟩ 3 3 [⟨2⟩]) (.claimAid 0 ⟨2⟩)]

/-- The record is then settled, and its copy still pending. -/
theorem not_mirrored :
    ¬ ∀ x ∈ trace step (World.deployed Store.empty (.ofList [(⟨9⟩, ⟨1⟩, 100)])) claimedRun, ∀ id,
      (step x.2 x.1).store.copies.lookup id = (step x.2 x.1).store.aids.lookup id := by
  intro h
  have hsame : (reached (.ofList [(⟨9⟩, ⟨1⟩, 100)]) claimedRun).store.copies.lookup 0 =
      (reached (.ofList [(⟨9⟩, ⟨1⟩, 100)]) claimedRun).store.aids.lookup 0 :=
    h (reached (.ofList [(⟨9⟩, ⟨1⟩, 100)]) createdRun,
      .call (.signedBy ⟨0⟩ 3 3 [⟨2⟩]) (.claimAid 0 ⟨2⟩))
      (mem_trace_iff.mpr ⟨createdRun, [], rfl, rfl⟩) 0
  have hsettled : ((reached (.ofList [(⟨9⟩, ⟨1⟩, 100)]) claimedRun).store.aids.lookup 0).map
      AidRecord.status = some .settled := by decide
  have hpending : ((reached (.ofList [(⟨9⟩, ⟨1⟩, 100)]) claimedRun).store.copies.lookup 0).map
      AidRecord.status = some .pending := by decide
  rw [hsame, hsettled] at hpending
  cases hpending

end Trellis.Aid
