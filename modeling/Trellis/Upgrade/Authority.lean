import Trellis.Upgrade.Proposals

/-!
# Who authorises an upgrade, and who removes a proposal

A contract replaces its code after it has asked `verify_upgrade_authorization`, which looks for a
pending proposal: one that is not executed. A pending proposal is removed by `cancel_proposal`,
which checks the address it is given as the caller, but asks for no signature.

Results:
* `authorised_reached`: in every reachable state exactly the codes of the open proposals are
  authorised.
* `authorises_executed_iff`: a run authorises what was executed, and nothing else, exactly when
  nothing is proposed in it.
* `removed_by_entitled_iff`: open proposals are removed only by signers that may do so exactly when
  every accepted cancellation is signed by the proposer or by an admin.
-/

namespace Trellis.Upgrade

open Exec

variable {me : Address} {X : Type}

/-! ## What is authorised -/

/-- The address may replace the code of the contract, as `verify_upgrade_authorization` says. -/
def Authorised (w : World (Linked Store X)) (contractId caller : Address) (wasmHash : Bytes) :
    Prop :=
  (verifyUpgradeAuthorization contractId caller wasmHash).value w = some wasmHash

instance (w : World (Linked Store X)) (contractId caller : Address) (wasmHash : Bytes) :
    Decidable (Authorised w contractId caller wasmHash) := inferInstanceAs (Decidable (_ = _))

theorem verifyUpgradeAuthorization_value {w : World (Linked Store X)} {contractId caller : Address}
    {wasmHash wasmHash' : Bytes} :
    (verifyUpgradeAuthorization contractId caller wasmHash).value w = some wasmHash' ↔
      wasmHash' = wasmHash ∧ (caller, Role.upgrader) ∈ w.shared.roles ∧
        ∃ id p, w.store.own.getPendingProposal contractId = some id ∧
          w.store.own.proposals.lookup id = some p ∧ p.newWasmHash = wasmHash := by
  have hok : ∀ w', verifyUpgradeAuthorization contractId caller wasmHash w = .ok wasmHash' w' ↔
      (wasmHash' = wasmHash ∧ (caller, Role.upgrader) ∈ w.shared.roles ∧
        ∃ id p, w.store.own.getPendingProposal contractId = some id ∧
          w.store.own.proposals.lookup id = some p ∧ p.newWasmHash = wasmHash) ∧ w' = w := by
    intro w'
    simp [verifyUpgradeAuthorization, Store.getPendingProposal]
    constructor
    · rintro ⟨hrole, id, hid, p, hp, ⟨rfl, rfl⟩, rfl⟩
      exact ⟨⟨rfl, hrole, id, hid, p, hp, rfl⟩, rfl⟩
    · rintro ⟨⟨rfl, hrole, id, hid, p, hp, rfl⟩, rfl⟩
      exact ⟨hrole, id, hid, p, hp, ⟨rfl, rfl⟩, rfl⟩
  rw [value_eq_some, hok]
  refine and_iff_left_of_imp fun h => ?_
  exact commit_of_ok ((hok w).mpr ⟨h, rfl⟩)

/-- In every reachable state the authorised codes are those of the open proposals. -/
theorem authorised_reached {x : X} {tokens : TokenLedger} {steps : List (Step me (Entry X))}
    {contractId caller : Address} {wasmHash : Bytes} :
    Authorised (reached x tokens steps) contractId caller wasmHash ↔
      (caller, Role.upgrader) ∈ (reached x tokens steps).shared.roles ∧
        ∃ id p, (reached x tokens steps).store.own.proposals.lookup id = some p ∧ p.Open ∧
          p.contractId = contractId ∧ p.newWasmHash = wasmHash := by
  have hmarks := (book_reached x tokens steps).marks contractId
  unfold Authorised
  rw [verifyUpgradeAuthorization_value]
  constructor
  · rintro ⟨-, hrole, id, p, hid, hp, hhash⟩
    obtain ⟨p', hp', hopen, hcontract⟩ := (hmarks id).mp hid
    rw [hp] at hp'
    obtain rfl := Option.some.inj hp'
    exact ⟨hrole, id, p, hp, hopen, hcontract, hhash⟩
  · rintro ⟨hrole, id, p, hp, hopen, hcontract, hhash⟩
    exact ⟨rfl, hrole, id, p, (hmarks id).mpr ⟨p, hp, hopen, hcontract⟩, hp, hhash⟩

/-- The step executes a proposal of this code for the contract. -/
def Upgrades (w : World (Linked Store X)) (s : Step me (Entry X)) (contractId : Address)
    (wasmHash : Bytes) : Prop :=
  ∃ id p, executedId w s = some id ∧ w.store.own.proposals.lookup id = some p ∧
    p.contractId = contractId ∧ p.newWasmHash = wasmHash

/-- In the course of the run, a code is authorised from its execution until the next proposal for
    the contract is executed; and no code is authorised that was not executed. -/
structure AuthorisesExecuted (x : X) (tokens : TokenLedger) (steps : List (Step me (Entry X))) :
    Prop where
  after : ∀ pre s mid post, steps = pre ++ s :: (mid ++ post) → ∀ contractId wasmHash,
    Upgrades (reached x tokens pre) s contractId wasmHash →
    (∀ y ∈ trace step (reached x tokens (pre ++ [s])) mid, ∀ wasmHash',
      ¬ Upgrades y.1 y.2 contractId wasmHash') →
    ∀ caller, (caller, Role.upgrader) ∈ (reached x tokens (pre ++ s :: mid)).shared.roles →
    Authorised (reached x tokens (pre ++ s :: mid)) contractId caller wasmHash
  only : ∀ pre post, steps = pre ++ post → ∀ contractId caller wasmHash wasmHash',
    (verifyUpgradeAuthorization contractId caller wasmHash).value (reached x tokens pre) =
      some wasmHash' →
    ∃ y ∈ trace step (deployed x tokens) pre, Upgrades y.1 y.2 contractId wasmHash'

theorem lookup_of_not_proposed {x : X} {tokens : TokenLedger} {steps : List (Step me (Entry X))}
    (h : proposedIds x tokens steps = []) {id : ℕ} {p : UpgradeProposal} :
    (reached x tokens steps).store.own.proposals.lookup id ≠ some p := by
  intro hp
  have hids := (book_reached x tokens steps).ids id p hp
  have hmem : id ∈ proposedIds x tokens steps := mem_proposedIds.mpr hids.2
  rw [h] at hmem
  simp at hmem

theorem not_upgrades_of_not_proposed {x : X} {tokens : TokenLedger}
    {pre : List (Step me (Entry X))} (h : proposedIds x tokens pre = []) {s : Step me (Entry X)}
    {contractId : Address} {wasmHash : Bytes} :
    ¬ Upgrades (reached x tokens pre) s contractId wasmHash := by
  rintro ⟨id, p, -, hp, -⟩
  exact lookup_of_not_proposed h hp

theorem proposedIds_append_eq_nil {x : X} {tokens : TokenLedger}
    {pre post : List (Step me (Entry X))} (h : proposedIds x tokens (pre ++ post) = []) :
    proposedIds x tokens pre = [] := by
  unfold proposedIds at h
  rw [yields_append] at h
  exact List.append_eq_nil_iff.mp h |>.1

/-- The code of a new proposal is authorised before any proposal was executed. -/
theorem authorised_of_proposed {x : X} {tokens : TokenLedger} {pre : List (Step me (Entry X))}
    {s : Step me (Entry X)} {id : ℕ} (hid : proposedId (reached x tokens pre) s = some id) :
    executedId (reached x tokens pre) s = none ∧
      ∃ contractId caller wasmHash,
        Authorised (reached x tokens (pre ++ [s])) contractId caller wasmHash := by
  unfold proposedId at hid
  split at hid
  · rename_i env caller contractId newWasmHash newVersion note
    refine ⟨rfl, contractId, caller, newWasmHash, ?_⟩
    have hdone := proposeUpgrade_done (value_eq_some.mp hid)
    rw [authorised_reached, reached_concat]
    change Done env _ _ (step (.call env
      (.proposeUpgrade caller contractId newWasmHash newVersion note))
        (reached x tokens pre)) at hdone
    generalize step _ (reached x tokens pre) = w' at hdone ⊢
    cases hdone with
    | proposeUpgrade events e hrole =>
      exact ⟨hrole, _, _, Finmap.lookup_insert _, rfl, rfl, rfl⟩
  · cases hid

/-- A run authorises what was executed, and nothing else, exactly when nothing is proposed in it. -/
theorem authorises_executed_iff (x : X) (tokens : TokenLedger) (steps : List (Step me (Entry X))) :
    AuthorisesExecuted x tokens steps ↔ proposedIds x tokens steps = [] := by
  constructor
  · intro h
    by_contra hne
    -- at the first proposal, nothing has been executed
    obtain ⟨pre, s, post, id, rfl, hpre, hid⟩ := exists_first_of_yields hne
    obtain ⟨hnone, contractId, caller, wasmHash, hauth⟩ := authorised_of_proposed hid
    obtain ⟨y, hy, hupgrades⟩ :=
      h.only (pre ++ [s]) post (by simp) contractId caller wasmHash
        wasmHash hauth
    rw [trace_append, List.mem_append] at hy
    rcases hy with hy | hy
    · obtain ⟨pre', post', rfl, hstate⟩ := mem_trace_iff.mp hy
      rw [hstate] at hupgrades
      exact not_upgrades_of_not_proposed (proposedIds_append_eq_nil hpre) hupgrades
    · rw [trace_cons, trace_nil, List.mem_singleton] at hy
      obtain ⟨id', p, hid', -⟩ := hupgrades
      rw [hy] at hid'
      exact absurd (hnone.symm.trans hid') (by simp)
  · intro h
    constructor
    · rintro pre s mid post rfl contractId wasmHash hupgrades
      exact absurd hupgrades (not_upgrades_of_not_proposed (proposedIds_append_eq_nil h))
    · rintro pre post rfl contractId caller wasmHash wasmHash' hvalue
      obtain ⟨-, -, id, p, -, hp, -⟩ := verifyUpgradeAuthorization_value.mp hvalue
      exact absurd hp (lookup_of_not_proposed (proposedIds_append_eq_nil h))

/-- The proposal of `proposedRun` is executed. -/
def executedRun : List (Step ⟨0⟩ (Entry Unit)) :=
  proposedRun ++ [.call (.signedBy ⟨0⟩ 4 4 [⟨1⟩]) (.executeUpgrade noHooks ⟨1⟩ 1)]

/-- The upgrader is authorised while the proposal is pending and nothing is executed, and no more
    after it is executed. -/
theorem authorised_before_execution :
    Authorised (reached () (.ofList []) proposedRun) ⟨7⟩ ⟨1⟩ [2] ∧
      executedIds () (.ofList []) proposedRun = [] ∧
      executedIds () (.ofList []) executedRun = [1] ∧
      ¬ Authorised (reached () (.ofList []) executedRun) ⟨7⟩ ⟨1⟩ [2] ∧
      ¬ AuthorisesExecuted () (.ofList []) executedRun := by
  have hnone : executedIds () (.ofList []) proposedRun = [] := by decide
  refine ⟨by decide, hnone, by decide, by decide, ?_⟩
  intro h
  obtain ⟨y, hy, id, p, hid, -⟩ := h.only proposedRun _ rfl ⟨7⟩ ⟨1⟩ [2] [2] (by decide)
  rw [yields_eq_nil_iff.mp hnone y hy] at hid
  cases hid

/-! ## Who removes a proposal -/

/-- The proposal `p` with this id is open before the step from `w` to `w'`, and after it no longer
    pending or no longer stored. -/
def Removes (w w' : World (Linked Store X)) (id : ℕ) (p : UpgradeProposal) : Prop :=
  w.store.own.proposals.lookup id = some p ∧ p.executed = false ∧
    (w'.store.own.getPendingProposal p.contractId ≠ some id ∨
      w'.store.own.proposals.lookup id = none)

/-- An address that holds the role signs the call. -/
def SignedByRole (env : Env me) (w : World (Linked Store X)) (role : Role) : Prop :=
  ∃ a, (a, role) ∈ w.shared.roles ∧ env.signed a = true

instance (env : Env me) (w : World (Linked Store X)) (role : Role) :
    Decidable (SignedByRole env w role) :=
  decidable_of_iff (∃ x ∈ w.shared.roles, x.2 = role ∧ env.signed x.1 = true) <| by
    constructor
    · rintro ⟨⟨a, role⟩, hrole, rfl, hsigned⟩
      exact ⟨a, hrole, hsigned⟩
    · rintro ⟨a, hrole, hsigned⟩
      exact ⟨(a, role), hrole, rfl, hsigned⟩

/-- The step executes the proposal, signed by an upgrader, or cancels it, signed by its proposer or
    by an admin. -/
def Entitled (w : World (Linked Store X)) (id : ℕ) (p : UpgradeProposal) :
    Step me (Entry X) → Prop
  | .call env (.executeUpgrade _ _ id') => id' = id ∧ SignedByRole env w .upgrader
  | .call env (.cancelProposal _ id') =>
    id' = id ∧ (env.signed p.proposer = true ∨ SignedByRole env w .admin)
  | _ => False

/-- The step is no call that the proposer, an upgrader or an admin signs. -/
def Outsider (w : World (Linked Store X)) (p : UpgradeProposal) : Step me (Entry X) → Prop
  | .call env _ => env.signed p.proposer = false ∧ ¬ SignedByRole env w .upgrader ∧
      ¬ SignedByRole env w .admin
  | .outside _ _ => True

instance (w : World (Linked Store X)) (p : UpgradeProposal) (s : Step me (Entry X)) :
    Decidable (Outsider w p s) := by
  unfold Outsider
  split <;> infer_instance

/-- In the course of the run, open proposals are removed only by entitled steps; and no sequence of
    calls that only others sign removes one. -/
structure RemovedByEntitled (x : X) (tokens : TokenLedger) (steps : List (Step me (Entry X))) :
    Prop where
  entitled : ∀ y ∈ trace step (deployed x tokens) steps, ∀ id p,
    Removes y.1 (step y.2 y.1) id p → Entitled y.1 id p y.2
  kept : ∀ pre mid post, steps = pre ++ mid ++ post → ∀ id p,
    (reached x tokens pre).store.own.proposals.lookup id = some p → p.executed = false →
    (∀ y ∈ trace step (reached x tokens pre) mid, Outsider y.1 p y.2) →
    (reached x tokens (pre ++ mid)).store.own.getPendingProposal p.contractId = some id ∧
      (reached x tokens (pre ++ mid)).store.own.proposals.lookup id = some p

/-- A cancellation of an open proposal that names its proposer or an admin as the caller is signed
    by the proposer or by an admin. -/
def CancelSigned (w : World (Linked Store X)) : Step me (Entry X) → Prop
  | .call env (.cancelProposal caller id) => ∀ p, w.store.own.proposals.lookup id = some p →
      p.executed = false → p.proposer = caller ∨ (caller, Role.admin) ∈ w.shared.roles →
      env.signed p.proposer = true ∨ SignedByRole env w .admin
  | _ => True

theorem cancelProposal_succeeds {w : World (Linked Store X)} {caller : Address} {id : ℕ}
    {p : UpgradeProposal} (hp : w.store.own.proposals.lookup id = some p)
    (hopen : p.executed = false)
    (hcaller : p.proposer = caller ∨ (caller, Role.admin) ∈ w.shared.roles) :
    (cancelProposal caller id).Succeeds w := by
  simp [Exec.Succeeds, cancelProposal, hp, hopen]
  exact hcaller.resolve_left

/-- A proposal that is removed is not stored as it was. -/
theorem Removes.lookup_ne {w : World (Linked Store X)} (h : Book w.store.own)
    {s : Step me (Entry X)} {id : ℕ} {p : UpgradeProposal} (hremoves : Removes w (step s w) id p) :
    (step s w).store.own.proposals.lookup id ≠ some p := by
  obtain ⟨-, hopen, hgone⟩ := hremoves
  intro hp'
  rcases hgone with hgone | hgone
  · exact hgone ((h.step s).marks.lookup hp' hopen)
  · rw [hp'] at hgone
    cases hgone

theorem CancelSigned.entitled {w : World (Linked Store X)} (h : Book w.store.own)
    {s : Step me (Entry X)} (hsigned : CancelSigned w s) {id : ℕ} {p : UpgradeProposal}
    (hp : w.store.own.proposals.lookup id = some p) (hopen : p.executed = false)
    (hchanged : (step s w).store.own.proposals.lookup id ≠ some p) : Entitled w id p s := by
  rcases step_cases s w with ⟨env, c, rfl, -, hdone⟩ | ⟨-, hstore, -⟩
  · rcases (lookup_of_done h hdone hp).resolve_left hchanged with
      ⟨hooks, caller, rfl⟩ | ⟨caller, rfl⟩
    · generalize step _ w = w' at hdone
      cases hdone with
      | executeUpgrade events p' e others hrole hcaller => exact ⟨rfl, caller, hrole, hcaller⟩
    · generalize step _ w = w' at hdone
      cases hdone with
      | cancelProposal p' hp' hopen' hcaller =>
        obtain rfl := Option.some.inj (hp.symm.trans hp')
        exact ⟨rfl, hsigned p hp hopen hcaller⟩
  · rw [hstore] at hchanged
    exact absurd hp hchanged

/-- The steps that remove a proposal are entitled exactly when the cancellations are signed. -/
theorem entitled_iff {w : World (Linked Store X)} (h : Book w.store.own) (s : Step me (Entry X)) :
    (∀ id p, Removes w (step s w) id p → Entitled w id p s) ↔ CancelSigned w s := by
  constructor
  · intro hentitled
    unfold CancelSigned
    split
    · rename_i env caller id
      intro p hp hopen hcaller
      have hdone : Done env w (.cancelProposal caller id) _ :=
        commit_of_succeeds (fun _ _ => cancelProposal_done)
          (cancelProposal_succeeds hp hopen hcaller)
      refine (hentitled id p ⟨hp, hopen, .inr ?_⟩).2
      show ((cancelProposal caller id).commit w).store.own.proposals.lookup id = none
      generalize (cancelProposal caller id).commit w = w' at hdone ⊢
      cases hdone with
      | cancelProposal => exact Finmap.lookup_erase _ _
    · trivial
  · intro hsigned id p hremoves
    exact hsigned.entitled h hremoves.1 hremoves.2.1 (hremoves.lookup_ne h)

theorem Outsider.not_entitled {w : World (Linked Store X)} {s : Step me (Entry X)} {id : ℕ}
    {p : UpgradeProposal} (h : Outsider w p s) : ¬ Entitled w id p s := by
  intro hentitled
  unfold Entitled at hentitled
  split at hentitled
  · exact h.2.1 hentitled.2
  · rcases hentitled.2 with hproposer | hadmin
    · rw [h.1] at hproposer
      cases hproposer
    · exact h.2.2 hadmin
  · exact hentitled

/-- An open proposal is removed only by entitled steps, and by no sequence of calls that only others
    sign, exactly when every cancellation that is accepted is signed by the proposer or by an
    admin. -/
theorem removed_by_entitled_iff (x : X) (tokens : TokenLedger) (steps : List (Step me (Entry X))) :
    RemovedByEntitled x tokens steps ↔
      ∀ y ∈ trace step (deployed x tokens) steps, CancelSigned y.1 y.2 := by
  constructor
  · intro h y hy
    exact (entitled_iff (book_of_mem_trace hy) y.2).mp (h.entitled y hy)
  · intro hsigned
    constructor
    · intro y hy
      exact (entitled_iff (book_of_mem_trace hy) y.2).mpr (hsigned y hy)
    · rintro pre mid post rfl id p hp hopen houtside
      rw [List.append_assoc, trace_append, trace_append] at hsigned
      have hstep : ∀ (w : World (Linked Store X)) (s : Step me (Entry X)),
          Book w.store.own ∧ w.store.own.proposals.lookup id = some p →
          Outsider w p s ∧ CancelSigned w s →
          Book (step s w).store.own ∧ (step s w).store.own.proposals.lookup id = some p := by
        rintro w s ⟨hbook, hp⟩ ⟨hout, hcancel⟩
        refine ⟨hbook.step s, ?_⟩
        by_contra hchanged
        exact hout.not_entitled (hcancel.entitled hbook hp hopen hchanged)
      have hrun := run_induct_of_trace hstep ⟨book_reached x tokens pre, hp⟩ fun y hy =>
        ⟨houtside y hy, hsigned y (List.mem_append_right _ (List.mem_append_left _ hy))⟩
      rw [reached, run_append]
      exact ⟨hrun.1.marks.lookup hrun.2 hopen, hrun.2⟩

/-- The proposal of `proposedRun` is cancelled in the name of its proposer by a call that `⟨5⟩`
    signs. -/
def strangerRun : List (Step ⟨0⟩ (Entry Unit)) :=
  proposedRun ++ [.call (.signedBy ⟨0⟩ 4 4 [⟨5⟩]) (.cancelProposal ⟨1⟩ 1)]

theorem removed_by_stranger : ¬ RemovedByEntitled () (.ofList []) strangerRun := by
  intro h
  have hkept := h.kept proposedRun (strangerRun.drop 3) [] rfl 1
    ⟨1, ⟨7⟩, [2], 2, "v2", ⟨1⟩, false, 3, 0⟩ (by decide) rfl (by decide)
  exact absurd hkept.1 (by decide)

end Trellis.Upgrade
