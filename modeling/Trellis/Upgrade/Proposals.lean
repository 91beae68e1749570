import Trellis.Lib.Marks
import Trellis.Lib.Run
import Trellis.Upgrade.Contract

/-!
# The pending upgrade lock

The proposals of the upgradeability contract, the marks of the pending ones and the history of the
executed ones are kept under separate keys, by three entry points. `Book` says how they belong
together.

Results:
* `Book.step`: every step keeps the book.
* `lookup_of_done`, `lookup_of_executed`: a proposal stays as it is until a call executes or cancels
  it, and an executed one from then on.
* `upgradeLock`: in every reachable state the pending marks are the open proposals, of which each
  contract has at most one; ids are counted up and never reused; a proposal is executed at most
  once, by a step that adds its history record and that the hooks have approved; a call that fails
  changes nothing.
-/

namespace Trellis.Upgrade

open Exec

variable {me : Address} {X : Type}

/-- A proposal that is not executed. -/
def UpgradeProposal.Open (p : UpgradeProposal) : Prop := p.executed = false

/-- How proposals, pending marks and history belong together. -/
structure Book (s : Store) : Prop where
  ids : s.proposals.Forall fun id p => p.id = id ∧ 1 ≤ id ∧ id ≤ s.propCnt.getD 0
  marks : Marks UpgradeProposal.Open UpgradeProposal.contractId s.proposals s.pending
  history : s.history.Forall fun key _ => ∃ p, s.proposals.lookup key.2 = some p ∧
    p.executed = true ∧ p.contractId = key.1

theorem Book.empty : Book Store.empty :=
  ⟨Table.Forall.empty _, Marks.empty _ _, Table.Forall.empty _⟩

theorem Book.lookup_next {s : Store} (h : Book s) :
    s.proposals.lookup (s.propCnt.getD 0 + 1) = none := by
  by_contra hne
  obtain ⟨p, hp⟩ := Option.ne_none_iff_exists'.mp hne
  have hle := (h.ids _ p hp).2.2
  omega

/-- A stored proposal is not changed by a call, unless the call executes or cancels it. -/
theorem lookup_of_done {env : Env me} {w w' : World (Linked Store X)} {c : Entry X}
    (h : Book w.store.own) (hdone : Done env w c w') {id : ℕ} {p : UpgradeProposal}
    (hp : w.store.own.proposals.lookup id = some p) :
    w'.store.own.proposals.lookup id = some p ∨
      (∃ hooks caller, c = .executeUpgrade hooks caller id) ∨
      ∃ caller, c = .cancelProposal caller id := by
  cases hdone with
  | init => exact .inl hp
  | registerContract => exact .inl hp
  | setMigrationHook => exact .inl hp
  | proposeUpgrade =>
    refine .inl ?_
    show (w.store.own.proposals.insert _ _).lookup id = some p
    have hnew : id ≠ w.store.own.propCnt.getD 0 + 1 := by
      rintro rfl
      rw [h.lookup_next] at hp
      cases hp
    rw [Table.lookup_set, if_neg hnew, hp]
  | @executeUpgrade hooks caller id' =>
    by_cases hid : id = id'
    · exact .inr (.inl ⟨hooks, caller, by rw [hid]⟩)
    · refine .inl ?_
      show (w.store.own.proposals.insert _ _).lookup id = some p
      rw [Table.lookup_set, if_neg hid, hp]
  | @cancelProposal caller id' =>
    by_cases hid : id = id'
    · exact .inr (.inr ⟨caller, by rw [hid]⟩)
    · refine .inl ?_
      show (w.store.own.proposals.erase _).lookup id = some p
      rw [Table.lookup_unset, if_neg hid, hp]

/-- An executed proposal is not changed by a call. -/
theorem lookup_of_executed {env : Env me} {w w' : World (Linked Store X)} {c : Entry X}
    (h : Book w.store.own) (hdone : Done env w c w') {id : ℕ} {p : UpgradeProposal}
    (hp : w.store.own.proposals.lookup id = some p) (hexecuted : p.executed = true) :
    w'.store.own.proposals.lookup id = some p := by
  have hnot : ∀ p', w.store.own.proposals.lookup id = some p' → p'.executed ≠ false := by
    intro p' hp' hopen
    rw [hp] at hp'
    rw [← Option.some.inj hp', hexecuted] at hopen
    cases hopen
  rcases lookup_of_done h hdone hp with hkept | ⟨hooks, caller, rfl⟩ | ⟨caller, rfl⟩
  · exact hkept
  · cases hdone with
    | executeUpgrade events p' e others hrole hsigned hp' hopen => exact absurd hopen (hnot p' hp')
  · cases hdone with
    | cancelProposal p' hp' hopen => exact absurd hopen (hnot p' hp')

/-- The history records keep their executed proposals. -/
theorem Book.history_done {env : Env me} {w w' : World (Linked Store X)} {c : Entry X}
    (h : Book w.store.own) (hdone : Done env w c w') :
    w.store.own.history.Forall fun key _ => ∃ p, w'.store.own.proposals.lookup key.2 = some p ∧
      p.executed = true ∧ p.contractId = key.1 := by
  refine h.history.imp ?_
  rintro key record ⟨p, hp, hexecuted, hcontract⟩
  exact ⟨p, lookup_of_executed h hdone hp hexecuted, hexecuted, hcontract⟩

theorem Book.done {env : Env me} {w w' : World (Linked Store X)} {c : Entry X}
    (h : Book w.store.own) (hdone : Done env w c w') : Book w'.store.own := by
  have hhistory := h.history_done hdone
  cases hdone with
  | init => exact h
  | registerContract => exact ⟨h.ids, h.marks, h.history⟩
  | setMigrationHook => exact ⟨h.ids, h.marks, h.history⟩
  | @proposeUpgrade caller contractId newWasmHash newVersion note events e hrole hsigned he hversion
      hhash hnone =>
    refine ⟨Table.Forall.set ?_ ⟨rfl, by omega, le_rfl⟩, ?_, hhistory⟩
    · refine h.ids.imp ?_
      rintro id p ⟨hid, hpos, hle⟩
      exact ⟨hid, hpos, Nat.le_succ_of_le hle⟩
    · exact h.marks.add h.lookup_next rfl hnone
  | @executeUpgrade hooks caller id events p e others hrole hsigned hp hopen =>
    have hnew :
        ¬ UpgradeProposal.Open { p with executed := true, executedAt := env.timestamp } := by
      simp [UpgradeProposal.Open]
    refine ⟨Table.Forall.set h.ids (h.ids id p hp), h.marks.close hp hopen hnew, ?_⟩
    refine Table.Forall.set hhistory
      ⟨{ p with executed := true, executedAt := env.timestamp }, ?_, rfl, rfl⟩
    show (w.store.own.proposals.insert _ _).lookup id = _
    rw [Table.lookup_set, if_pos rfl]
  | @cancelProposal caller id p hp hopen =>
    exact ⟨h.ids.unset id, h.marks.drop hp hopen, hhistory⟩

theorem Book.step {w : World (Linked Store X)} (h : Book w.store.own) (s : Step me (Entry X)) :
    Book (step s w).store.own :=
  step_keeps (fun _ _ _ hdone => h.done hdone) h

/-! ## What the steps of a run return -/

/-- The id that a step returns from `propose_upgrade`. -/
def proposedId (w : World (Linked Store X)) : Step me (Entry X) → Option ℕ
  | .call env (.proposeUpgrade caller contractId newWasmHash newVersion note) =>
    (proposeUpgrade env caller contractId newWasmHash newVersion note).value w
  | _ => none

/-- The id of the proposal that a step executes. -/
def executedId (w : World (Linked Store X)) : Step me (Entry X) → Option ℕ
  | .call env (.executeUpgrade hooks caller proposalId) =>
    ((executeUpgrade env hooks caller proposalId).value w).map fun _ => proposalId
  | _ => none

/-- A step that is no call that returns proposes nothing and executes nothing. -/
theorem ids_of_not_returns {w : World (Linked Store X)} {s : Step me (Entry X)}
    (h : ∀ env c, s = .call env c → ¬ Returns env w c) :
    proposedId w s = none ∧ executedId w s = none := by
  have hnone : ∀ {α : Type} {x : Invocation (Linked Store X) UpgradeError α}, ¬ x.Succeeds w →
      x.value w = none := by
    intro α x hfails
    by_contra hne
    obtain ⟨a, ha⟩ := Option.ne_none_iff_exists'.mp hne
    exact hfails ⟨a, _, value_eq_some.mp ha⟩
  constructor
  · unfold proposedId
    split
    · exact hnone (h _ _ rfl)
    · rfl
  · unfold executedId
    split
    · rw [hnone (h _ _ rfl)]
      rfl
    · rfl

theorem executedId_eq_some {w : World (Linked Store X)} {s : Step me (Entry X)} {id : ℕ} :
    executedId w s = some id ↔ ∃ env hooks caller, s = .call env (.executeUpgrade hooks caller id) ∧
      (executeUpgrade env hooks caller id).Succeeds w := by
  constructor
  · intro h
    unfold executedId at h
    split at h
    · rename_i env hooks caller proposalId
      obtain ⟨u, hu, rfl⟩ := Option.map_eq_some_iff.mp h
      exact ⟨env, hooks, caller, rfl, u, _, value_eq_some.mp hu⟩
    · cases h
  · rintro ⟨env, hooks, caller, rfl, u, w', hok⟩
    show Option.map _ _ = _
    rw [value_of_ok hok]
    rfl

/-- The proposal is stored and executed. -/
def Store.Executed (s : Store) (id : ℕ) : Prop :=
  ∃ p, s.proposals.lookup id = some p ∧ p.executed = true

/-- A proposal is executed after a step exactly when it was before, or the step executes it. -/
theorem executed_step_iff {w : World (Linked Store X)} (h : Book w.store.own)
    (s : Step me (Entry X)) (id : ℕ) :
    (step s w).store.own.Executed id ↔
      w.store.own.Executed id ∨ executedId w s = some id := by
  rcases step_cases s w with ⟨env, c, rfl, hreturns, hdone⟩ | ⟨hfails, hstore, -⟩
  · have hkeep : w.store.own.Executed id → (step (.call env c) w).store.own.Executed id := by
      rintro ⟨p, hp, hexecuted⟩
      exact ⟨p, lookup_of_executed h hdone hp hexecuted, hexecuted⟩
    have hiff : executedId w (.call env c) = some id ↔
        ∃ hooks caller, c = .executeUpgrade hooks caller id := by
      rw [executedId_eq_some]
      constructor
      · rintro ⟨env', hooks, caller, hc, -⟩
        cases hc
        exact ⟨hooks, caller, rfl⟩
      · rintro ⟨hooks, caller, rfl⟩
        exact ⟨env, hooks, caller, rfl, hreturns⟩
    rw [hiff]
    generalize step (.call env c) w = w' at hdone hkeep ⊢
    refine ⟨fun hafter => ?_, fun hbefore => hbefore.elim hkeep ?_⟩
    · obtain ⟨p, hp, hexecuted⟩ := hafter
      cases hdone with
      | init => exact .inl ⟨p, hp, hexecuted⟩
      | registerContract => exact .inl ⟨p, hp, hexecuted⟩
      | setMigrationHook => exact .inl ⟨p, hp, hexecuted⟩
      | proposeUpgrade =>
        rw [Table.lookup_set] at hp
        split_ifs at hp
        · -- the new proposal is open
          rw [← Option.some.inj hp] at hexecuted
          cases hexecuted
        · exact .inl ⟨p, hp, hexecuted⟩
      | @executeUpgrade hooks caller id' =>
        change (w.store.own.proposals.insert _ _).lookup id = some p at hp
        rw [Table.lookup_set] at hp
        split_ifs at hp with hid
        · exact .inr ⟨hooks, caller, by rw [hid]⟩
        · exact .inl ⟨p, hp, hexecuted⟩
      | cancelProposal =>
        rw [Table.lookup_unset] at hp
        split_ifs at hp
        exact .inl ⟨p, hp, hexecuted⟩
    · rintro ⟨hooks, caller, rfl⟩
      cases hdone with
      | executeUpgrade events p =>
        refine ⟨{ p with executed := true, executedAt := env.timestamp }, ?_, rfl⟩
        show (w.store.own.proposals.insert _ _).lookup id = _
        rw [Table.lookup_set, if_pos rfl]
  · rw [hstore, (ids_of_not_returns hfails).2]
    exact ⟨.inl, fun hbefore => hbefore.resolve_right (by simp)⟩

/-- The step from `w` to `w'` executes the proposal `id`, which was open: it adds one history
    record, under the contract and the id of the proposal, and the hook of the contract, if it has
    one, has approved the old and the new version of this record. -/
def CarriesOut (hooks : Hooks X) (w w' : World (Linked Store X)) (id : ℕ) : Prop :=
  ∃ p e record, w.store.own.proposals.lookup id = some p ∧ p.Open ∧
    w.store.own.entries.lookup p.contractId = some e ∧
    record.contractId = p.contractId ∧ record.oldVersion = e.current.version ∧
    record.newVersion = p.newVersion ∧
    hooks.Pass e.migrationHook record.oldVersion record.newVersion w.store.others w'.store.others ∧
    w.store.own.history.lookup (p.contractId, id) = none ∧
    w'.store.own.history = w.store.own.history.insert (p.contractId, id) record

theorem carriesOut_of_done {env : Env me} {hooks : Hooks X} {caller : Address} {id : ℕ}
    {w w' : World (Linked Store X)} (h : Book w.store.own)
    (hdone : Done env w (.executeUpgrade hooks caller id) w') : CarriesOut hooks w w' id := by
  cases hdone with
  | executeUpgrade events p e others hrole hsigned hp hopen he hhooks =>
    refine ⟨p, e, _, hp, hopen, he, rfl, rfl, rfl, hhooks, ?_, rfl⟩
    by_contra hne
    obtain ⟨record, hrecord⟩ := Option.ne_none_iff_exists'.mp hne
    -- a record is there for executed proposals only
    obtain ⟨p', hp', hexecuted, -⟩ := h.history _ record hrecord
    rw [hp] at hp'
    rw [← Option.some.inj hp', hopen] at hexecuted
    cases hexecuted

/-- A step executes an open proposal only. -/
theorem not_executed_of_executes {w : World (Linked Store X)} {s : Step me (Entry X)} {id : ℕ}
    (h : executedId w s = some id) : ¬ w.store.own.Executed id := by
  obtain ⟨env, hooks, caller, rfl, u, w', hok⟩ := executedId_eq_some.mp h
  rintro ⟨p', hp', hexecuted⟩
  cases executeUpgrade_done hok with
  | executeUpgrade events p e others hrole hsigned hp hopen =>
    rw [hp] at hp'
    rw [← Option.some.inj hp', hopen] at hexecuted
    cases hexecuted

theorem history_of_not_executes {w : World (Linked Store X)} {s : Step me (Entry X)}
    (h : executedId w s = none) : (step s w).store.own.history = w.store.own.history := by
  rcases step_cases s w with ⟨env, c, rfl, hreturns, hdone⟩ | ⟨-, hstore, -⟩
  · have hno : ∀ hooks caller id, c ≠ .executeUpgrade hooks caller id := by
      rintro hooks caller id rfl
      rw [executedId_eq_some.mpr ⟨env, hooks, caller, rfl, hreturns⟩] at h
      cases h
    generalize step (.call env c) w = w' at hdone ⊢
    cases hdone with
    | executeUpgrade => exact absurd rfl (hno _ _ _)
    | init | registerContract | setMigrationHook | proposeUpgrade | cancelProposal => rfl
  · rw [hstore]

/-- A step proposes exactly when it moves the counter, which is the id it returns. -/
theorem proposedId_step (w : World (Linked Store X)) (s : Step me (Entry X)) :
    (proposedId w s = none ∧
      (step s w).store.own.propCnt.getD 0 = w.store.own.propCnt.getD 0) ∨
    (proposedId w s = some (w.store.own.propCnt.getD 0 + 1) ∧
      (step s w).store.own.propCnt.getD 0 = w.store.own.propCnt.getD 0 + 1) := by
  rcases step_cases s w with ⟨env, c, rfl, hreturns, hdone⟩ | ⟨hfails, hstore, -⟩
  · cases c with
    | proposeUpgrade caller contractId newWasmHash newVersion note =>
      obtain ⟨id, w', hok⟩ := hreturns
      refine .inr ⟨?_, ?_⟩
      · show (proposeUpgrade _ _ _ _ _ _).value w = _
        rw [value_of_ok hok, proposeUpgrade_id hok]
      · generalize step (.call env (.proposeUpgrade caller contractId newWasmHash newVersion note))
          w = w' at hdone ⊢
        cases hdone with
        | proposeUpgrade => rfl
    | init | registerContract | setMigrationHook | executeUpgrade | cancelProposal =>
      refine .inl ⟨rfl, ?_⟩
      generalize step _ w = w' at hdone ⊢
      cases hdone
      rfl
  · rw [hstore]
    exact .inl ⟨(ids_of_not_returns hfails).1, rfl⟩

/-! ## Runs -/

/-- A fresh contract beside other contracts in the state `x`. -/
def deployed (x : X) (tokens : TokenLedger) : World (Linked Store X) :=
  World.deployed ⟨Store.empty, x⟩ tokens

/-- The state of a fresh contract after the steps. -/
def reached (x : X) (tokens : TokenLedger) (steps : List (Step me (Entry X))) :
    World (Linked Store X) :=
  run step (deployed x tokens) steps

theorem reached_concat (x : X) (tokens : TokenLedger) (pre : List (Step me (Entry X)))
    (s : Step me (Entry X)) :
    reached x tokens (pre ++ [s]) = step s (reached x tokens pre) := by
  rw [reached, run_append]
  rfl

theorem book_reached (x : X) (tokens : TokenLedger) (steps : List (Step me (Entry X))) :
    Book (reached x tokens steps).store.own :=
  run_induct (P := fun w : World (Linked Store X) => Book w.store.own) (fun _ s h => h.step s)
    Book.empty steps

theorem book_of_mem_trace {x : X} {tokens : TokenLedger} {steps : List (Step me (Entry X))}
    {y : World (Linked Store X) × Step me (Entry X)}
    (hy : y ∈ trace step (deployed x tokens) steps) : Book y.1.store.own :=
  trace_induct (P := fun w : World (Linked Store X) => Book w.store.own) (fun _ s h => h.step s)
    Book.empty hy

/-- The ids that a run of a fresh contract returns from `propose_upgrade`, in order. -/
def proposedIds (x : X) (tokens : TokenLedger) (steps : List (Step me (Entry X))) : List ℕ :=
  yields step proposedId (deployed x tokens) steps

/-- The ids of the proposals that a run of a fresh contract executes, in order. -/
def executedIds (x : X) (tokens : TokenLedger) (steps : List (Step me (Entry X))) : List ℕ :=
  yields step executedId (deployed x tokens) steps

theorem proposedIds_eq (x : X) (tokens : TokenLedger) (steps : List (Step me (Entry X))) :
    proposedIds x tokens steps = List.range' 1 (proposedIds x tokens steps).length := by
  have hrun := yields_counter (fun w : World (Linked Store X) => w.store.own.propCnt.getD 0)
    (fun w (s : Step me (Entry X)) => proposedId_step w s) (deployed x tokens) steps
  exact hrun

/-- The ids that were returned are those up to the counter. -/
theorem mem_proposedIds {x : X} {tokens : TokenLedger} {steps : List (Step me (Entry X))} {id : ℕ} :
    id ∈ proposedIds x tokens steps ↔
      1 ≤ id ∧ id ≤ (reached x tokens steps).store.own.propCnt.getD 0 := by
  have hstep : ∀ w (s : Step me (Entry X)) id, True →
      ((1 ≤ id ∧ id ≤ (step s w).store.own.propCnt.getD 0) ↔
        (1 ≤ id ∧ id ≤ w.store.own.propCnt.getD 0) ∨ proposedId w s = some id) := by
    intro w s id _
    rcases proposedId_step w s with ⟨hnone, hcount⟩ | ⟨hsome, hcount⟩
    · simp [hnone, hcount]
    · simp only [hsome, hcount, Option.some.injEq]
      omega
  have hrun := taken_run_iff (fun (w : World (Linked Store X)) id =>
    1 ≤ id ∧ id ≤ w.store.own.propCnt.getD 0) (fun _ _ _ => trivial) hstep (s := deployed x tokens)
    trivial steps id
  refine (hrun.trans (or_iff_right ?_)).symm
  rintro ⟨hpos, hle⟩
  have hzero : id ≤ 0 := hle
  omega

theorem executedIds_nodup (x : X) (tokens : TokenLedger) (steps : List (Step me (Entry X))) :
    (executedIds x tokens steps).Nodup :=
  yields_nodup (fun w id => w.store.own.Executed id) (fun _ s h => h.step s)
    (fun _ s id h => executed_step_iff h s id) (fun _ _ _ _ => not_executed_of_executes) Book.empty
    steps

theorem executed_reached (x : X) (tokens : TokenLedger) (steps : List (Step me (Entry X)))
    (id : ℕ) :
    (reached x tokens steps).store.own.Executed id ↔ id ∈ executedIds x tokens steps := by
  have hrun := taken_run_iff (P := fun w : World (Linked Store X) => Book w.store.own)
    (fun w id => w.store.own.Executed id) (fun _ s h => h.step s)
    (fun _ s id h => executed_step_iff h s id) (s := deployed x tokens) Book.empty steps id
  refine hrun.trans (or_iff_right ?_)
  rintro ⟨p, hp, -⟩
  simp [deployed, World.deployed, Store.empty] at hp

/-- The admin `⟨1⟩` registers the contract `⟨7⟩` in version 1 and proposes its version 2. -/
def proposedRun : List (Step ⟨0⟩ (Entry Unit)) :=
  [.call (.signedBy ⟨0⟩ 1 1 [⟨1⟩]) (.init ⟨1⟩),
    .call (.signedBy ⟨0⟩ 2 2 [⟨1⟩]) (.registerContract ⟨1⟩ ⟨7⟩ "aid" 1 [1]),
    .call (.signedBy ⟨0⟩ 3 3 [⟨1⟩]) (.proposeUpgrade ⟨1⟩ ⟨7⟩ [2] 2 "v2")]

/-- The hooks of a suite in which no contract has one. -/
def noHooks : Hooks Unit where
  preUpg _ _ _ x := (.failed, x)
  pstUpg _ _ _ x := (.failed, x)

/-- The pending upgrade lock of a fresh contract, after a run and in each of its steps. -/
structure UpgradeLock (x : X) (tokens : TokenLedger) (steps : List (Step me (Entry X))) : Prop where
  pending_iff (contractId : Address) (id : ℕ) :
    (reached x tokens steps).store.own.getPendingProposal contractId = some id ↔
      ∃ p, (reached x tokens steps).store.own.proposals.lookup id = some p ∧ p.executed = false ∧
        p.contractId = contractId
  one_open (id id' : ℕ) (p p' : UpgradeProposal) :
    (reached x tokens steps).store.own.proposals.lookup id = some p → p.executed = false →
    (reached x tokens steps).store.own.proposals.lookup id' = some p' → p'.executed = false →
    p.contractId = p'.contractId → id = id'
  ids : proposedIds x tokens steps = List.range' 1 (proposedIds x tokens steps).length
  stored (id : ℕ) (p : UpgradeProposal) :
    (reached x tokens steps).store.own.proposals.lookup id = some p →
    p.id = id ∧ id ∈ proposedIds x tokens steps
  executed_once : (executedIds x tokens steps).Nodup
  executed_iff (id : ℕ) :
    (reached x tokens steps).store.own.Executed id ↔ id ∈ executedIds x tokens steps
  carriesOut : ∀ y ∈ trace step (deployed x tokens) steps, ∀ env hooks caller id,
    y.2 = .call env (.executeUpgrade hooks caller id) → executedId y.1 y.2 = some id →
    CarriesOut hooks y.1 (step y.2 y.1) id
  history : ∀ y ∈ trace step (deployed x tokens) steps, executedId y.1 y.2 = none →
    (step y.2 y.1).store.own.history = y.1.store.own.history
  failed : ∀ y ∈ trace step (deployed x tokens) steps, ∀ env c, y.2 = .call env c →
    ¬ Returns env y.1 c → (step y.2 y.1).store.own = y.1.store.own

/-- After every run of a fresh contract, by any callers and with any hooks, the lock is in order. -/
theorem upgradeLock (x : X) (tokens : TokenLedger) (steps : List (Step me (Entry X))) :
    UpgradeLock x tokens steps where
  pending_iff := (book_reached x tokens steps).marks
  one_open _ _ _ _ hp hopen hp' hopen' hcontract :=
    (book_reached x tokens steps).marks.unique hp hopen hp' hopen' hcontract
  ids := proposedIds_eq x tokens steps
  stored id p hp := by
    have hids := (book_reached x tokens steps).ids id p hp
    exact ⟨hids.1, mem_proposedIds.mpr hids.2⟩
  executed_once := executedIds_nodup x tokens steps
  executed_iff := executed_reached x tokens steps
  carriesOut y hy env hooks caller id hs hid := by
    obtain ⟨env', hooks', caller', hs', hsucceeds⟩ := executedId_eq_some.mp hid
    rw [hs] at hs'
    cases hs'
    rw [hs]
    exact carriesOut_of_done (book_of_mem_trace hy)
      (commit_of_succeeds (fun _ _ => executeUpgrade_done) hsucceeds)
  history y hy hid := history_of_not_executes hid
  failed y hy env c hs hfails := by
    rcases step_cases y.2 y.1 with ⟨env', c', hs', hreturns, -⟩ | ⟨-, hstore, -⟩
    · rw [hs] at hs'
      cases hs'
      exact absurd hreturns hfails
    · rw [hstore]

end Trellis.Upgrade
