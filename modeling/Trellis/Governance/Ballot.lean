import Trellis.Governance.Quorum

/-!
# Ballots

A proposal counts approvals in a `u32`, and refuses one from an address that has approved before.
Whatever else is called in between, the count is that of the distinct admins who have called
`approve`, as long as the counter holds it.

Results:
* `Ballot.step`, `ballot_run`: what the votes so far say about the stored proposal.
* `execute_iff`: when `execute` goes through.
* `ballot_decides`: from its proposal on, over any run, an action can be executed exactly when
  enough distinct admins have voted, and takes effect once.
-/

namespace Trellis.Governance

open Exec

variable {me : Address}

/-! ## Votes -/

/-- The vote of a step: an admin who signs calls `approve` for the proposal. -/
def vote (id : ℕ) (w : World Store) : Step me Entry → Option Address
  | .call env (.approve caller id') =>
    if id' = id ∧ env.signed caller = true ∧ (caller, Role.admin) ∈ w.shared.roles then
      some caller else none
  | _ => none

theorem vote_approve {id : ℕ} {w : World Store} {env : Env me} {caller : Address}
    (hacts : Acts env w caller) :
    vote id w (.call env (.approve caller id)) = some caller := if_pos ⟨rfl, hacts.2, hacts.1⟩

theorem vote_eq_some {id : ℕ} {w : World Store} {s : Step me Entry} {a : Address}
    (h : vote id w s = some a) :
    ∃ env, s = .call env (.approve a id) ∧ Acts env w a := by
  cases s with
  | outside => cases h
  | call env c =>
    cases c with
    | approve caller id' =>
      simp only [vote] at h
      split_ifs at h with hcast
      obtain ⟨rfl, hsigned, hrole⟩ := hcast
      obtain rfl := Option.some.inj h
      exact ⟨env, rfl, hrole, hsigned⟩
    | _ => cases h

theorem toFinset_concat (votes : List Address) (a : Address) :
    (votes ++ [a]).toFinset = insert a votes.toFinset := by
  ext b
  simp

/-- The proposal of the action is stored under the id. While it is pending it has approvals from the
    voters only, and counts every voter once, up to the largest `u32`. -/
structure Ballot (action : ProposalAction) (id : ℕ) (votes : List Address)
    (w : World Store) : Prop where
  book : Book w.store
  stored : ∃ p, w.store.proposals.lookup id = some p ∧ p.action = action
  voters : ∀ p, w.store.proposals.lookup id = some p → p.status = .pending →
    w.store.approvers id ⊆ votes.toFinset ∧ p.approvalCount = min votes.toFinset.card (2 ^ 32 - 1)

namespace Ballot

variable {action : ProposalAction} {id : ℕ} {votes : List Address} {w w' : World Store}

/-- A state with the same proposal and the same approvers of it. -/
theorem same (h : Ballot action id votes w) (hbook : Book w'.store)
    (hp : w'.store.proposals.lookup id = w.store.proposals.lookup id)
    (happrovers : w'.store.approvers id = w.store.approvers id) : Ballot action id votes w' where
  book := hbook
  stored := hp ▸ h.stored
  voters := by
    rw [hp, happrovers]
    exact h.voters

theorem refused (h : Ballot action id votes w) {env : Env me} {caller : Address}
    (hacts : Acts env w caller) (hfails : ¬ (approve env caller id).Succeeds w) :
    Ballot action id (votes ++ [caller]) w where
  book := h.book
  stored := h.stored
  voters := by
    intro p hp hpending
    obtain ⟨hsub, hcount⟩ := h.voters p hp hpending
    rw [toFinset_concat]
    refine ⟨hsub.trans (Finset.subset_insert _ _), ?_⟩
    by_cases hvoted : caller ∈ votes.toFinset
    · rw [Finset.insert_eq_of_mem hvoted, hcount]
    · -- a voter who has not approved was refused for want of room
      have hfresh : (id, caller) ∉ w.store.approvals :=
        fun hmem => hvoted (hsub (mem_approvers.mpr hmem))
      have hfull : ¬ p.approvalCount + 1 < 2 ^ 32 := fun hroom =>
        hfails (approve_succeeds.mpr ⟨p, hacts.1, hacts.2, hp, hpending, hfresh, hroom⟩)
      rw [Finset.card_insert_of_notMem hvoted]
      omega

theorem counted (h : Ballot action id votes w) {env : Env me} {caller : Address} {p : Proposal}
    (hcan : CanApprove w env caller id p) {events : List Event} (hbook : Book { w.store with
      approvals := insert (id, caller) w.store.approvals
      proposals := w.store.proposals.insert id { p with approvalCount := p.approvalCount + 1 } }) :
    Ballot action id (votes ++ [caller]) { w with
      store := { w.store with
        approvals := insert (id, caller) w.store.approvals
        proposals := w.store.proposals.insert id { p with approvalCount := p.approvalCount + 1 } }
      events := events } where
  book := hbook
  stored := by
    obtain ⟨p', hp', haction⟩ := h.stored
    obtain rfl : p' = p := Option.some.inj (hp'.symm.trans hcan.stored)
    exact ⟨_, Finmap.lookup_insert _, haction⟩
  voters := by
    intro q hq _
    rw [Finmap.lookup_insert] at hq
    obtain rfl := Option.some.inj hq
    obtain ⟨hsub, hcount⟩ := h.voters p hcan.stored hcan.pending
    have hroom := hcan.room
    -- below the bound all voters have approved, so this one is new
    have hcard := (h.book.counted id p hcan.stored).2
    have hall : w.store.approvers id = votes.toFinset :=
      Finset.eq_of_subset_of_card_le hsub (by omega)
    have hvoted : caller ∉ votes.toFinset := by
      rw [← hall]
      exact fun hmem => hcan.fresh (mem_approvers.mp hmem)
    rw [toFinset_concat, Finset.card_insert_of_notMem hvoted]
    refine ⟨?_, ?_⟩
    · intro a ha
      rcases Finset.mem_insert.mp (mem_approvers.mp ha) with heq | hmem
      · rw [(Prod.mk.inj heq).2]
        exact Finset.mem_insert_self _ _
      · exact Finset.mem_insert_of_mem (hsub (mem_approvers.mpr hmem))
    · show p.approvalCount + 1 = _
      omega

theorem step (h : Ballot action id votes w) (s : Step me Entry) :
    Ballot action id (votes ++ (vote id w s).toList) (Governance.step s w) := by
  have hbook := h.book.step s
  rcases step_returns s w with ⟨env, c, rfl, -, hdone⟩ | ⟨hfails, hstore, -⟩
  · generalize Governance.step (.call env c) w = w' at hbook hdone ⊢
    cases hdone with
    | init => simpa [vote] using h.same hbook rfl rfl
    | grantRole => simpa [vote] using h.same hbook rfl rfl
    | revokeRole => simpa [vote] using h.same hbook rfl rfl
    | setAdminSet => simpa [vote] using h.same hbook rfl rfl
    | setParam => simpa [vote] using h.same hbook rfl rfl
    | propose =>
      have hne : id ≠ w.store.propCnt.getD 0 + 1 := by
        rintro rfl
        obtain ⟨p, hp, -⟩ := h.stored
        exact Option.some_ne_none p (hp.symm.trans h.book.lookup_next)
      simpa [vote] using h.same hbook (by simp only [Table.lookup_set, if_neg hne]) rfl
    | @approve caller id' events p hcan =>
      by_cases hid : id' = id
      · subst hid
        rw [vote_approve ⟨hcan.role, hcan.signed⟩]
        exact h.counted hcan hbook
      · have hnone : vote id w (.call env (.approve caller id')) = none :=
          if_neg fun hvote => hid hvote.1
        rw [hnone, Option.toList_none, List.append_nil]
        refine h.same hbook (by simp only [Table.lookup_set, if_neg (Ne.symm hid)]) ?_
        ext a
        simp [mem_approvers, Ne.symm hid]
    | @execute caller id' events p hrole hsigned hp =>
      rw [show vote id w (.call env (.execute caller id')) = none from rfl, Option.toList_none,
        List.append_nil]
      by_cases hid : id' = id
      · subst hid
        obtain ⟨p', hp', haction⟩ := h.stored
        obtain rfl : p' = p := Option.some.inj (hp'.symm.trans hp)
        refine ⟨hbook, ⟨_, Finmap.lookup_insert _, haction⟩, fun q hq hpending => ?_⟩
        rw [Finmap.lookup_insert] at hq
        rw [← Option.some.inj hq] at hpending
        cases hpending
      · refine h.same hbook ?_ (approvers_congr (effect_approvals w _) id)
        simp only [Table.lookup_set, if_neg (Ne.symm hid), effect_proposals]
  · have hsame : Ballot action id votes (Governance.step s w) :=
      h.same hbook (by rw [hstore]) (by rw [hstore])
    cases hvote : vote id w s with
    | none => simpa using hsame
    | some a =>
      obtain ⟨env, rfl, hacts⟩ := vote_eq_some hvote
      exact (h.refused hacts (hfails env _ rfl)).same hbook (by rw [hstore]) (by rw [hstore])

end Ballot

/-! ## The outcome -/

/-- The votes of a run are the ballot at its end. -/
theorem ballot_run {action : ProposalAction} {id : ℕ} {w : World Store} (h : Ballot action id [] w)
    (steps : List (Step me Entry)) :
    Ballot action id (yields step (vote id) w steps) (run step w steps) :=
  yields_induct (N := fun _ _ => True) (fun _ _ s _ h => h.step s) h fun _ _ => trivial

/-- The stored proposal has not been executed. -/
def Open (id : ℕ) (w : World Store) : Prop :=
  ∃ p, w.store.proposals.lookup id = some p ∧ p.status = .pending

/-- A proposal that goes through opens a ballot under the next id. -/
theorem ballot_propose {env : Env me} {caller : Address} {action : ProposalAction} {w : World Store}
    (hbook : Book w.store) (hok : (propose env caller action).Succeeds w) :
    Ballot action (w.store.propCnt.getD 0 + 1) [] (step (.call env (.propose caller action)) w) ∧
      Open (w.store.propCnt.getD 0 + 1) (step (.call env (.propose caller action)) w) := by
  have hdone : Done env w (.propose caller action) (step (.call env (.propose caller action)) w) :=
    step_of_returns hok
  have hbook' := hbook.step (.call env (.propose caller action))
  generalize step (.call env (.propose caller action)) w = w' at hbook' hdone ⊢
  cases hdone with
  | propose =>
    refine ⟨⟨hbook', ⟨_, Finmap.lookup_insert _, rfl⟩, fun p hp _ => ?_⟩,
      ⟨_, Finmap.lookup_insert _, rfl⟩⟩
    have hcount := (hbook'.counted _ p hp).2
    rw [Finmap.lookup_insert] at hp
    obtain rfl := Option.some.inj hp
    rw [List.toFinset_nil, Finset.card_empty]
    exact ⟨Finset.subset_empty.mpr (Finset.card_eq_zero.mp hcount.symm), rfl⟩

/-- When `execute` goes through. -/
theorem execute_iff {env : Env me} {caller : Address} {id : ℕ} {w : World Store} :
    (execute env caller id).Succeeds w ↔ Acts env w caller ∧
      ∃ p, w.store.proposals.lookup id = some p ∧
      p.status = .pending ∧ w.store.getThreshold ≤ p.approvalCount ∧ p.action.Valid := by
  constructor
  · rintro ⟨u, w', h⟩
    cases execute_done h with
    | execute events p hrole hsigned hp hpending hthreshold hvalid =>
      exact ⟨⟨hrole, hsigned⟩, p, hp, hpending, hthreshold, hvalid⟩
  · rintro ⟨hacts, p, hp, hpending, hthreshold, hvalid⟩
    exact execute_succeeds hacts hp hpending hthreshold hvalid

/-- The step is a call of `execute` for the proposal, and it succeeds. -/
def Carries (id : ℕ) (w : World Store) (s : Step me Entry) : Prop :=
  ∃ env caller, s = .call env (.execute caller id) ∧ (execute env caller id).Succeeds w

theorem open_step {id : ℕ} {w : World Store} (hbook : Book w.store) (h : Open id w)
    {s : Step me Entry} (hs : ¬ Carries id w s) : Open id (step s w) := by
  obtain ⟨p, hp, hpending⟩ := h
  have hsame : ∀ {w' : World Store}, w'.store.proposals.lookup id = w.store.proposals.lookup id →
      Open id w' :=
    fun hlookup => ⟨p, hlookup.trans hp, hpending⟩
  rcases step_returns s w with ⟨env, c, rfl, hreturns, hdone⟩ | ⟨-, hstore, -⟩
  · generalize step (.call env c) w = w' at hdone ⊢
    cases hdone with
    | init => exact hsame rfl
    | grantRole => exact hsame rfl
    | revokeRole => exact hsame rfl
    | setAdminSet => exact hsame rfl
    | setParam => exact hsame rfl
    | propose =>
      have hne : id ≠ w.store.propCnt.getD 0 + 1 := by
        rintro rfl
        exact Option.some_ne_none p (hp.symm.trans hbook.lookup_next)
      exact hsame (by simp only [Table.lookup_set, if_neg hne])
    | @approve caller id' events q hcan =>
      by_cases hid : id = id'
      · subst hid
        exact ⟨_, Finmap.lookup_insert _, hcan.pending⟩
      · exact hsame (by simp only [Table.lookup_set, if_neg hid])
    | @execute caller id' =>
      have hid : id ≠ id' := by
        rintro rfl
        exact hs ⟨env, caller, rfl, hreturns⟩
      exact hsame (by simp only [Table.lookup_set, if_neg hid, effect_proposals])
  · exact hsame (by rw [hstore])

/-- What the step that executes a proposal leaves: the effect of the action, and a proposal that is
    final. -/
theorem execute_effect {env : Env me} {caller : Address} {id : ℕ} {w : World Store} {p : Proposal}
    (hp : w.store.proposals.lookup id = some p) (hok : (execute env caller id).Succeeds w) :
    governed (step (.call env (.execute caller id)) w) = governed (p.action.effect w) ∧
      (step (.call env (.execute caller id)) w).store.proposals.lookup id =
        some { p with status := .executed } := by
  have hdone : Done env w (.execute caller id) (step (.call env (.execute caller id)) w) :=
    step_of_returns hok
  generalize step (.call env (.execute caller id)) w = w' at hdone ⊢
  cases hdone with
  | execute events q hrole hsigned hq =>
    obtain rfl : q = p := Option.some.inj (hq.symm.trans hp)
    exact ⟨rfl, Finmap.lookup_insert _⟩

theorem not_open_run {id : ℕ} {w : World Store} (hbook : Book w.store) {p : Proposal}
    (hp : w.store.proposals.lookup id = some p) (hexecuted : p.status = .executed)
    (steps : List (Step me Entry)) : ¬ Open id (run step w steps) := by
  rintro ⟨q, hq, hpending⟩
  obtain ⟨p', hp', hlater⟩ := Table.Evolves.run (P := fun w : World Store => Book w.store)
    (fun w => w.store.proposals) Proposal.Later.refl Proposal.Later.trans (fun _ s h => h.step s)
    (fun _ s h => evolves_step h s) hbook steps id p hp
  obtain rfl : p' = q := Option.some.inj (hp'.symm.trans hq)
  rw [hlater.final hexecuted, hexecuted] at hpending
  cases hpending

/-- A proposal is open after a run exactly when no step of the run has executed it. -/
theorem open_run_iff {id : ℕ} {w : World Store} (hbook : Book w.store) (h : Open id w)
    (steps : List (Step me Entry)) :
    Open id (run step w steps) ↔ ∀ x ∈ trace step w steps, ¬ Carries id x.1 x.2 := by
  constructor
  · rintro hopen ⟨w', s⟩ hx ⟨env, caller, rfl, hok⟩
    obtain ⟨pre, post, rfl, rfl⟩ := mem_trace_iff.mp hx
    have hbook' : Book (run step w pre).store :=
      run_induct (P := fun w : World Store => Book w.store) (fun _ s h => h.step s) hbook pre
    obtain ⟨-, p, hp, -⟩ := execute_iff.mp hok
    rw [run_append] at hopen
    exact not_open_run (hbook'.step _) (execute_effect hp hok).2 rfl post hopen
  · intro hnot
    exact (run_induct_of_trace (P := fun w : World Store => Book w.store ∧ Open id w)
      (Q := fun w s => ¬ Carries id w s) (fun _ s h hs => ⟨h.1.step s, open_step h.1 h.2 hs⟩)
      ⟨hbook, h⟩ hnot).2

/-- When `execute` goes through, told from the ballot. -/
theorem Ballot.execute_iff {action : ProposalAction} {id : ℕ} {votes : List Address}
    {w : World Store} (h : Ballot action id votes w) (hu32 : w.store.getThreshold < 2 ^ 32)
    {env : Env me} {caller : Address} :
    (execute env caller id).Succeeds w ↔ Acts env w caller ∧ Open id w ∧
      w.store.getThreshold ≤ votes.toFinset.card ∧ action.Valid := by
  obtain ⟨p, hp, rfl⟩ := h.stored
  rw [Governance.execute_iff]
  refine and_congr_right fun _ => ?_
  constructor
  · rintro ⟨q, hq, hpending, hthreshold, hvalid⟩
    obtain rfl : q = p := Option.some.inj (hq.symm.trans hp)
    have hcount := (h.voters q hp hpending).2
    exact ⟨⟨q, hp, hpending⟩, by omega, hvalid⟩
  · rintro ⟨⟨q, hq, hpending⟩, hthreshold, hvalid⟩
    obtain rfl : q = p := Option.some.inj (hq.symm.trans hp)
    have hcount := (h.voters q hp hpending).2
    exact ⟨q, hp, hpending, by omega, hvalid⟩

/-- From a proposal in a reachable state on, over any run of calls of anybody, and with a threshold
    that fits into a `u32`:

    * `execute` goes through exactly when an admin calls it, no step of the run has executed the
      proposal, as many distinct admins as the threshold says have called `approve` in the run, in
      any order and with any repetitions, and the action is valid;
    * then roles, parameters and the pause flag change as the action says, and never again by this
      proposal. -/
theorem ballot_decides (tokens : TokenLedger) (past : List (Step me Entry)) {env₀ : Env me}
    {proposer : Address} {action : ProposalAction}
    (hproposed : (propose env₀ proposer action).Succeeds (reached tokens past)) {id : ℕ}
    (hid : (reached tokens past).store.propCnt.getD 0 + 1 = id) {w₁ : World Store}
    (hw₁ : step (.call env₀ (.propose proposer action)) (reached tokens past) = w₁)
    (later : List (Step me Entry)) {w₂ : World Store} (hw₂ : run step w₁ later = w₂)
    (hu32 : w₂.store.getThreshold < 2 ^ 32) (env : Env me) (executor : Address) :
    ((execute env executor id).Succeeds w₂ ↔
      Acts env w₂ executor ∧ (∀ x ∈ trace step w₁ later, ¬ Carries id x.1 x.2) ∧
        w₂.store.getThreshold ≤ (yields step (vote id) w₁ later).toFinset.card ∧ action.Valid) ∧
    ((execute env executor id).Succeeds w₂ →
      governed (step (.call env (.execute executor id)) w₂) = governed (action.effect w₂) ∧
        ∀ more : List (Step me Entry),
          ∀ x ∈ trace step (step (.call env (.execute executor id)) w₂) more,
          ¬ Carries id x.1 x.2) := by
  have hproposal := ballot_propose (book_reached tokens past) hproposed
  rw [hid, hw₁] at hproposal
  obtain ⟨hballot₁, hopen₁⟩ := hproposal
  have hballot₂ : Ballot action id (yields step (vote id) w₁ later) w₂ :=
    hw₂ ▸ ballot_run hballot₁ later
  constructor
  · rw [hballot₂.execute_iff hu32, ← hw₂, open_run_iff hballot₁.book hopen₁]
  · intro hok
    obtain ⟨p, hp, rfl⟩ := hballot₂.stored
    obtain ⟨heffect, hfinal⟩ := execute_effect hp hok
    refine ⟨heffect, fun more x hx hcarries => ?_⟩
    obtain ⟨pre, post, -, hstate⟩ := mem_trace_iff.mp hx
    obtain ⟨env', caller, -, hagain⟩ := hcarries
    obtain ⟨-, q, hq, hpending, -⟩ := Governance.execute_iff.mp hagain
    refine not_open_run (hballot₂.book.step _) hfinal rfl pre ⟨q, ?_, hpending⟩
    rw [← hstate]
    exact hq

/-- Both approvers vote, one of them twice, and `⟨3⟩` tries to. -/
def votedRun : List (Step ⟨0⟩ Entry) :=
  [.call (.signedBy ⟨0⟩ 3 3 [⟨2⟩]) (.approve ⟨2⟩ 1),
    .call (.signedBy ⟨0⟩ 4 4 [⟨3⟩]) (.approve ⟨3⟩ 1),
    .call (.signedBy ⟨0⟩ 5 5 [⟨2⟩]) (.approve ⟨2⟩ 1),
    .call (.signedBy ⟨0⟩ 6 6 [⟨1⟩]) (.approve ⟨1⟩ 1)]

/-- The pause that `⟨1⟩` has proposed can be executed. -/
theorem ballot_decides_voted :
    (execute (Env.signedBy ⟨0⟩ 7 7 [⟨1⟩]) ⟨1⟩ 1).Succeeds (run step
      (step (.call (Env.signedBy ⟨0⟩ 2 2 [⟨1⟩]) (.propose ⟨1⟩ .pause))
        (reached (.ofList []) twoOfTwo)) votedRun) := by
  have hproposed :
      (propose (Env.signedBy ⟨0⟩ 2 2 [⟨1⟩]) ⟨1⟩ .pause).Succeeds (reached (.ofList []) twoOfTwo) :=
    propose_succeeds ⟨by decide, rfl⟩ (by decide)
  refine ((ballot_decides (.ofList []) twoOfTwo hproposed rfl rfl votedRun rfl (by decide)
    (Env.signedBy ⟨0⟩ 7 7 [⟨1⟩]) ⟨1⟩).1).mpr ⟨⟨by decide, rfl⟩, ?_, by decide, trivial⟩
  rintro x hx ⟨env, caller, hcall, -⟩
  fin_cases hx <;> cases hcall

end Trellis.Governance
