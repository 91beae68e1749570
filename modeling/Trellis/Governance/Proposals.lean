import Trellis.Governance.Contract

/-!
# Proposals

The book of proposals and approvals along a run of the governance contract.

Results:
* `Book.step`: stored proposals have the ids `1, …, propCnt`, and each counts its approvers.
* `mem_approvers_reached`: the approvers of a proposal are the addresses whose `approve` succeeded.
* `Proposal.Later`: what a proposal can become; `evolves_step` shows that steps respect it.
* `execute_of_executed`, `effect_cases`: an action takes effect in the step that executes it, and in
  no other.
* `proposal_sound`: all of this in one statement about runs.
-/

namespace Trellis.Governance

variable {me : Address}

/-! ## The book of proposals -/

/-- The addresses that have approved the proposal. -/
def Store.approvers (s : Store) (id : ℕ) : Finset Address :=
  (s.approvals.filter fun x => x.1 = id).image Prod.snd

theorem mem_approvers {s : Store} {id : ℕ} {a : Address} :
    a ∈ s.approvers id ↔ (id, a) ∈ s.approvals := by
  simp [Store.approvers]

theorem approvers_congr {s s' : Store} (h : s'.approvals = s.approvals) (id : ℕ) :
    s'.approvers id = s.approvers id := by
  rw [Store.approvers, h, Store.approvers]

/-- The invariant of proposals and approvals. -/
structure Book (s : Store) : Prop where
  stored : ∀ id, (∃ p, s.proposals.lookup id = some p) ↔ 1 ≤ id ∧ id ≤ s.propCnt.getD 0
  counted : s.proposals.Forall fun id p => p.id = id ∧ p.approvalCount = (s.approvers id).card
  known : ∀ id a, (id, a) ∈ s.approvals → id ≤ s.propCnt.getD 0

theorem Book.empty : Book Store.empty where
  stored := fun id => by
    simp only [Store.empty, Option.getD_none]
    constructor
    · rintro ⟨p, hp⟩
      simp at hp
    · rintro ⟨h₁, h₂⟩
      omega
  counted := Table.Forall.empty _
  known := fun id a h => by simp [Store.empty] at h

theorem Book.congr {s s' : Store} (h : Book s) (hprop : s'.proposals = s.proposals)
    (happ : s'.approvals = s.approvals) (hcnt : s'.propCnt = s.propCnt) : Book s' where
  stored := fun id => by rw [hprop, hcnt]; exact h.stored id
  counted := by
    rw [hprop]
    intro id p hp
    rw [approvers_congr happ]
    exact h.counted id p hp
  known := fun id a ha => by rw [hcnt]; rw [happ] at ha; exact h.known id a ha

theorem Book.lookup_next {s : Store} (h : Book s) :
    s.proposals.lookup (s.propCnt.getD 0 + 1) = none := by
  cases hp : s.proposals.lookup (s.propCnt.getD 0 + 1) with
  | none => rfl
  | some p =>
    have hle := ((h.stored _).mp ⟨p, hp⟩).2
    omega

theorem Book.stored_rewrite {s : Store} (h : Book s) {id : ℕ} {p p' : Proposal}
    (hp : s.proposals.lookup id = some p) (i : ℕ) :
    (∃ q, (s.proposals.insert id p').lookup i = some q) ↔ 1 ≤ i ∧ i ≤ s.propCnt.getD 0 := by
  rw [← h.stored i, Table.lookup_set]
  by_cases hi : i = id
  · subst hi
    simp [hp]
  · rw [if_neg hi]

theorem Book.propose {s : Store} (h : Book s) {p : Proposal}
    (hid : p.id = s.propCnt.getD 0 + 1) (hcount : p.approvalCount = 0) :
    Book { s with
      propCnt := some p.id
      proposals := s.proposals.insert p.id p } where
  stored := by
    intro i
    have hold := h.stored i
    simp only [Option.getD_some, Table.lookup_set]
    by_cases hi : i = p.id
    · rw [if_pos hi]
      simp only [Option.some.injEq, exists_eq', true_iff]
      omega
    · rw [if_neg hi, hold]
      omega
  counted := by
    intro i q hq
    simp only [Table.lookup_set] at hq
    split_ifs at hq with hi
    · cases hq
      refine ⟨hi.symm, ?_⟩
      rw [hcount, eq_comm, Finset.card_eq_zero, Finset.eq_empty_iff_forall_notMem]
      intro a ha
      have hle := h.known i a (mem_approvers.mp ha)
      omega
    · exact h.counted i q hq
  known := by
    intro i a ha
    have hle := h.known i a ha
    simp only [Option.getD_some]
    omega

theorem Book.approve {s : Store} (h : Book s) {id : ℕ} {p : Proposal} {a : Address}
    (hp : s.proposals.lookup id = some p) (ha : (id, a) ∉ s.approvals) :
    Book { s with
      approvals := insert (id, a) s.approvals
      proposals := s.proposals.insert id { p with approvalCount := p.approvalCount + 1 } } where
  stored := h.stored_rewrite hp
  counted := by
    intro i q hq
    obtain ⟨hid, hcount⟩ := h.counted id p hp
    simp only [Table.lookup_set] at hq
    split_ifs at hq with hi
    · cases hq
      subst hi
      refine ⟨hid, ?_⟩
      have hinsert : Store.approvers { s with
          approvals := insert (i, a) s.approvals
          proposals := s.proposals.insert i { p with approvalCount := p.approvalCount + 1 } } i =
          insert a (s.approvers i) := by
        ext b
        simp [mem_approvers]
      have hnew : a ∉ s.approvers i := fun hmem => ha (mem_approvers.mp hmem)
      rw [hinsert, Finset.card_insert_of_notMem hnew, ← hcount]
    · obtain ⟨hid', hcount'⟩ := h.counted i q hq
      refine ⟨hid', ?_⟩
      rw [hcount']
      congr 1
      ext b
      simp [mem_approvers, hi]
  known := by
    intro i b hb
    rcases Finset.mem_insert.mp hb with heq | hb
    · obtain ⟨rfl, rfl⟩ := Prod.mk.inj heq
      exact ((h.stored i).mp ⟨p, hp⟩).2
    · exact h.known i b hb

theorem Book.execute {s : Store} (h : Book s) {id : ℕ} {p : Proposal}
    (hp : s.proposals.lookup id = some p) :
    Book { s with proposals := s.proposals.insert id { p with status := .executed } } where
  stored := h.stored_rewrite hp
  counted := by
    intro i q hq
    simp only [Table.lookup_set] at hq
    split_ifs at hq with hi
    · cases hq
      subst hi
      exact h.counted i p hp
    · exact h.counted i q hq
  known := h.known

theorem Book.step {w : World Store} (h : Book w.store) (s : Step me Entry) :
    Book (step s w).store := by
  refine step_induct (P := fun w : World Store => Book w.store) h (fun env x => ?_)
    (fun env c w' hdone => ?_) s
  · rw [store_outsideTransfer]
    exact h
  · cases hdone with
    | init => exact h.congr rfl rfl rfl
    | grantRole => exact h
    | revokeRole => exact h
    | setAdminSet => exact h.congr rfl rfl rfl
    | propose => exact h.propose (p := ⟨_, _, _, 0, .pending, env.timestamp⟩) rfl rfl
    | approve events p hcan => exact h.approve hcan.stored hcan.fresh
    | execute events p hrole hsigned hp =>
      have heffect : Book (p.action.effect w).store :=
        h.congr (effect_proposals w _) (effect_approvals w _) (effect_propCnt w _)
      exact heffect.execute (by rw [effect_proposals]; exact hp)
    | setParam => exact h.congr rfl rfl rfl

/-! ## The threshold -/

/-- A stored threshold is positive, and before one is stored there are no admins. -/
structure Started (w : World Store) : Prop where
  pos : ∀ m, w.store.threshold = some m → 1 ≤ m
  admins : w.store.threshold = none → ∀ a, (a, Role.admin) ∉ w.shared.roles

theorem Started.some_of_admin {w : World Store} (h : Started w) {a : Address}
    (ha : (a, Role.admin) ∈ w.shared.roles) : ∃ m, w.store.threshold = some m ∧ 1 ≤ m := by
  cases hm : w.store.threshold with
  | none => exact absurd ha (h.admins hm a)
  | some m => exact ⟨m, rfl, h.pos m hm⟩

theorem Started.step {w : World Store} (h : Started w) (s : Step me Entry) :
    Started (step s w) := by
  -- a call that an admin signed finds a stored threshold
  have hkeep : ∀ {w' : World Store} {a : Address}, (a, Role.admin) ∈ w.shared.roles →
      w'.store.threshold = w.store.threshold → Started w' := by
    intro w' a ha hm
    obtain ⟨m, hsome, hpos⟩ := h.some_of_admin ha
    refine ⟨fun n hn => h.pos n (hm ▸ hn), fun hnone => ?_⟩
    rw [hm, hsome] at hnone
    cases hnone
  refine step_induct (P := Started) h (fun env x => ?_) (fun env c w' hdone => ?_) s
  · refine ⟨fun m hm => h.pos m (by rwa [store_outsideTransfer] at hm), fun hnone => ?_⟩
    rw [store_outsideTransfer] at hnone
    rw [shared_outsideTransfer]
    exact h.admins hnone
  · cases hdone with
    | init events hpos =>
      refine ⟨fun m hm => ?_, fun hnone => by cases hnone⟩
      cases hm
      exact hpos
    | grantRole events hrole => exact hkeep hrole rfl
    | revokeRole events hrole => exact hkeep hrole rfl
    | setAdminSet hrole hsigned hpos =>
      refine ⟨fun m hm => ?_, fun hnone => by cases hnone⟩
      cases hm
      exact hpos
    | propose events hrole => exact hkeep hrole rfl
    | approve events p hcan => exact hkeep hcan.role rfl
    | execute events p hrole => exact hkeep hrole (effect_threshold w _)
    | setParam => exact ⟨h.pos, h.admins⟩

/-! ## Proposals evolve -/

/-- What a proposal can become: its approvals can grow while it is pending, and it can be executed;
    then it never changes again. -/
structure Proposal.Later (p p' : Proposal) : Prop where
  id : p'.id = p.id
  proposer : p'.proposer = p.proposer
  action : p'.action = p.action
  createdAt : p'.createdAt = p.createdAt
  count : p.approvalCount ≤ p'.approvalCount
  final : p.status = .executed → p' = p

theorem Proposal.Later.refl (p : Proposal) : p.Later p :=
  ⟨rfl, rfl, rfl, rfl, le_rfl, fun _ => rfl⟩

theorem Proposal.Later.trans (p p' p'' : Proposal) (h : p.Later p') (h' : p'.Later p'') :
    p.Later p'' where
  id := h'.id.trans h.id
  proposer := h'.proposer.trans h.proposer
  action := h'.action.trans h.action
  createdAt := h'.createdAt.trans h.createdAt
  count := h.count.trans h'.count
  final := fun hexec => by
    have hp := h.final hexec
    rw [← hp]
    exact h'.final (by rw [hp]; exact hexec)

theorem Proposal.later_of_pending {p p' : Proposal} (hpending : p.status = .pending)
    (hid : p'.id = p.id) (hproposer : p'.proposer = p.proposer) (haction : p'.action = p.action)
    (hcreated : p'.createdAt = p.createdAt) (hcount : p.approvalCount ≤ p'.approvalCount) :
    p.Later p' where
  id := hid
  proposer := hproposer
  action := haction
  createdAt := hcreated
  count := hcount
  final := fun hexec => by rw [hpending] at hexec; cases hexec

theorem evolves_step {w : World Store} (h : Book w.store) (s : Step me Entry) :
    Table.Evolves Proposal.Later w.store.proposals (step s w).store.proposals := by
  have hrefl := Table.Evolves.refl Proposal.Later.refl w.store.proposals
  refine step_induct
    (P := fun w' : World Store => Table.Evolves Proposal.Later w.store.proposals w'.store.proposals)
    hrefl (fun env x => ?_) (fun env c w' hdone => ?_) s
  · rw [store_outsideTransfer]
    exact hrefl
  · cases hdone with
    | init => exact hrefl
    | grantRole => exact hrefl
    | revokeRole => exact hrefl
    | setAdminSet => exact hrefl
    | propose => exact Table.Evolves.set_new Proposal.Later.refl h.lookup_next _
    | approve events p hcan =>
      exact Table.Evolves.set_old Proposal.Later.refl hcan.stored
        (Proposal.later_of_pending hcan.pending rfl rfl rfl rfl (Nat.le_succ _))
    | execute events p hrole hsigned hp hpending =>
      rw [effect_proposals]
      exact Table.Evolves.set_old Proposal.Later.refl hp
        (Proposal.later_of_pending hpending rfl rfl rfl rfl le_rfl)
    | setParam => exact hrefl

/-! ## When an action takes effect -/

/-- What the actions of proposals are about: roles, parameters and the pause flag. -/
def governed (w : World Store) : Finset (Address × Role) × Table ParameterKey ℤ × Option Bool :=
  (w.shared.roles, w.store.params, w.shared.paused)

/-- The step executes the pending proposal `p` in `w`: an admin calls `execute` when the approvals
    reach the stored threshold, which is positive, and exactly the effect of the action happens. -/
def Executes (s : Step me Entry) (w : World Store) (id : ℕ) (p : Proposal) : Prop :=
  (∃ env caller, s = .call env (.execute caller id) ∧
      (caller, Role.admin) ∈ w.shared.roles ∧ env.signed caller = true) ∧
    w.store.proposals.lookup id = some p ∧ p.status = .pending ∧
    (∃ m, w.store.threshold = some m ∧ 1 ≤ m ∧ m ≤ p.approvalCount) ∧
    (step s w).store.proposals.lookup id = some { p with status := .executed } ∧
    governed (step s w) = governed (p.action.effect w)

/-- The step is a direct call of an admin on roles or parameters, or `init`. -/
def Direct : Step me Entry → Prop
  | .call _ (.init _ _ _) => True
  | .call _ (.grantRole _ _ _) => True
  | .call _ (.revokeRole _ _ _) => True
  | .call _ (.setParam _ _ _) => True
  | _ => False

theorem executes_of_done {w w' : World Store} (h : Started w) {env : Env me} {caller : Address}
    {id : ℕ} (hs : step (.call env (.execute caller id)) w = w')
    (hdone : Done env w (.execute caller id) w') :
    ∃ p, Executes (.call env (.execute caller id)) w id p := by
  cases hdone with
  | execute events p hrole hsigned hp hpending hthreshold hvalid =>
    obtain ⟨m, hm, hpos⟩ := h.some_of_admin hrole
    have hle : m ≤ p.approvalCount := by simpa [Store.getThreshold, hm] using hthreshold
    refine ⟨p, ⟨env, caller, rfl, hrole, hsigned⟩, hp, hpending, ⟨m, hm, hpos, hle⟩, ?_, ?_⟩
    · rw [hs]
      exact Finmap.lookup_insert _
    · rw [hs]
      rfl

/-- A step that changes what actions are about is a direct call, or executes a proposal. -/
theorem governed_cases {w : World Store} (h : Started w) (s : Step me Entry) :
    governed (step s w) = governed w ∨ Direct s ∨ ∃ id p, Executes s w id p := by
  rcases step_cases s w with ⟨env, x, hs⟩ | hs | ⟨env, c, w', rfl, hs, hdone⟩
  · left
    rw [hs, governed, governed, shared_outsideTransfer, store_outsideTransfer]
  · exact .inl (by rw [hs])
  · cases c with
    | init => exact .inr (.inl trivial)
    | grantRole => exact .inr (.inl trivial)
    | revokeRole => exact .inr (.inl trivial)
    | setParam => exact .inr (.inl trivial)
    | setAdminSet => exact .inl (by rw [hs]; cases hdone; rfl)
    | propose => exact .inl (by rw [hs]; cases hdone; rfl)
    | approve => exact .inl (by rw [hs]; cases hdone; rfl)
    | execute caller id =>
      obtain ⟨p, hp⟩ := executes_of_done h hs hdone
      exact .inr (.inr ⟨id, p, hp⟩)

/-- A proposal that a step turns executed is executed by that step. -/
theorem executes_of_executed {w : World Store} (hbook : Book w.store) (h : Started w)
    {s : Step me Entry} {id : ℕ} {p p' : Proposal}
    (hp : w.store.proposals.lookup id = some p)
    (hp' : (step s w).store.proposals.lookup id = some p') (hpending : p.status = .pending)
    (hexec : p'.status = .executed) : Executes s w id p := by
  have hne : p' ≠ p := by
    rintro rfl
    rw [hpending] at hexec
    cases hexec
  have hsame : (step s w).store.proposals = w.store.proposals → Executes s w id p := by
    intro heq
    rw [heq, hp] at hp'
    exact absurd (Option.some.inj hp').symm hne
  rcases step_cases s w with ⟨env, x, hs⟩ | hs | ⟨env, c, w', rfl, hs, hdone⟩
  · exact hsame (by rw [hs, store_outsideTransfer])
  · exact hsame (by rw [hs])
  · rw [hs] at hp'
    cases c with
    | execute caller id₀ =>
      obtain ⟨q, hq⟩ := executes_of_done h hs hdone
      cases hdone with
      | execute events q' hrole hsigned hq' =>
        rw [effect_proposals] at hp'
        obtain ⟨rfl, -⟩ := Table.eq_of_lookup_set_ne hp hp' hne
        obtain rfl : q = p := Option.some.inj (hq.2.1.symm.trans hp)
        exact hq
    | approve caller id₀ =>
      cases hdone with
      | approve events q hcan =>
        obtain ⟨rfl, rfl⟩ := Table.eq_of_lookup_set_ne hp hp' hne
        obtain rfl : q = p := Option.some.inj (hcan.stored.symm.trans hp)
        rw [hpending] at hexec
        cases hexec
    | propose caller action =>
      cases hdone with
      | propose =>
        obtain ⟨rfl, -⟩ := Table.eq_of_lookup_set_ne hp hp' hne
        rw [hbook.lookup_next] at hp
        cases hp
    | init => exact hsame (by rw [hs]; cases hdone; rfl)
    | grantRole => exact hsame (by rw [hs]; cases hdone; rfl)
    | revokeRole => exact hsame (by rw [hs]; cases hdone; rfl)
    | setAdminSet => exact hsame (by rw [hs]; cases hdone; rfl)
    | setParam => exact hsame (by rw [hs]; cases hdone; rfl)

/-! ## Ids and approvers -/

theorem propose_of_new {w : World Store} {s : Step me Entry} {id : ℕ} {p : Proposal}
    (hold : w.store.proposals.lookup id = none)
    (hnew : (step s w).store.proposals.lookup id = some p) :
    (∃ env caller action, s = .call env (.propose caller action)) ∧
      id = w.store.propCnt.getD 0 + 1 ∧ p.id = id ∧ p.status = .pending ∧
      (step s w).store.propCnt = some id := by
  have hsame : (step s w).store.proposals ≠ w.store.proposals := by
    intro heq
    rw [heq, hold] at hnew
    cases hnew
  rcases step_cases s w with ⟨env, x, hs⟩ | hs | ⟨env, c, w', rfl, hs, hdone⟩
  · exact absurd (by rw [hs, store_outsideTransfer]) hsame
  · exact absurd (by rw [hs]) hsame
  · rw [hs] at hnew hsame
    rw [hs]
    cases hdone with
    | propose =>
      obtain ⟨rfl, rfl⟩ := Table.eq_of_lookup_set_new hold hnew
      exact ⟨⟨_, _, _, rfl⟩, rfl, rfl, rfl, rfl⟩
    | approve events q hcan =>
      obtain ⟨rfl, -⟩ := Table.eq_of_lookup_set_new hold hnew
      cases hold.symm.trans hcan.stored
    | execute events q hrole hsigned hq =>
      rw [effect_proposals] at hnew
      obtain ⟨rfl, -⟩ := Table.eq_of_lookup_set_new hold hnew
      rw [hold] at hq
      cases hq
    | init => exact absurd rfl hsame
    | grantRole => exact absurd rfl hsame
    | revokeRole => exact absurd rfl hsame
    | setAdminSet => exact absurd rfl hsame
    | setParam => exact absurd rfl hsame

/-- The step is a call of `approve` for the proposal by the address, and it succeeds. -/
def Approves (id : ℕ) (a : Address) (w : World Store) (s : Step me Entry) : Prop :=
  ∃ env, s = .call env (.approve a id) ∧ (approve env a id).Succeeds w

/-- An approval entry is there after a step exactly when it was there before, or the step is the
    approval. -/
theorem mem_approvals_step {id : ℕ} {a : Address} (w : World Store) (s : Step me Entry) :
    (id, a) ∈ (step s w).store.approvals ↔
      (id, a) ∈ w.store.approvals ∨ Approves id a w s := by
  constructor
  · intro hmem
    rcases step_cases s w with ⟨env, x, hs⟩ | hs | ⟨env, c, w', rfl, hs, hdone⟩
    · rw [hs, store_outsideTransfer] at hmem
      exact .inl hmem
    · rw [hs] at hmem
      exact .inl hmem
    · rw [hs] at hmem
      cases hdone with
      | approve events p hcan =>
        rcases Finset.mem_insert.mp hmem with heq | hmem
        · obtain ⟨rfl, rfl⟩ := Prod.mk.inj heq
          exact .inr ⟨env, rfl, approve_succeeds.mpr ⟨p, hcan⟩⟩
        · exact .inl hmem
      | execute =>
        rw [effect_approvals] at hmem
        exact .inl hmem
      | init => exact .inl hmem
      | grantRole => exact .inl hmem
      | revokeRole => exact .inl hmem
      | setAdminSet => exact .inl hmem
      | propose => exact .inl hmem
      | setParam => exact .inl hmem
  · rintro (hmem | ⟨env, rfl, u, w', hok⟩)
    · refine step_induct (P := fun w : World Store => (id, a) ∈ w.store.approvals) hmem
        (fun env x => by rwa [store_outsideTransfer]) (fun env c w' hdone => ?_) s
      cases hdone with
      | approve => exact Finset.mem_insert_of_mem hmem
      | execute => exact (effect_approvals w _).symm ▸ hmem
      | init => exact hmem
      | grantRole => exact hmem
      | revokeRole => exact hmem
      | setAdminSet => exact hmem
      | propose => exact hmem
      | setParam => exact hmem
    · have hstep : step (.call env (.approve a id)) w = w' := Exec.commit_of_ok hok
      rw [hstep]
      cases approve_done hok with
      | approve => exact Finset.mem_insert_self _ _

/-! ## Runs from deployment -/

/-- The state after a run from deployment, on a chain with these token balances. -/
def reached (tokens : TokenLedger) (steps : List (Step me Entry)) : World Store :=
  run step (World.deployed Store.empty tokens) steps

/-- The steps of the run from deployment, each with the state it is taken in. -/
def history (tokens : TokenLedger) (steps : List (Step me Entry)) :
    List (World Store × Step me Entry) :=
  trace step (World.deployed Store.empty tokens) steps

theorem book_reached (tokens : TokenLedger) (steps : List (Step me Entry)) :
    Book (reached tokens steps).store :=
  run_induct (P := fun w : World Store => Book w.store) (fun _ s h => h.step s) Book.empty steps

theorem started_deployed (tokens : TokenLedger) :
    Started (World.deployed Store.empty tokens) where
  pos := fun m hm => by cases hm
  admins := fun _ a ha => by simp [World.deployed, SharedStore.empty] at ha

theorem started_reached (tokens : TokenLedger) (steps : List (Step me Entry)) :
    Started (reached tokens steps) :=
  run_induct (fun _ s h => h.step s) (started_deployed tokens) steps

/-- The approvers of a proposal are the addresses whose `approve` succeeded in the run. -/
theorem mem_approvers_reached (tokens : TokenLedger) (steps : List (Step me Entry)) (id : ℕ)
    (a : Address) :
    a ∈ (reached tokens steps).store.approvers id ↔
      ∃ x ∈ history tokens steps, Approves id a x.1 x.2 := by
  rw [mem_approvers, reached, history,
    run_iff_history (P := fun w : World Store => (id, a) ∈ w.store.approvals) mem_approvals_step]
  simp [World.deployed, Store.empty]

theorem evolves_run (tokens : TokenLedger) (steps more : List (Step me Entry)) :
    Table.Evolves Proposal.Later (reached tokens steps).store.proposals
      (reached tokens (steps ++ more)).store.proposals := by
  rw [reached, reached, run_append]
  exact Table.Evolves.run (P := fun w : World Store => Book w.store) (fun w => w.store.proposals)
    Proposal.Later.refl Proposal.Later.trans (fun _ s h => h.step s) (fun _ s h => evolves_step h s)
    (book_reached tokens steps) more

/-- Soundness of proposals, in every reachable state and for every next step:
    a proposal counts the distinct addresses whose `approve` succeeded, each an admin at that time;
    its id, proposer and action never change, and once executed nothing does;
    it turns executed only in a call of `execute` that finds at least as many approvals as the
    stored threshold, itself at least 1, and applies the action;
    roles, parameters and the pause flag change only there and in direct calls;
    and the stored ids are `1, …, propCnt`, each given out once, by `propose`. -/
theorem proposal_sound (tokens : TokenLedger) (steps : List (Step me Entry)) :
    (∀ id p, (reached tokens steps).store.proposals.lookup id = some p →
      p.id = id ∧
      (∃ approvers : Finset Address, p.approvalCount = approvers.card ∧
        ∀ a, a ∈ approvers ↔ ∃ x ∈ history tokens steps, Approves id a x.1 x.2) ∧
      (∀ more, ∃ p', (reached tokens (steps ++ more)).store.proposals.lookup id = some p' ∧
        p.Later p') ∧
      (∀ (s : Step me Entry) p',
        (step s (reached tokens steps)).store.proposals.lookup id = some p' →
        p.status = .pending → p'.status = .executed → Executes s (reached tokens steps) id p)) ∧
    (∀ x ∈ history tokens steps, ∀ id a, Approves id a x.1 x.2 →
      (a, Role.admin) ∈ x.1.shared.roles) ∧
    (∀ s : Step me Entry,
      governed (step s (reached tokens steps)) = governed (reached tokens steps) ∨
        Direct s ∨ ∃ id p, Executes s (reached tokens steps) id p) ∧
    (∀ id, (∃ p, (reached tokens steps).store.proposals.lookup id = some p) ↔
      1 ≤ id ∧ id ≤ (reached tokens steps).store.propCnt.getD 0) ∧
    (∀ (s : Step me Entry) id p, (reached tokens steps).store.proposals.lookup id = none →
      (step s (reached tokens steps)).store.proposals.lookup id = some p →
      (∃ env caller action, s = .call env (.propose caller action)) ∧
        id = (reached tokens steps).store.propCnt.getD 0 + 1 ∧ p.id = id ∧ p.status = .pending ∧
        (step s (reached tokens steps)).store.propCnt = some id) ∧
    (∀ (env : Env me) caller action id w',
      propose env caller action (reached tokens steps) = .ok id w' →
      id = (reached tokens steps).store.propCnt.getD 0 + 1 ∧
        (reached tokens steps).store.proposals.lookup id = none) := by
  have hbook := book_reached tokens steps
  have hstarted := started_reached tokens steps
  refine ⟨fun id p hp => ⟨?_, ?_, fun more => evolves_run tokens steps more id p hp,
    fun s p' hp' hpending hexec => executes_of_executed hbook hstarted hp hp' hpending hexec⟩,
    ?_, governed_cases hstarted, hbook.stored, fun s id p => propose_of_new, ?_⟩
  · exact (hbook.counted id p hp).1
  · refine ⟨(reached tokens steps).store.approvers id, (hbook.counted id p hp).2, fun a => ?_⟩
    exact mem_approvers_reached tokens steps id a
  · rintro x hx id a ⟨env, -, hok⟩
    obtain ⟨p, hcan⟩ := approve_succeeds.mp hok
    exact hcan.role
  · intro env caller action id w' hok
    obtain ⟨rfl, -⟩ := propose_done hok
    exact ⟨rfl, hbook.lookup_next⟩

end Trellis.Governance
