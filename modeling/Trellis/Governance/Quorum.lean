import Trellis.Governance.Proposals

/-!
# Who decides

Who can bring about the effect of a proposal, and who can approve one.

`set_admin_set` lets one admin replace the threshold. Short of that, a coalition smaller than the
threshold can do nothing about the pause flag: it can propose, approve and hand out roles as it
likes, but a proposal made in its name gathers approvals from its own members only.

Approval rights follow the holders of `Role.admin`, while `get_admin_set` reads a list of its own;
`Aligned` says that the two agree as long as a proposal is pending.

Results:
* `paused_unchanged`: the coalition result, for attacks that keep the threshold above its size.
* `paused_by_one`: a single admin lowers the threshold to 1 and pauses.
* `approvals_follow_admin_set`: while no step separates the two, exactly the members can approve.
-/

namespace Trellis.Governance

variable {me : Address}

/-! ## Coalitions -/

/-- The step is signed by members of the coalition only, and is not `init`. A transfer made by
    others is no call of the contract. -/
def CoalitionStep (S : Finset Address) : Step me Entry → Prop
  | .call _ (.init _ _ _) => False
  | .call env _ => ∀ a, env.signed a = true → a ∈ S
  | .outside _ _ => True

/-- A successful `set_admin_set` leaves the threshold above the size of the coalition. -/
def KeepsThreshold (S : Finset Address) (w : World Store) (s : Step me Entry) : Prop :=
  ∀ env caller newSet m, s = .call env (.setAdminSet caller newSet m) →
    (setAdminSet env caller newSet m).Succeeds w → S.card < m

/-- What a coalition cannot leave: the threshold is above its size, and pending proposals have been
    approved by its members only. -/
structure Contained (S : Finset Address) (w : World Store) : Prop where
  book : Book w.store
  threshold : S.card < w.store.getThreshold
  approvals : ∀ id p, w.store.proposals.lookup id = some p → p.status = .pending →
    w.store.approvers id ⊆ S

theorem Contained.count_lt {S : Finset Address} {w : World Store} (h : Contained S w) {id : ℕ}
    {p : Proposal} (hp : w.store.proposals.lookup id = some p) (hpending : p.status = .pending) :
    p.approvalCount < w.store.getThreshold := by
  have hcard := Finset.card_le_card (h.approvals id p hp hpending)
  have hcount := (h.book.counted id p hp).2
  have hthreshold := h.threshold
  omega

theorem Contained.step {S : Finset Address} {w : World Store} (h : Contained S w)
    {s : Step me Entry} (hs : CoalitionStep S s) (hkeep : KeepsThreshold S w s) :
    Contained S (step s w) ∧ (step s w).shared.paused = w.shared.paused := by
  have hbook := h.book.step s
  rcases step_cases s w with ⟨env, x, hx⟩ | hx | ⟨env, c, w', rfl, hx, hdone⟩
  · rw [hx] at hbook ⊢
    rw [shared_outsideTransfer]
    refine ⟨⟨hbook, ?_, ?_⟩, rfl⟩
    · rw [store_outsideTransfer]
      exact h.threshold
    · rw [store_outsideTransfer]
      exact h.approvals
  · rw [hx]
    exact ⟨h, rfl⟩
  · rw [hx] at hbook ⊢
    cases hdone with
    | init => exact absurd hs id
    | grantRole => exact ⟨⟨hbook, h.threshold, h.approvals⟩, rfl⟩
    | revokeRole => exact ⟨⟨hbook, h.threshold, h.approvals⟩, rfl⟩
    | @setAdminSet caller newSet m hrole hsigned hpos hlen =>
      refine ⟨⟨hbook, ?_, h.approvals⟩, rfl⟩
      exact hkeep env caller newSet m rfl (setAdminSet_succeeds ⟨hrole, hsigned⟩ hpos hlen)
    | propose =>
      refine ⟨⟨hbook, h.threshold, fun id p hp hpending => ?_⟩, rfl⟩
      rw [approvers_congr rfl]
      simp only [Table.lookup_set] at hp
      split_ifs at hp with hid
      · -- nobody has approved a proposal that did not exist
        intro a ha
        have hle := h.book.known id a (mem_approvers.mp ha)
        omega
      · exact h.approvals id p hp hpending
    | @approve caller id₀ events q hcan =>
      refine ⟨⟨hbook, h.threshold, fun id p hp hpending a ha => ?_⟩, rfl⟩
      rcases Finset.mem_insert.mp (mem_approvers.mp ha) with heq | hmem
      · obtain ⟨-, rfl⟩ := Prod.mk.inj heq
        exact hs a hcan.signed
      · have hold : ∃ p₀, w.store.proposals.lookup id = some p₀ ∧ p₀.status = .pending := by
          simp only [Table.lookup_set] at hp
          split_ifs at hp with hid
          · exact ⟨q, hid ▸ hcan.stored, hcan.pending⟩
          · exact ⟨p, hp, hpending⟩
        obtain ⟨p₀, hp₀, hpending₀⟩ := hold
        exact h.approvals id p₀ hp₀ hpending₀ (mem_approvers.mpr hmem)
    | execute events p hrole hsigned hp hpending hthreshold =>
      have hlt := h.count_lt hp hpending
      omega
    | setParam => exact ⟨⟨hbook, h.threshold, h.approvals⟩, rfl⟩

/-- From a reachable state without pending proposals, no attack signed by fewer addresses than the
    threshold changes the pause flag, as long as it keeps the threshold above their number. -/
theorem paused_unchanged (tokens : TokenLedger) (past attack : List (Step me Entry))
    (S : Finset Address) (hS : S.card < (reached tokens past).store.getThreshold)
    (hno : ∀ id p, (reached tokens past).store.proposals.lookup id = some p → p.status ≠ .pending)
    (hattack : ∀ s ∈ attack, CoalitionStep S s)
    (hkeep : ∀ x ∈ trace step (reached tokens past) attack, KeepsThreshold S x.1 x.2) :
    (reached tokens (past ++ attack)).shared.paused = (reached tokens past).shared.paused := by
  have hstart : Contained S (reached tokens past) :=
    ⟨book_reached tokens past, hS, fun id p hp hpending => absurd hpending (hno id p hp)⟩
  have hreach : reached tokens (past ++ attack) = run step (reached tokens past) attack :=
    run_append _ past attack
  rw [hreach]
  have hsteps : ∀ x ∈ trace step (reached tokens past) attack,
      CoalitionStep S x.2 ∧ KeepsThreshold S x.1 x.2 :=
    fun x hx => ⟨hattack x.2 (mem_of_mem_trace hx), hkeep x hx⟩
  have hrun := run_induct_of_trace
    (P := fun w => Contained S w ∧ w.shared.paused = (reached tokens past).shared.paused)
    (Q := fun w s => CoalitionStep S s ∧ KeepsThreshold S w s)
    (fun w s hw hq => by
      obtain ⟨hcont, hpaused⟩ := hw.1.step hq.1 hq.2
      exact ⟨hcont, hpaused.trans hw.2⟩)
    ⟨hstart, rfl⟩ hsteps
  exact hrun.2

/-- A contract `⟨0⟩` with the approvers `⟨1⟩` and `⟨2⟩`, both needed. -/
def twoOfTwo : List (Step ⟨0⟩ Entry) := [.call (.signedBy ⟨0⟩ 1 1 []) (.init ⟨1⟩ 2 [⟨1⟩, ⟨2⟩])]

theorem twoOfTwo_not_pending (id : ℕ) (p : Proposal)
    (hp : (reached (.ofList []) twoOfTwo).store.proposals.lookup id = some p) :
    p.status ≠ .pending := by
  have hnone : (reached (.ofList []) twoOfTwo).store.proposals.lookup id = none := rfl
  rw [hnone] at hp
  cases hp

/-- One of the two proposes to pause, approves and tries to execute. -/
theorem paused_unchanged_by_one :
    (reached (.ofList []) (twoOfTwo ++
        [.call (.signedBy ⟨0⟩ 2 2 [⟨1⟩]) (.propose ⟨1⟩ .pause),
          .call (.signedBy ⟨0⟩ 3 3 [⟨1⟩]) (.approve ⟨1⟩ 1),
          .call (.signedBy ⟨0⟩ 4 4 [⟨1⟩]) (.execute ⟨1⟩ 1)])).shared.paused =
      (reached (.ofList []) twoOfTwo).shared.paused := by
  refine paused_unchanged (.ofList []) twoOfTwo _ {⟨1⟩} (by decide) twoOfTwo_not_pending ?_ ?_
  · intro s hs
    fin_cases hs <;> simp [CoalitionStep, Env.signedBy]
  · intro x hx env caller newSet m heq
    have hmem := mem_of_mem_trace hx
    rw [heq] at hmem
    simp at hmem

/-- `⟨1⟩` replaces the admin set and the threshold, and then decides alone. -/
def loneAttack : List (Step ⟨0⟩ Entry) :=
  [.call (.signedBy ⟨0⟩ 2 2 [⟨1⟩]) (.setAdminSet ⟨1⟩ [⟨1⟩] 1),
    .call (.signedBy ⟨0⟩ 3 3 [⟨1⟩]) (.propose ⟨1⟩ .pause),
    .call (.signedBy ⟨0⟩ 4 4 [⟨1⟩]) (.approve ⟨1⟩ 1),
    .call (.signedBy ⟨0⟩ 5 5 [⟨1⟩]) (.execute ⟨1⟩ 1)]

/-- A coalition of one changes the flag of a contract with threshold 2 and no pending proposal. -/
theorem paused_by_one :
    ({⟨1⟩} : Finset Address).card < (reached (.ofList []) twoOfTwo).store.getThreshold ∧
      2 ≤ (reached (.ofList []) twoOfTwo).store.getThreshold ∧
      (∀ id p, (reached (.ofList []) twoOfTwo).store.proposals.lookup id = some p →
        p.status ≠ .pending) ∧
      (∀ s ∈ loneAttack, CoalitionStep {⟨1⟩} s) ∧
      (reached (.ofList []) twoOfTwo).shared.paused.getD false = false ∧
      (reached (.ofList []) (twoOfTwo ++ loneAttack)).shared.paused.getD false = true := by
  refine ⟨by decide, by decide, twoOfTwo_not_pending, fun s hs => ?_, by decide, by decide⟩
  fin_cases hs <;> simp [CoalitionStep, Env.signedBy]

/-! ## The admin set -/

/-- Exactly the members of the admin set can approve a pending proposal that they have not yet
    approved. -/
def ApprovalsFollowAdminSet (me : Address) (w : World Store) : Prop :=
  ∀ (id : ℕ) (p : Proposal) (a : Address) (env : Env me),
    w.store.proposals.lookup id = some p → p.status = .pending → (id, a) ∉ w.store.approvals →
    env.signed a = true → ((approve env a id).Succeeds w ↔ a ∈ w.store.getAdminSet)

/-- Some proposal other than those in `except` is pending. -/
def PendingBut (except : Finset ℕ) (w : World Store) : Prop :=
  ∃ id p, id ∉ except ∧ w.store.proposals.lookup id = some p ∧ p.status = .pending

/-- The step is not `init`. A proposal is made while the admin set is the set of the holders of
    `Role.admin`; and as long as one is pending, the role is granted to members of the set only and
    revoked from others only, and the set is replaced by the holders only. -/
def KeepsAligned (w : World Store) : Step me Entry → Prop
  | .call _ (.init _ _ _) => False
  | .call _ (.propose _ _) => ∀ a, a ∈ w.store.getAdminSet ↔ (a, Role.admin) ∈ w.shared.roles
  | .call _ (.grantRole _ user .admin) => PendingBut ∅ w → user ∈ w.store.getAdminSet
  | .call _ (.revokeRole _ user .admin) => PendingBut ∅ w → user ∉ w.store.getAdminSet
  | .call _ (.setAdminSet _ newSet _) =>
    PendingBut ∅ w → ∀ a, a ∈ newSet ↔ (a, Role.admin) ∈ w.shared.roles
  | .call _ (.execute _ id) => PendingBut {id} w → ∀ p, w.store.proposals.lookup id = some p →
    (∀ user, p.action = .grantRole user .admin → user ∈ w.store.getAdminSet) ∧
      (∀ user, p.action = .revokeRole user .admin → user ∉ w.store.getAdminSet)
  | _ => True

/-- The admin sets that the step passes are vectors: their length is a `u32`. -/
def PassesVec : Step me Entry → Prop
  | .call _ (.setAdminSet _ newSet _) => newSet.length < 2 ^ 32
  | _ => True

/-- As long as a proposal is pending, the members of the admin set are the holders of `Role.admin`,
    and only they have approved it. -/
structure Aligned (w : World Store) : Prop where
  book : Book w.store
  length : w.store.getAdminSet.length < 2 ^ 32
  holders : PendingBut ∅ w → ∀ a, a ∈ w.store.getAdminSet ↔ (a, Role.admin) ∈ w.shared.roles
  approvals : ∀ id p, w.store.proposals.lookup id = some p → p.status = .pending →
    ∀ a, (id, a) ∈ w.store.approvals → a ∈ w.store.getAdminSet

theorem pendingBut_of_pending {w : World Store} {id : ℕ} {p : Proposal}
    (hp : w.store.proposals.lookup id = some p) (hpending : p.status = .pending) : PendingBut ∅ w :=
  ⟨id, p, Finset.notMem_empty id, hp, hpending⟩

/-- A grant of a role to a member, or of another role, keeps the holders. -/
theorem holders_grant {members : List Address} {roles : Finset (Address × Role)}
    (h : ∀ a, a ∈ members ↔ (a, Role.admin) ∈ roles) {user : Address} {role : Role}
    (huser : role = .admin → user ∈ members) (a : Address) :
    a ∈ members ↔ (a, Role.admin) ∈ insert (user, role) roles := by
  rw [Finset.mem_insert, h]
  constructor
  · exact .inr
  · rintro (heq | ha)
    · obtain ⟨rfl, rfl⟩ := Prod.mk.inj heq
      exact (h a).mp (huser rfl)
    · exact ha

/-- A revocation of a role from an address outside, or of another role, keeps the holders. -/
theorem holders_revoke {members : List Address} {roles : Finset (Address × Role)}
    (h : ∀ a, a ∈ members ↔ (a, Role.admin) ∈ roles) {user : Address} {role : Role}
    (huser : role = .admin → user ∉ members) (a : Address) :
    a ∈ members ↔ (a, Role.admin) ∈ roles.erase (user, role) := by
  rw [Finset.mem_erase, h]
  constructor
  · refine fun ha => ⟨fun heq => ?_, ha⟩
    obtain ⟨rfl, rfl⟩ := Prod.mk.inj heq
    exact huser rfl ((h a).mpr ha)
  · exact fun ha => ha.2

/-- The action of a proposal keeps the holders when it grants and revokes the role so. -/
theorem holders_effect {w : World Store} {action : ProposalAction}
    (h : ∀ a, a ∈ w.store.getAdminSet ↔ (a, Role.admin) ∈ w.shared.roles)
    (hgrant : ∀ user, action = .grantRole user .admin → user ∈ w.store.getAdminSet)
    (hrevoke : ∀ user, action = .revokeRole user .admin → user ∉ w.store.getAdminSet)
    (a : Address) : a ∈ w.store.getAdminSet ↔ (a, Role.admin) ∈ (action.effect w).shared.roles := by
  cases action with
  | grantRole user role => exact holders_grant h (fun hr => hgrant user (hr ▸ rfl)) a
  | revokeRole user role => exact holders_revoke h (fun hr => hrevoke user (hr ▸ rfl)) a
  | setParameter => exact h a
  | pause => exact h a
  | unpause => exact h a

theorem getAdminSet_effect (w : World Store) (action : ProposalAction) :
    (action.effect w).store.getAdminSet = w.store.getAdminSet := by
  rw [Store.getAdminSet, effect_adminSet, Store.getAdminSet]

/-- What is pending after an execution was pending before, and is another proposal. -/
theorem pending_of_executed {w : World Store} {id₀ id : ℕ} {q p : Proposal}
    (hp : ((q.action.effect w).store.proposals.insert id₀
      { q with status := .executed }).lookup id = some p) (hpending : p.status = .pending) :
    id ≠ id₀ ∧ w.store.proposals.lookup id = some p := by
  rw [effect_proposals, Table.lookup_set] at hp
  split_ifs at hp with hid
  · obtain rfl := Option.some.inj hp
    cases hpending
  · exact ⟨hid, hp⟩

theorem Aligned.step {w : World Store} (h : Aligned w) {s : Step me Entry} (hvec : PassesVec s)
    (hs : step s w = w ∨ KeepsAligned w s) : Aligned (step s w) := by
  rcases hs with hsame | hs
  · rwa [hsame]
  have hbook := h.book.step s
  rcases step_cases s w with ⟨env, x, hx⟩ | hx | ⟨env, c, w', rfl, hx, hdone⟩
  · rw [hx] at hbook ⊢
    have hstore := store_outsideTransfer env x w
    have hshared := shared_outsideTransfer env x w
    refine ⟨hbook, ?_, ?_, ?_⟩
    · rw [hstore]
      exact h.length
    · unfold PendingBut
      rw [hstore, hshared]
      exact h.holders
    · rw [hstore]
      exact h.approvals
  · rwa [hx]
  · rw [hx] at hbook ⊢
    cases hdone with
    | init => exact absurd hs id
    | @grantRole caller user role =>
      refine ⟨hbook, h.length, fun hpending => holders_grant (h.holders hpending) ?_, h.approvals⟩
      rintro rfl
      exact hs hpending
    | @revokeRole caller user role =>
      refine ⟨hbook, h.length, fun hpending => holders_revoke (h.holders hpending) ?_, h.approvals⟩
      rintro rfl
      exact hs hpending
    | setAdminSet =>
      refine ⟨hbook, hvec, hs, fun id p hp hpending a ha => ?_⟩
      have hsome := pendingBut_of_pending hp hpending
      exact (hs hsome a).mpr ((h.holders hsome a).mp (h.approvals id p hp hpending a ha))
    | propose =>
      refine ⟨hbook, h.length, fun _ => hs, fun id p hp hpending a ha => ?_⟩
      simp only [Table.lookup_set] at hp
      split_ifs at hp with hid
      · -- nobody has approved a proposal that did not exist
        have hle := h.book.known id a ha
        omega
      · exact h.approvals id p hp hpending a ha
    | @approve caller id₀ events q hcan =>
      have hmembers := h.holders (pendingBut_of_pending hcan.stored hcan.pending)
      refine ⟨hbook, h.length, fun _ => hmembers, fun id p hp hpending a ha => ?_⟩
      rcases Finset.mem_insert.mp ha with heq | hmem
      · obtain ⟨-, rfl⟩ := Prod.mk.inj heq
        exact (hmembers a).mpr hcan.role
      · simp only [Table.lookup_set] at hp
        split_ifs at hp with hid
        · subst hid
          exact h.approvals id q hcan.stored hcan.pending a hmem
        · exact h.approvals id p hp hpending a hmem
    | @execute caller id₀ events q hrole hsigned hq =>
      have hset := getAdminSet_effect w q.action
      refine ⟨hbook, ?_, ?_, fun id p hp hpending a ha => ?_⟩
      · show (q.action.effect w).store.getAdminSet.length < 2 ^ 32
        rw [hset]
        exact h.length
      · rintro ⟨id, p, -, hp, hpending⟩ a
        obtain ⟨hne, hold⟩ := pending_of_executed hp hpending
        obtain ⟨hgrant, hrevoke⟩ := hs ⟨id, p, by simpa using hne, hold, hpending⟩ q hq
        have hmembers := h.holders (pendingBut_of_pending hold hpending)
        show a ∈ (q.action.effect w).store.getAdminSet ↔ _
        rw [hset]
        exact holders_effect hmembers hgrant hrevoke a
      · show a ∈ (q.action.effect w).store.getAdminSet
        rw [hset]
        have happroved : (id, a) ∈ (q.action.effect w).store.approvals := ha
        rw [effect_approvals] at happroved
        exact h.approvals id p (pending_of_executed hp hpending).2 hpending a happroved
    | setParam => exact ⟨hbook, h.length, h.holders, h.approvals⟩

/-- In an aligned state exactly the members can approve. The list of members is shorter than
    `2 ^ 32`, so there is room to count one more. -/
theorem Aligned.follow {w : World Store} (h : Aligned w) : ApprovalsFollowAdminSet me w := by
  intro id p a env hp hpending hnew hsigned
  have hmembers := h.holders (pendingBut_of_pending hp hpending)
  rw [approve_succeeds, hmembers]
  constructor
  · rintro ⟨q, hcan⟩
    exact hcan.role
  · intro ha
    refine ⟨p, ha, hsigned, hp, hpending, hnew, ?_⟩
    have hsub : insert a (w.store.approvers id) ⊆ w.store.getAdminSet.toFinset := by
      intro b hb
      rw [List.mem_toFinset]
      rcases Finset.mem_insert.mp hb with rfl | hb
      · exact (hmembers b).mpr ha
      · exact h.approvals id p hp hpending b (mem_approvers.mp hb)
    have hcard := Finset.card_le_card hsub
    rw [Finset.card_insert_of_notMem fun hmem => hnew (mem_approvers.mp hmem)] at hcard
    have hle := List.toFinset_card_le w.store.getAdminSet
    have hcount := (h.book.counted id p hp).2
    have hlength := h.length
    omega

/-- The state of a fresh contract after `init`. -/
def initialized (env : Env me) (tokens : TokenLedger) (admin : Address) (threshold : ℕ)
    (adminSet : List Address) : World Store :=
  step (.call env (.init admin threshold adminSet)) (World.deployed Store.empty tokens)

theorem aligned_initialized {env : Env me} {tokens : TokenLedger} {admin : Address}
    {threshold : ℕ} {adminSet : List Address} (hlen : adminSet.length < 2 ^ 32)
    (hinit : (init env admin threshold adminSet).Succeeds (World.deployed Store.empty tokens)) :
    Aligned (initialized env tokens admin threshold adminSet) := by
  have hbook : Book (initialized env tokens admin threshold adminSet).store :=
    Book.step Book.empty _
  obtain ⟨u, w', hok⟩ := hinit
  have hw' : initialized env tokens admin threshold adminSet = w' := Exec.commit_of_ok hok
  rw [hw'] at hbook ⊢
  cases init_done hok with
  | init =>
    refine ⟨hbook, hlen, fun _ a => ?_, fun id p hp => ?_⟩
    · rw [mem_grantAdmins]
      simp [World.deployed, SharedStore.empty, Store.getAdminSet]
    · simp [World.deployed, Store.empty] at hp

/-- In every state of a run that starts with `init`, and in which every step that changes the state
    keeps the admin set and the holders of the role aligned while a proposal is pending, exactly the
    members of the admin set can approve. -/
theorem approvals_follow_admin_set (env : Env me) (tokens : TokenLedger) (admin : Address)
    (threshold : ℕ) (adminSet : List Address) (hlen : adminSet.length < 2 ^ 32)
    (hinit : (init env admin threshold adminSet).Succeeds (World.deployed Store.empty tokens))
    (steps : List (Step me Entry)) (hvec : ∀ s ∈ steps, PassesVec s)
    (hsteps : ∀ x ∈ trace step (initialized env tokens admin threshold adminSet) steps,
      step x.2 x.1 = x.1 ∨ KeepsAligned x.1 x.2) :
    ApprovalsFollowAdminSet me
      (run step (initialized env tokens admin threshold adminSet) steps) :=
  (run_induct_of_trace (P := Aligned)
    (Q := fun w s => PassesVec s ∧ (step s w = w ∨ KeepsAligned w s))
    (fun _ _ h hq => h.step hq.1 hq.2) (aligned_initialized hlen hinit)
    fun x hx => ⟨hvec x.2 (mem_of_mem_trace hx), hsteps x hx⟩).follow

/-- `⟨1⟩` puts `⟨3⟩` in the place of `⟨2⟩`, in the roles and then in the admin set, and proposes. -/
def rotation : List (Step ⟨0⟩ Entry) :=
  [.call (.signedBy ⟨0⟩ 2 2 [⟨1⟩]) (.grantRole ⟨1⟩ ⟨3⟩ .admin),
    .call (.signedBy ⟨0⟩ 3 3 [⟨1⟩]) (.revokeRole ⟨1⟩ ⟨2⟩ .admin),
    .call (.signedBy ⟨0⟩ 4 4 [⟨1⟩]) (.setAdminSet ⟨1⟩ [⟨1⟩, ⟨3⟩] 2),
    .call (.signedBy ⟨0⟩ 5 5 [⟨1⟩]) (.propose ⟨1⟩ .pause)]

/-- Then `⟨1⟩` and `⟨3⟩` can approve the proposal, and nobody else. -/
theorem approvals_follow_admin_set_proposed :
    ApprovalsFollowAdminSet ⟨0⟩ (run step
      (initialized (.signedBy ⟨0⟩ 1 1 []) (.ofList []) ⟨1⟩ 2 [⟨1⟩, ⟨2⟩]) rotation) := by
  have hnone : ∀ {w : World Store}, w.store.proposals = ∅ → ¬ PendingBut ∅ w := by
    rintro w hempty ⟨id, p, -, hp, -⟩
    rw [hempty, Finmap.lookup_empty] at hp
    cases hp
  have hrotated : ∀ w : World Store, w.store.getAdminSet = [⟨1⟩, ⟨3⟩] →
      w.shared.roles = {(⟨1⟩, .admin), (⟨3⟩, .admin)} →
      ∀ a, a ∈ w.store.getAdminSet ↔ (a, Role.admin) ∈ w.shared.roles := by
    intro w hset hroles a
    rw [hset, hroles]
    simp
  refine approvals_follow_admin_set _ _ _ _ _ (by decide) ⟨_, _, rfl⟩ rotation ?_ ?_
  · simp [rotation, PassesVec]
  · intro x hx
    simp only [rotation, trace_cons, trace_nil, List.mem_cons, List.not_mem_nil, or_false] at hx
    rcases hx with rfl | rfl | rfl | rfl
    · exact .inr fun hpending => absurd hpending (hnone rfl)
    · exact .inr fun hpending => absurd hpending (hnone rfl)
    · exact .inr fun hpending => absurd hpending (hnone rfl)
    · exact .inr (hrotated _ rfl (by decide))

/-- After `set_admin_set` the new member `⟨3⟩` cannot approve the proposal of `⟨1⟩`, who is no
    longer a member. -/
theorem approvals_not_follow_admin_set :
    ¬ ApprovalsFollowAdminSet ⟨0⟩ (run step
      (initialized (.signedBy ⟨0⟩ 1 1 []) (.ofList []) ⟨1⟩ 2 [⟨1⟩, ⟨2⟩])
      [.call (.signedBy ⟨0⟩ 2 2 [⟨1⟩]) (.setAdminSet ⟨1⟩ [⟨3⟩] 1),
        .call (.signedBy ⟨0⟩ 3 3 [⟨1⟩]) (.propose ⟨1⟩ .pause)]) := by
  intro h
  have hiff := h 1 ⟨1, ⟨1⟩, .pause, 0, .pending, 3⟩ ⟨3⟩ (.signedBy ⟨0⟩ 4 4 [⟨3⟩]) (by decide) rfl
    (by decide) (by decide)
  obtain ⟨p, hcan⟩ := approve_succeeds.mp (hiff.mpr (by decide))
  exact absurd hcan.role (by decide)

end Trellis.Governance
