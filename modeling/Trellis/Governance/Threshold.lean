import Trellis.Governance.Proposals

/-!
# Whether the threshold can be met

`initialize` and `set_admin_set` compare the threshold with the length of a list of addresses, which
may name one address twice and need not name the holders of `Role.admin`; who may approve are the
holders.

Results:
* `quorate_step_iff`: a step leaves as many holders as the threshold asks for exactly when
  `KeepsQuorum` holds of it.
* `canPass`: then the holders can propose, approve and execute.
* `quorate_iff`: the same over runs.
-/

namespace Trellis.Governance

open Exec

variable {me : Address}

/-! ## Holders of the role -/

/-- The addresses that hold `Role.admin`. -/
def admins (roles : Finset (Address × Role)) : Finset Address :=
  (roles.filter fun x => x.2 = Role.admin).image Prod.fst

theorem mem_admins {roles : Finset (Address × Role)} {a : Address} :
    a ∈ admins roles ↔ (a, Role.admin) ∈ roles := by
  simp [admins]

theorem admins_erase (roles : Finset (Address × Role)) (user : Address) (role : Role) :
    admins (roles.erase (user, role)) =
      if role = .admin then (admins roles).erase user else admins roles := by
  ext a
  rw [mem_admins, Finset.mem_erase, ne_eq, Prod.mk.injEq]
  split_ifs with hrole
  · rw [Finset.mem_erase, mem_admins, hrole]
    simp
  · rw [mem_admins]
    exact and_iff_right fun h => hrole h.2.symm

theorem admins_grantAdmins (roles : Finset (Address × Role)) (addrs : List Address) :
    admins (grantAdmins roles addrs) = admins roles ∪ addrs.toFinset := by
  ext a
  rw [mem_admins, mem_grantAdmins, Finset.mem_union, mem_admins, List.mem_toFinset]
  simp

/-- There are at least as many holders as the threshold asks for. -/
def Quorate (w : World Store) : Prop := w.store.getThreshold ≤ (admins w.shared.roles).card

instance (w : World Store) : Decidable (Quorate w) := inferInstanceAs (Decidable (_ ≤ _))

theorem Quorate.congr {w w' : World Store} (h : Quorate w)
    (hthreshold : w'.store.threshold = w.store.threshold)
    (hroles : w'.shared.roles = w.shared.roles) : Quorate w' := by
  unfold Quorate Store.getThreshold
  rw [hthreshold, hroles]
  exact h

/-! ## One step -/

/-- The step leaves as many holders as the threshold asks for: a new threshold, if it is accepted,
    is not above their number, and no holder loses the role while there are just enough. -/
def KeepsQuorum (w : World Store) : Step me Entry → Prop
  | .call _ (.init _ threshold adminSet) => 1 ≤ threshold → threshold ≤ adminSet.length →
    threshold ≤ (admins w.shared.roles ∪ adminSet.toFinset).card
  | .call env (.setAdminSet caller newSet threshold) => Acts env w caller → 1 ≤ threshold →
    threshold ≤ newSet.length → threshold ≤ (admins w.shared.roles).card
  | .call env (.revokeRole caller user role) => Acts env w caller → role = .admin →
    user ∈ admins w.shared.roles → w.store.getThreshold < (admins w.shared.roles).card
  | .call env (.execute caller id) => Acts env w caller → ∀ p user,
    w.store.proposals.lookup id = some p → p.status = .pending →
    w.store.getThreshold ≤ p.approvalCount → p.action = .revokeRole user .admin →
    user ∈ admins w.shared.roles → w.store.getThreshold < (admins w.shared.roles).card
  | _ => True

theorem Quorate.grant {w w' : World Store} (h : Quorate w) {user : Address} {role : Role}
    (hthreshold : w'.store.threshold = w.store.threshold)
    (hroles : w'.shared.roles = insert (user, role) w.shared.roles) : Quorate w' := by
  have hsub : admins w.shared.roles ⊆ admins w'.shared.roles := by
    intro a ha
    rw [hroles]
    exact mem_admins.mpr (Finset.mem_insert_of_mem (mem_admins.mp ha))
  unfold Quorate Store.getThreshold
  rw [hthreshold]
  exact le_trans h (Finset.card_le_card hsub)

/-- A revocation leaves enough holders exactly when it takes the role from none of them, or there
    are more than enough. -/
theorem Quorate.revoke_iff {w w' : World Store} (h : Quorate w) {user : Address} {role : Role}
    (hthreshold : w'.store.threshold = w.store.threshold)
    (hroles : w'.shared.roles = w.shared.roles.erase (user, role)) :
    Quorate w' ↔ (role = .admin → user ∈ admins w.shared.roles →
      w.store.getThreshold < (admins w.shared.roles).card) := by
  have hquorate : Quorate w' ↔
      w.store.getThreshold ≤ (admins (w.shared.roles.erase (user, role))).card := by
    unfold Quorate Store.getThreshold
    rw [hthreshold, hroles]
  rw [hquorate, admins_erase]
  split_ifs with hrole
  · by_cases huser : user ∈ admins w.shared.roles
    · have hpos := Finset.card_pos.mpr ⟨user, huser⟩
      rw [Finset.card_erase_of_mem huser]
      constructor
      · intro hle _ _
        omega
      · intro hlt
        have := hlt hrole huser
        omega
    · rw [Finset.erase_eq_of_notMem huser]
      exact iff_of_true h fun _ hmem => absurd hmem huser
  · exact iff_of_true h fun hadmin => absurd hadmin hrole

theorem keepsQuorum_of_not_returns {w : World Store} {s : Step me Entry}
    (hfails : ∀ env c, s = .call env c → ¬ Returns env w c) : KeepsQuorum w s := by
  cases s with
  | outside => trivial
  | call env c =>
    have hnot : ¬ Returns env w c := hfails env c rfl
    cases c with
    | init admin threshold adminSet =>
      intro hpos hlen
      exact absurd (init_succeeds hpos hlen) hnot
    | setAdminSet caller newSet threshold =>
      intro hacts hpos hlen
      exact absurd (setAdminSet_succeeds hacts hpos hlen) hnot
    | revokeRole caller user role =>
      intro hacts
      exact absurd (revokeRole_succeeds hacts) hnot
    | execute caller id =>
      intro hacts p user hp hpending hthreshold haction
      have hvalid : p.action.Valid := by
        rw [haction]
        trivial
      exact absurd (execute_succeeds hacts hp hpending hthreshold hvalid) hnot
    | _ => trivial

theorem keepsQuorum_execute {w : World Store} {env : Env me} {caller : Address} {id : ℕ}
    {p : Proposal} (hp : w.store.proposals.lookup id = some p)
    (hother : ∀ user, p.action ≠ .revokeRole user .admin) :
    KeepsQuorum w (.call env (.execute caller id)) := by
  intro _ p' user hp' _ _ haction
  obtain rfl := Option.some.inj (hp.symm.trans hp')
  exact absurd haction (hother user)

/-- A step leaves enough holders exactly when `KeepsQuorum` holds of it. -/
theorem quorate_step_iff {w : World Store} (h : Quorate w) (s : Step me Entry) :
    Quorate (step s w) ↔ KeepsQuorum w s := by
  rcases step_returns s w with ⟨env, c, rfl, -, hdone⟩ | ⟨hfails, hstore, hshared⟩
  · generalize step _ w = w' at hdone ⊢
    cases hdone with
    | @init admin threshold adminSet events hpos hlen =>
      have hquorate : Quorate { w with
          shared := { w.shared with
            admin := some admin
            roles := grantAdmins w.shared.roles adminSet }
          store := { w.store with
            threshold := some threshold
            adminSet := some adminSet
            params := seededParams w.store.params }
          events := events } ↔
          threshold ≤ (admins w.shared.roles ∪ adminSet.toFinset).card := by
        rw [← admins_grantAdmins]
        rfl
      rw [hquorate]
      exact ⟨fun hle _ _ => hle, fun hkeeps => hkeeps hpos hlen⟩
    | setAdminSet hrole hsigned hpos hlen =>
      exact ⟨fun hle _ _ _ => hle, fun hkeeps => hkeeps ⟨hrole, hsigned⟩ hpos hlen⟩
    | grantRole => exact iff_of_true (h.grant rfl rfl) trivial
    | @revokeRole caller user role events hrole hsigned =>
      refine Iff.trans (h.revoke_iff rfl rfl) ?_
      exact ⟨fun hkeeps _ => hkeeps, fun hkeeps => hkeeps ⟨hrole, hsigned⟩⟩
    | propose | approve | setParam => exact iff_of_true (h.congr rfl rfl) trivial
    | @execute caller id events p hrole hsigned hp hpending hthreshold =>
      have hsame := effect_threshold w p.action
      cases haction : p.action with
      | revokeRole user role =>
        have hroles : (p.action.effect w).shared.roles = w.shared.roles.erase (user, role) := by
          rw [haction]
          rfl
        rw [← haction]
        refine Iff.trans (h.revoke_iff hsame hroles) ?_
        constructor
        · intro hkeeps _ p' user' hp' _ _ haction' huser
          obtain rfl := Option.some.inj (hp.symm.trans hp')
          rw [haction] at haction'
          cases haction'
          exact hkeeps rfl huser
        · intro hkeeps hadmin huser
          rw [hadmin] at haction
          exact hkeeps ⟨hrole, hsigned⟩ p user hp hpending hthreshold haction huser
      | grantRole user role =>
        have hroles : (p.action.effect w).shared.roles = insert (user, role) w.shared.roles := by
          rw [haction]
          rfl
        rw [← haction]
        refine iff_of_true (h.grant hsame hroles) (keepsQuorum_execute hp ?_)
        intro user' heq
        rw [haction] at heq
        cases heq
      | setParameter | pause | unpause =>
        have hroles : (p.action.effect w).shared.roles = w.shared.roles := by
          rw [haction]
          rfl
        rw [← haction]
        refine iff_of_true (h.congr hsame hroles) (keepsQuorum_execute hp ?_)
        intro user' heq
        rw [haction] at heq
        cases heq
  · exact iff_of_true (h.congr (by rw [hstore]) (by rw [hshared]))
      (keepsQuorum_of_not_returns hfails)

/-! ## Passing a proposal -/

/-- The approvers approve the proposal, one after another. -/
def approving (me : Address) (sequence timestamp : ℕ) (approvers : List Address) (id : ℕ) :
    List (Step me Entry) :=
  approvers.map fun a => .call (.signedBy me sequence timestamp [a]) (.approve a id)

/-- The caller proposes the action, the approvers approve the proposal, and the caller executes
    it. -/
def passing (me : Address) (sequence timestamp : ℕ) (caller : Address) (approvers : List Address)
    (action : ProposalAction) (id : ℕ) : List (Step me Entry) :=
  .call (.signedBy me sequence timestamp [caller]) (.propose caller action) ::
    (approving me sequence timestamp approvers id ++
      [.call (.signedBy me sequence timestamp [caller]) (.execute caller id)])

/-- Some of the holders can bring about that a new proposal of the action is executed. -/
def CanPass (me : Address) (w : World Store) (sequence timestamp : ℕ) (action : ProposalAction) :
    Prop :=
  ∃ caller approvers, caller ∈ admins w.shared.roles ∧
    (∀ a ∈ approvers, a ∈ admins w.shared.roles) ∧
    ∃ p, (run step w (passing me sequence timestamp caller approvers action
        (w.store.propCnt.getD 0 + 1))).store.proposals.lookup (w.store.propCnt.getD 0 +
          1) = some p ∧
      p.action = action ∧ p.status = .executed

theorem acts_signedBy {w : World Store} {a : Address} (hholds : (a, Role.admin) ∈ w.shared.roles)
    (hne : a ≠ me) (sequence timestamp : ℕ) :
    Acts (.signedBy me sequence timestamp [a] : Env me) w a :=
  ⟨hholds, by simp [Env.signedBy, hne]⟩

/-- Different holders that have not approved a pending proposal can approve it one after another. -/
theorem approve_all (sequence timestamp : ℕ) {approvers : List Address} (hnodup : approvers.Nodup)
    {w : World Store} {id : ℕ} {p : Proposal} (hp : w.store.proposals.lookup id = some p)
    (hpending : p.status = .pending)
    (hholds : ∀ a ∈ approvers, (a, Role.admin) ∈ w.shared.roles ∧ a ≠ me ∧
      (id, a) ∉ w.store.approvals) (hroom : p.approvalCount + approvers.length < 2 ^ 32) :
    (run step w (approving me sequence timestamp approvers id)).shared.roles =
        w.shared.roles ∧
      (run step w (approving me sequence timestamp approvers id)).store.threshold =
        w.store.threshold ∧
      (run step w (approving me sequence timestamp approvers id)).store.proposals.lookup id =
        some { p with approvalCount := p.approvalCount + approvers.length } := by
  induction approvers generalizing w p with
  | nil => exact ⟨rfl, rfl, hp⟩
  | cons a rest ih =>
    obtain ⟨hholder, hne, hnew⟩ := hholds a List.mem_cons_self
    have hacts := acts_signedBy hholder hne sequence timestamp
    rw [List.length_cons] at hroom
    rw [List.nodup_cons] at hnodup
    have hreturns : Returns (.signedBy me sequence timestamp [a] : Env me) w (.approve a id) :=
      approve_succeeds.mpr ⟨p, hacts.1, hacts.2, hp, hpending, hnew, by omega⟩
    have hdone := step_of_returns hreturns
    have hrun : run step w (approving me sequence timestamp (a :: rest) id) =
        run step (step (.call (.signedBy me sequence timestamp [a]) (.approve a id)) w)
          (approving me sequence timestamp rest id) := rfl
    rw [hrun]
    generalize step _ w = w' at hdone ⊢
    have hleft : w'.shared.roles = w.shared.roles ∧ w'.store.threshold = w.store.threshold ∧
        w'.store.approvals = insert (id, a) w.store.approvals ∧
        w'.store.proposals.lookup id =
          some { p with approvalCount := p.approvalCount + 1 } := by
      cases hdone with
      | approve events q hcan =>
        obtain rfl := Option.some.inj (hp.symm.trans hcan.stored)
        refine ⟨rfl, rfl, rfl, ?_⟩
        rw [Table.lookup_set, if_pos rfl]
    obtain ⟨hroles, hthreshold, happrovals, hstored⟩ := hleft
    have hfresh : ∀ b ∈ rest, (b, Role.admin) ∈ w'.shared.roles ∧ b ≠ me ∧
        (id, b) ∉ w'.store.approvals := by
      intro b hb
      obtain ⟨hholder', hne', hnew'⟩ := hholds b (List.mem_cons_of_mem _ hb)
      rw [hroles, happrovals, Finset.mem_insert, not_or]
      refine ⟨hholder', hne', ?_, hnew'⟩
      rintro ⟨⟩
      exact hnodup.1 hb
    have hspace : p.approvalCount + 1 + rest.length < 2 ^ 32 := by omega
    obtain ⟨hroles', hthreshold', hstored'⟩ := ih hnodup.2 hstored hpending hfresh hspace
    refine ⟨hroles'.trans hroles, hthreshold'.trans hthreshold, ?_⟩
    rw [hstored', List.length_cons, add_assoc, add_comm 1]

/-- With a quorum the holders can pass every valid action, as long as the contract is not one of its
    own holders and the counters have room. -/
theorem canPass {w : World Store} (hbook : Book w.store) (hquorate : Quorate w)
    (hpos : 0 < w.store.getThreshold) (hme : (me, Role.admin) ∉ w.shared.roles)
    (hids : w.store.propCnt.getD 0 + 1 < 2 ^ 64) (hwidth : w.store.getThreshold < 2 ^ 32)
    (sequence timestamp : ℕ) {action : ProposalAction} (hvalid : action.Valid) :
    CanPass me w sequence timestamp action := by
  obtain ⟨chosen, hchosen, hcard⟩ := Finset.exists_subset_card_eq hquorate
  have hlength : chosen.toList.length = w.store.getThreshold := by rw [Finset.length_toList, hcard]
  obtain ⟨caller, hcaller⟩ := Finset.card_pos.mp (hcard ▸ hpos)
  have hholder : ∀ a ∈ chosen, (a, Role.admin) ∈ w.shared.roles ∧ a ≠ me := by
    intro a ha
    have hrole := mem_admins.mp (hchosen ha)
    refine ⟨hrole, ?_⟩
    rintro rfl
    exact hme hrole
  refine ⟨caller, chosen.toList, hchosen hcaller,
    fun a ha => hchosen (Finset.mem_toList.mp ha), ?_⟩
  obtain ⟨hrole, hne⟩ := hholder caller hcaller
  have hacts := acts_signedBy hrole hne sequence timestamp
  rw [passing, run_cons, run_append]
  -- the proposal is stored, and nobody has approved it
  have hproposed := step_of_returns (c := .propose caller action)
    (propose_succeeds hacts hids)
  generalize step _ w = w₁ at hproposed ⊢
  have hafter : w₁.shared.roles = w.shared.roles ∧ w₁.store.threshold = w.store.threshold ∧
      w₁.store.approvals = w.store.approvals ∧
      w₁.store.proposals.lookup (w.store.propCnt.getD 0 + 1) =
        some ⟨w.store.propCnt.getD 0 + 1, caller, action, 0, .pending, timestamp⟩ := by
    cases hproposed with
    | propose =>
      refine ⟨rfl, rfl, rfl, ?_⟩
      rw [Table.lookup_set, if_pos rfl]
      rfl
  obtain ⟨hroles₁, hthreshold₁, happrovals₁, hstored₁⟩ := hafter
  -- the chosen holders approve it
  have hfresh : ∀ a ∈ chosen.toList, (a, Role.admin) ∈ w₁.shared.roles ∧ a ≠ me ∧
      (w.store.propCnt.getD 0 + 1, a) ∉ w₁.store.approvals := by
    intro a ha
    obtain ⟨hrole', hne'⟩ := hholder a (Finset.mem_toList.mp ha)
    rw [hroles₁, happrovals₁]
    refine ⟨hrole', hne', ?_⟩
    intro hmem
    have hle := hbook.known _ a hmem
    omega
  have hroom : 0 + chosen.toList.length < 2 ^ 32 := by omega
  obtain ⟨hroles₂, hthreshold₂, hstored₂⟩ :=
    approve_all sequence timestamp chosen.nodup_toList hstored₁ rfl hfresh hroom
  generalize run step w₁ (approving me sequence timestamp chosen.toList _) = w₂ at *
  -- and the caller executes it
  have hacts₂ : Acts (.signedBy me sequence timestamp [caller] : Env me) w₂ caller := by
    refine acts_signedBy ?_ hne sequence timestamp
    rw [hroles₂, hroles₁]
    exact hrole
  have henough : w₂.store.getThreshold ≤ 0 + chosen.toList.length := by
    rw [Store.getThreshold, hthreshold₂, hthreshold₁, zero_add, hlength]
    exact le_rfl
  have hexecuted := step_of_returns (c := .execute caller (w.store.propCnt.getD 0 + 1))
    (execute_succeeds hacts₂ hstored₂ rfl henough hvalid)
  rw [run_cons, run_nil]
  generalize step _ w₂ = w₃ at hexecuted ⊢
  cases hexecuted with
  | execute events p hrole₂ hsigned hp =>
    obtain rfl := Option.some.inj (hstored₂.symm.trans hp)
    exact ⟨_, (Table.lookup_set _ _ _ _).trans (if_pos rfl), rfl, rfl⟩

/-! ## Runs -/

theorem quorate_deployed (tokens : TokenLedger) : Quorate (World.deployed Store.empty tokens) :=
  Nat.zero_le _

/-- Every state of a run has as many holders as the threshold asks for exactly when `KeepsQuorum`
    holds of every step; where it has, the holders can pass every valid action. -/
theorem quorate_iff (tokens : TokenLedger) (steps : List (Step me Entry)) :
    ((∀ x ∈ history tokens steps, Quorate (step x.2 x.1)) ↔
      ∀ x ∈ history tokens steps, KeepsQuorum x.1 x.2) ∧
    (Quorate (reached tokens steps) → 0 < (reached tokens steps).store.getThreshold →
      (me, Role.admin) ∉ (reached tokens steps).shared.roles →
      (reached tokens steps).store.propCnt.getD 0 + 1 < 2 ^ 64 →
      (reached tokens steps).store.getThreshold < 2 ^ 32 →
      ∀ sequence timestamp (action : ProposalAction), action.Valid →
        CanPass me (reached tokens steps) sequence timestamp action) := by
  constructor
  · exact trace_forall_iff (P := fun _ => True) (G := Quorate) (N := fun _ _ => True)
      (Q := KeepsQuorum) (fun _ _ _ _ => trivial) (fun _ s _ _ h => quorate_step_iff h s) trivial
      (quorate_deployed tokens) fun _ _ => trivial
  · intro hquorate hpos hme hids hwidth sequence timestamp action hvalid
    exact canPass (book_reached tokens steps) hquorate hpos hme hids hwidth sequence
      timestamp hvalid

/-- `initialize` with the threshold 2 and a list that names `⟨1⟩` twice. -/
def doubledInit : Step ⟨0⟩ Entry := .call (.signedBy ⟨0⟩ 1 1 []) (.init ⟨1⟩ 2 [⟨1⟩, ⟨1⟩])

/-- It is accepted, and leaves one holder where two are needed. -/
theorem not_quorate_doubled :
    Returns (.signedBy ⟨0⟩ 1 1 []) (World.deployed Store.empty (.ofList []))
        (.init ⟨1⟩ 2 [⟨1⟩, ⟨1⟩]) ∧
      (reached (.ofList []) [doubledInit]).store.getThreshold = 2 ∧
      admins (reached (.ofList []) [doubledInit]).shared.roles = {⟨1⟩} ∧
      ¬ Quorate (reached (.ofList []) [doubledInit]) :=
  ⟨⟨_, _, rfl⟩, by decide, by decide, by decide⟩

end Trellis.Governance
