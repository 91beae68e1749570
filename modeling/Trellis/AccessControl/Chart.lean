import Trellis.Lib.Lineage
import Trellis.AccessControl.Membership

/-!
# The role checks as a function of the calls

The contract keeps one parent for each role, and walks up the parents at every check. `Chart` is the
same hierarchy without walks: for each role the list of the role and of those above it, and who is a
member. A call that goes through acts on the chart in a line, and the walks of the contract find
what the chart says.

Results:
* `hasRole_of_lineage`, `getRoleAncestors_of_lineage`: what the walks find.
* `Charts.done`: what a call does to the chart.
* `checks_from_calls`: every check in a reachable state, from the calls that went through; and the
  calls that a check depends on.
-/

namespace Trellis.AccessControl

open Exec

variable {me : Address}

/-! ## The chart -/

/-- For each role the role and those above it, nearest first, and the members of each role. -/
structure Chart where
  line : Symbol → List Symbol
  member : Symbol → Address → Bool

namespace Chart

/-- No role has a parent or a member. -/
def blank : Chart := ⟨fun role => [role], fun _ _ => false⟩

/-- The user is a member of the role or of one above it. -/
def holds (c : Chart) (role : Symbol) (user : Address) : Bool :=
  (c.line role).any fun r => c.member r user

/-- The chart after a write of the membership of `user` in `role`. -/
def setMember (c : Chart) (role : Symbol) (user : Address) (held : Bool) : Chart :=
  { c with member := fun r u => if r = role ∧ u = user then held else c.member r u }

/-- The chart after a call that goes through. -/
def act (c : Chart) : Entry → Chart
  | .init superAdmin => c.setMember superRole superAdmin true
  | .setRoleParent _ role parent => { c with line := relined c.line role parent }
  | .grantRole _ role user => c.setMember role user true
  | .revokeRole _ role user => c.setMember role user false
  | .addAdmin .. => c
  | .removeAdmin .. => c
  | .createRole .. => c

/-- The chart after a list of calls. -/
def after (calls : List Entry) : Chart := calls.foldl act blank

end Chart

/-- The role whose parent or members a call writes. -/
def Entry.written : Entry → Option Symbol
  | .init _ => some superRole
  | .setRoleParent _ role _ => some role
  | .grantRole _ role _ => some role
  | .revokeRole _ role _ => some role
  | .addAdmin .. => none
  | .removeAdmin .. => none
  | .createRole .. => none

theorem Chart.act_of_not_written {c : Chart} {role : Symbol} {e : Entry}
    (h : ∀ r ∈ c.line role, e.written ≠ some r) :
    (c.act e).line role = c.line role ∧ ∀ user, (c.act e).holds role user = c.holds role user := by
  have hmember : ∀ {r : Symbol} {who : Address} {held : Bool}, e.written = some r →
      ∀ user, (c.setMember r who held).holds role user = c.holds role user := by
    intro r who held hr user
    unfold Chart.holds
    rw [List.any_eq, List.any_eq]
    refine decide_eq_decide.mpr (exists_congr fun r' => and_congr_right fun hr' => ?_)
    refine Eq.congr_left (if_neg ?_)
    rintro ⟨rfl, -⟩
    exact h r' hr' hr
  cases e with
  | init => exact ⟨rfl, hmember rfl⟩
  | addAdmin => exact ⟨rfl, fun _ => rfl⟩
  | removeAdmin => exact ⟨rfl, fun _ => rfl⟩
  | createRole => exact ⟨rfl, fun _ => rfl⟩
  | setRoleParent caller r parent =>
    have hline : (c.act (.setRoleParent caller r parent)).line role = c.line role :=
      if_neg fun hr => h r hr rfl
    refine ⟨hline, fun user => ?_⟩
    unfold Chart.holds
    rw [hline]
    rfl
  | grantRole => exact ⟨rfl, hmember rfl⟩
  | revokeRole => exact ⟨rfl, hmember rfl⟩

/-! ## What the walks find -/

section

variable {s : Store} {role : Symbol} {l : List Symbol}

/-- The walk of `has_role` asks the roles of the lineage. -/
theorem hasRole_of_lineage (h : Lineage s.getRoleParent role l) (user : Address) :
    s.hasRole role user = some (l.any fun r => s.isMember r user) := by
  refine hasRole_eq_some_iff.mpr ⟨l.length, ?_⟩
  induction h with
  | @top role hnone =>
    cases hmember : s.isMember role user with
    | true => exact loopWithin_done ((membershipRound_member hmember).trans (by simp [hmember]))
    | false =>
      exact loopWithin_done ((membershipRound_none hmember hnone).trans (by simp [hmember]))
  | @up role parent l hparent _ ih =>
    cases hmember : s.isMember role user with
    | true => exact loopWithin_done ((membershipRound_member hmember).trans (by simp [hmember]))
    | false =>
      rw [List.length_cons, loopWithin_next (membershipRound_some hmember hparent), ih,
        List.any_cons, hmember, Bool.false_or]

theorem ancestors_loop_of_lineage (h : Lineage s.getRoleParent role l) (chain : List Symbol) :
    loopWithin s.ancestorsRound l.length (role, chain) = some (chain ++ l.tail) := by
  induction h generalizing chain with
  | top hnone =>
    refine loopWithin_done ((ancestorsRound_none hnone chain).trans ?_)
    rw [List.tail_cons, List.append_nil]
  | up hparent hl ih =>
    rw [List.length_cons, loopWithin_next (ancestorsRound_some hparent chain), ih,
      List.append_assoc, List.singleton_append, ← hl.eq_cons, List.tail_cons]

/-- The walk of `get_role_ancestors` lists the lineage without the role. -/
theorem getRoleAncestors_of_lineage (hacyclic : Acyclic s.getRoleParent)
    (h : Lineage s.getRoleParent role l) : s.getRoleAncestors role = some l.tail := by
  obtain ⟨chain, hchain⟩ := loopWithin_of_acyclic (ancestorsRound_moves s) hacyclic
    (mem_keys_of_getRoleParent s) (role, [])
  have hloop : loopWithin s.ancestorsRound l.length (role, []) = some l.tail :=
    ancestors_loop_of_lineage h []
  rw [loopWithin_unique hloop hchain]
  exact hchain

end

/-! ## The chart of a storage -/

/-- The chart says what the storage holds. -/
structure Charts (s : Store) (c : Chart) : Prop where
  line : Lines s.getRoleParent c.line
  member (role : Symbol) (user : Address) : s.isMember role user = c.member role user

namespace Charts

variable {s : Store} {c : Chart}

theorem empty : Charts Store.empty Chart.blank := by
  constructor
  · exact fun role => .top (Finmap.lookup_empty role)
  · intro role user
    rfl

theorem setMember (h : Charts s c) (role : Symbol) (user : Address) (held : Bool) :
    Charts (s.setMember role user held) (c.setMember role user held) := by
  constructor
  · exact h.line
  · intro role' user'
    rw [isMember_setMember, h.member]
    rfl

theorem setParent (h : Charts s c) {role parent : Symbol} (hne : role ≠ parent)
    (hfree : s.hasAncestor parent role = some false) :
    Charts { s with roleParent := s.roleParent.insert role parent }
      { c with line := relined c.line role parent } := by
  constructor
  · show Lines (Store.getRoleParent { s with roleParent := s.roleParent.insert role parent }) _
    rw [getRoleParent_set]
    refine h.line.update ?_
    rw [(h.line parent).mem_iff]
    rintro ⟨k, hk⟩
    cases k with
    | zero => exact hne (Option.some.inj hk).symm
    | succ k => exact Bool.false_ne_true ((hasAncestor_iff hfree).mpr ⟨k, hk⟩)
  · exact h.member

theorem done {env : Env me} {w w' : World Store} {e : Entry} (h : Charts w.store c)
    (hdone : Done env w e w') :
    Charts w'.store (c.act e) := by
  cases hdone with
  | init =>
    refine setMember ?_ _ _ _
    exact ⟨h.line, h.member⟩
  | addAdmin => exact ⟨h.line, h.member⟩
  | addAdminAgain => exact h
  | removeAdmin => exact ⟨h.line, h.member⟩
  | removeAdminAgain => exact h
  | createRole => exact ⟨h.line, h.member⟩
  | setRoleParent _ _ _ _ hne hfree => exact h.setParent hne hfree
  | grantRole => exact h.setMember _ _ _
  | revokeRole => exact h.setMember _ _ _

theorem hasRole (h : Charts s c) (role : Symbol) (user : Address) :
    s.hasRole role user = some (c.holds role user) := by
  rw [hasRole_of_lineage (h.line role)]
  refine congrArg some ?_
  unfold Chart.holds
  simp only [h.member]

end Charts

/-! ## The calls that went through -/

/-- What an entry point returns. -/
def returned (env : Env me) : Entry → World Store → Option Unit
  | .init superAdmin => (init superAdmin).value
  | .addAdmin caller newAdmin => (addAdmin env caller newAdmin).value
  | .removeAdmin caller target => (removeAdmin env caller target).value
  | .createRole caller role => (createRole env caller role).value
  | .setRoleParent caller role parent => (setRoleParent env caller role parent).value
  | .grantRole caller role user => (grantRole env caller role user).value
  | .revokeRole caller role user => (revokeRole env caller role user).value

theorem returned_eq_none {env : Env me} {e : Entry} {w : World Store} :
    returned env e w = none ↔ ¬ Returns env w e := by
  unfold returned Returns
  cases e <;> exact value_eq_none

/-- The call of a step that goes through. -/
def landed (w : World Store) : Step me Entry → Option Entry
  | .call env e => (returned env e w).map fun _ => e
  | .outside .. => none

theorem charts_step {w : World Store} {c : Chart} (h : Charts w.store c) (s : Step me Entry) :
    Charts (step s w).store ((landed w s).toList.foldl Chart.act c) := by
  rcases step_cases s w with ⟨env, e, rfl, hreturns, hdone⟩ | ⟨hfails, hstore, -⟩
  · have hlanded : landed w (.call env e) = some e := by
      obtain ⟨u, hu⟩ :=
        Option.ne_none_iff_exists'.mp (mt returned_eq_none.mp (not_not_intro hreturns))
      rw [landed, hu, Option.map_some]
    rw [hlanded]
    exact h.done hdone
  · have hlanded : landed w s = none := by
      cases s with
      | outside => rfl
      | call env e => rw [landed, returned_eq_none.mpr (hfails env e rfl), Option.map_none]
    rw [hlanded, hstore]
    exact h

theorem charts_run {w : World Store} {c : Chart} (h : Charts w.store c)
    (steps : List (Step me Entry)) :
    Charts (run step w steps).store ((yields step landed w steps).foldl Chart.act c) := by
  induction steps generalizing w c with
  | nil => exact h
  | cons s steps ih =>
    rw [yields_cons, List.foldl_append]
    exact ih (charts_step h s)

/-! ## What a check depends on -/

theorem Chart.foldl_of_not_written {calls : List Entry} {c : Chart} {role : Symbol}
    (h : ∀ e ∈ calls, ∀ r ∈ c.line role, e.written ≠ some r) :
    (calls.foldl Chart.act c).line role = c.line role ∧
      ∀ user, (calls.foldl Chart.act c).holds role user = c.holds role user := by
  induction calls generalizing c with
  | nil => exact ⟨rfl, fun _ => rfl⟩
  | cons e calls ih =>
    obtain ⟨hline, hholds⟩ := act_of_not_written fun r hr => h e List.mem_cons_self r hr
    obtain ⟨hlines, hall⟩ := ih (c := c.act e) fun e' he' r hr =>
      h e' (List.mem_cons_of_mem e he') r (hline ▸ hr)
    exact ⟨hlines.trans hline, fun user => (hall user).trans (hholds user)⟩

/-- A grant gives a role exactly to the holders of the roles on its line. -/
theorem Chart.holds_setMember_iff {c : Chart} {role granted : Symbol} {user : Address}
    (hnot : c.holds role user = false) :
    (c.setMember granted user true).holds role user = true ↔ granted ∈ c.line role := by
  unfold Chart.holds at hnot ⊢
  rw [List.any_eq_false] at hnot
  rw [List.any_eq_true]
  constructor
  · rintro ⟨r, hr, hmember⟩
    by_cases hgranted : r = granted
    · exact hgranted ▸ hr
    · have hold : c.member r user = true :=
        (if_neg fun hsame => hgranted hsame.1).symm.trans hmember
      exact absurd hold (hnot r hr)
  · exact fun hr => ⟨granted, hr, if_pos ⟨rfl, rfl⟩⟩

theorem grantRole_succeeds {env : Env me} {caller : Address} {role : Symbol} {user : Address}
    {w : World Store} (hcaller : Entitled env w caller)
    (hrole : w.store.roleExistsCheck role = true) :
    (grantRole env caller role user).Succeeds w := by
  refine ⟨(), ?_⟩
  simp [grantRole, grantRoleInternal, hcaller.1, hcaller.2, hrole]

/-! ## Runs from deployment -/

/-- In every state that a run from deployment reaches, whoever called what, and with the chart that
    the calls that went through make of a blank one:

    * `get_role_ancestors` and `has_role` end, and find what the chart says;
    * any further run in which no call that goes through grants, revokes or re-parents a role of the
      line of `role` leaves the line and every check of `role` alone;
    * these are all roles of the line that count: a grant of `granted` by an admin gives `role` to a
      user without it exactly when `granted` is on the line. -/
theorem checks_from_calls (tokens : TokenLedger) (steps : List (Step me Entry)) {w : World Store}
    (hw : run step (deployed tokens) steps = w) {chart : Chart}
    (hchart : Chart.after (yields step landed (deployed tokens) steps) = chart) (role : Symbol) :
    (w.store.getRoleAncestors role = some (chart.line role).tail ∧
      ∀ user, w.store.hasRole role user = some (chart.holds role user)) ∧
    (∀ later : List (Step me Entry),
      (∀ e ∈ yields step landed w later, ∀ r ∈ chart.line role, e.written ≠ some r) →
        (run step w later).store.getRoleAncestors role = w.store.getRoleAncestors role ∧
        ∀ user, (run step w later).store.hasRole role user = w.store.hasRole role user) ∧
    ∀ (env : Env me) (caller : Address) (granted : Symbol) (user : Address), Entitled env w caller →
      w.store.roleExistsCheck granted = true → w.store.hasRole role user = some false →
        ((step (.call env (.grantRole caller granted user)) w).store.hasRole role user = some true ↔
          granted ∈ chart.line role) := by
  have hcharts : Charts w.store chart := by
    rw [← hw, ← hchart]
    exact charts_run Charts.empty steps
  have hacyclic : Acyclic w.store.getRoleParent := hw ▸ (hierarchy_reached tokens steps).acyclic
  have hancestors : w.store.getRoleAncestors role = some (chart.line role).tail :=
    getRoleAncestors_of_lineage hacyclic (hcharts.line role)
  refine ⟨⟨hancestors, hcharts.hasRole role⟩, fun later hlater => ?_, ?_⟩
  · have hcharts' := charts_run hcharts later
    have hacyclic' : Acyclic (run step w later).store.getRoleParent :=
      run_induct (P := fun w : World Store => Acyclic w.store.getRoleParent)
        (fun _ s h => acyclic_step h s)
        hacyclic later
    obtain ⟨hline, hholds⟩ := Chart.foldl_of_not_written hlater
    constructor
    · rw [getRoleAncestors_of_lineage hacyclic' (hcharts'.line role), hline, hancestors]
    · intro user
      rw [hcharts'.hasRole, hholds, hcharts.hasRole]
  · intro env caller granted user hcaller hgranted hnot
    rw [hcharts.hasRole] at hnot
    rcases exec_returns env (.grantRole caller granted user) w with ⟨hfails, -⟩ | ⟨-, hdone⟩
    · exact absurd (grantRole_succeeds hcaller hgranted) hfails
    · have hgrown : Charts (step (.call env (.grantRole caller granted user)) w).store
          (chart.setMember granted user true) := hcharts.done hdone
      rw [hgrown.hasRole, Option.some_inj]
      exact Chart.holds_setMember_iff (Option.some.inj hnot)

/-- The role ops is put above dev, granted to `⟨2⟩`, and put below super; the role aud stands
    alone. -/
def reparentedRun : List (Step ⟨0⟩ Entry) :=
  [.call (.signedBy ⟨0⟩ 1 1 [⟨1⟩]) (.init ⟨1⟩),
    .call (.signedBy ⟨0⟩ 1 1 [⟨1⟩]) (.createRole ⟨1⟩ "ops"),
    .call (.signedBy ⟨0⟩ 1 1 [⟨1⟩]) (.createRole ⟨1⟩ "dev"),
    .call (.signedBy ⟨0⟩ 1 1 [⟨1⟩]) (.createRole ⟨1⟩ "aud"),
    .call (.signedBy ⟨0⟩ 1 1 [⟨1⟩]) (.setRoleParent ⟨1⟩ "dev" "ops"),
    .call (.signedBy ⟨0⟩ 1 1 [⟨1⟩]) (.grantRole ⟨1⟩ "ops" ⟨2⟩),
    .call (.signedBy ⟨0⟩ 1 1 [⟨1⟩]) (.setRoleParent ⟨1⟩ "ops" "super")]

/-- A grant to `⟨3⟩`. -/
def grantOf (role : Symbol) : Step ⟨0⟩ Entry :=
  .call (.signedBy ⟨0⟩ 2 2 [⟨1⟩]) (.grantRole ⟨1⟩ role ⟨3⟩)

/-- The super-admin holds dev through ops, and the member of ops holds it too. A grant of aud, which
    is not on the line of dev, changes no check of dev, a grant of ops gives it to `⟨3⟩`. -/
theorem checks_from_calls_reparented :
    let w := run step (deployed (.ofList [])) reparentedRun
    w.store.getRoleAncestors "dev" = some ["ops", "super"] ∧
      w.store.hasRole "dev" ⟨1⟩ = some true ∧ w.store.hasRole "dev" ⟨2⟩ = some true ∧
      (∀ user, (step (grantOf "aud") w).store.hasRole "dev" user = w.store.hasRole "dev" user) ∧
      (step (grantOf "aud") w).store.hasRole "dev" ⟨3⟩ ≠ some true ∧
      (step (grantOf "ops") w).store.hasRole "dev" ⟨3⟩ = some true := by
  intro w
  obtain ⟨⟨hancestors, hholds⟩, hlater, hgrant⟩ :=
    checks_from_calls (.ofList []) reparentedRun rfl rfl "dev"
  have hentitled : Entitled (Env.signedBy ⟨0⟩ 2 2 [⟨1⟩]) w ⟨1⟩ := by decide
  have hnot : w.store.hasRole "dev" ⟨3⟩ = some false := (hholds ⟨3⟩).trans (by decide)
  have hkept := (hlater [grantOf "aud"] (by decide)).2
  refine ⟨hancestors.trans (by decide), (hholds ⟨1⟩).trans (by decide),
    (hholds ⟨2⟩).trans (by decide), hkept, fun h => ?_, ?_⟩
  · exact absurd ((hgrant _ ⟨1⟩ "aud" ⟨3⟩ hentitled rfl hnot).mp h) (by decide)
  · exact (hgrant _ ⟨1⟩ "ops" ⟨3⟩ hentitled rfl hnot).mpr (by decide)

end Trellis.AccessControl
