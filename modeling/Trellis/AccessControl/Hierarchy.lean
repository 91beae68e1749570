import Trellis.AccessControl.Contract
import Trellis.Lib.Run

/-!
# The role hierarchy

The walks along the parents of the roles have no bound and remember no role they have visited. They
end because the hierarchy has no cycle, which `set_role_parent` makes sure of by one of the walks.
The documentation calls the role of the super-admin the root of the hierarchy, which cannot be
revoked from the super-admin; `revoke_role` and `set_role_parent` make no exception for it.

Results:
* `hasRole_iff`, `hasAncestor_iff`: what the walks find.
* `acyclic_step`: a step, whatever it is, closes no cycle.
* `hierarchy_reached`: in every reachable state there is no cycle, and all walks end.
* `rooted_step_iff`: a step leaves the role of the super-admin the protected root exactly when it
  neither revokes it from the super-admin nor puts it below another role.
* `rooted_iff`: the same for the states of a run.
-/

namespace Trellis.AccessControl

open Exec

variable {me : Address}

/-! ## What the walks find -/

theorem ancestorRound_none {s : Store} {candidate role : Symbol} (h : s.getRoleParent role = none) :
    s.ancestorRound candidate role = .inl false := by
  unfold Store.ancestorRound
  rw [h]

theorem ancestorRound_some {s : Store} {candidate role parent : Symbol}
    (h : s.getRoleParent role = some parent) :
    s.ancestorRound candidate role = if parent = candidate then .inl true else .inr parent := by
  unfold Store.ancestorRound
  rw [h]

theorem ancestor_answer {s : Store} {candidate : Symbol} {n : ℕ} {role : Symbol} {answer : Bool}
    (h : loopWithin (s.ancestorRound candidate) n role = some answer) :
    answer = true ↔ ∃ k, climb s.getRoleParent (k + 1) role = some candidate := by
  induction n generalizing role with
  | zero => simp at h
  | succ n ih =>
    cases hparent : s.getRoleParent role with
    | none =>
      rw [loopWithin_done (ancestorRound_none hparent)] at h
      have hnot : ∀ k, climb s.getRoleParent (k + 1) role ≠ some candidate := by
        intro k
        rw [climb_succ, hparent]
        simp
      rw [← Option.some.inj h]
      exact iff_of_false (by decide) fun hex => hnot _ hex.choose_spec
    | some parent =>
      have hround : s.ancestorRound candidate role =
          if parent = candidate then .inl true else .inr parent := ancestorRound_some hparent
      have hclimb : ∀ k, climb s.getRoleParent (k + 1) role = climb s.getRoleParent k parent := by
        intro k
        rw [climb_succ, hparent, Option.bind_some]
      by_cases hfound : parent = candidate
      · rw [if_pos hfound] at hround
        rw [loopWithin_done hround] at h
        rw [← Option.some.inj h]
        refine iff_of_true rfl ⟨0, ?_⟩
        rw [hclimb, climb_zero, hfound]
      · rw [if_neg hfound] at hround
        rw [loopWithin_next hround] at h
        rw [ih h]
        constructor
        · rintro ⟨k, hk⟩
          exact ⟨k + 1, by rw [hclimb, hk]⟩
        · rintro ⟨k, hk⟩
          rw [hclimb] at hk
          cases k with
          | zero => exact absurd (Option.some.inj hk) hfound
          | succ k => exact ⟨k, hk⟩

/-- `has_ancestor` answers whether the candidate is above the role. -/
theorem hasAncestor_iff {s : Store} {role candidate : Symbol} {answer : Bool}
    (h : s.hasAncestor role candidate = some answer) :
    answer = true ↔ ∃ k, climb s.getRoleParent (k + 1) role = some candidate :=
  ancestor_answer h

theorem membershipRound_member {s : Store} {user : Address} {role : Symbol}
    (h : s.isMember role user = true) : s.membershipRound user role = .inl true := by
  rw [Store.membershipRound, if_pos h]

theorem membershipRound_none {s : Store} {user : Address} {role : Symbol}
    (h : s.isMember role user = false) (hparent : s.getRoleParent role = none) :
    s.membershipRound user role = .inl false := by
  unfold Store.membershipRound
  rw [h, hparent]
  rfl

theorem membershipRound_some {s : Store} {user : Address} {role parent : Symbol}
    (h : s.isMember role user = false) (hparent : s.getRoleParent role = some parent) :
    s.membershipRound user role = .inr parent := by
  unfold Store.membershipRound
  rw [h, hparent]
  rfl

/-- The walk of `has_role` answers whether the user is a direct member of the role or of one above
    it. -/
theorem membership_answer {s : Store} {user : Address} {n : ℕ} {role : Symbol} {answer : Bool}
    (h : loopWithin (s.membershipRound user) n role = some answer) :
    answer = true ↔ ∃ k r, climb s.getRoleParent k role = some r ∧ s.isMember r user = true := by
  induction n generalizing role with
  | zero => simp at h
  | succ n ih =>
    cases hmember : s.isMember role user with
    | true =>
      rw [loopWithin_done (membershipRound_member hmember)] at h
      rw [← Option.some.inj h]
      exact iff_of_true rfl ⟨0, role, rfl, hmember⟩
    | false =>
      cases hparent : s.getRoleParent role with
      | none =>
        rw [loopWithin_done (membershipRound_none hmember hparent)] at h
        rw [← Option.some.inj h]
        refine iff_of_false (by decide) ?_
        rintro ⟨k, r, hk, hr⟩
        cases k with
        | zero =>
          rw [← Option.some.inj hk, hmember] at hr
          cases hr
        | succ k =>
          rw [climb_succ, hparent] at hk
          cases hk
      | some parent =>
        rw [loopWithin_next (membershipRound_some hmember hparent)] at h
        rw [ih h]
        constructor
        · rintro ⟨k, r, hk, hr⟩
          refine ⟨k + 1, r, ?_, hr⟩
          rw [climb_succ, hparent, Option.bind_some, hk]
        · rintro ⟨k, r, hk, hr⟩
          cases k with
          | zero =>
            rw [← Option.some.inj hk, hmember] at hr
            cases hr
          | succ k =>
            rw [climb_succ, hparent, Option.bind_some] at hk
            exact ⟨k, r, hk, hr⟩

/-- `has_role` answers whether the user is a direct member of the role or of one above it. -/
theorem hasRole_iff {s : Store} {role : Symbol} {user : Address} {answer : Bool}
    (h : s.hasRole role user = some answer) :
    answer = true ↔ ∃ k r, climb s.getRoleParent k role = some r ∧ s.isMember r user = true :=
  membership_answer h

/-! ## No cycles -/

theorem getRoleParent_set (s : Store) (role parent : Symbol) :
    Store.getRoleParent { s with roleParent := s.roleParent.insert role parent } =
      Function.update s.getRoleParent role (some parent) := by
  funext r
  show (s.roleParent.insert role parent).lookup r = _
  rw [Table.lookup_set, Function.update_apply]
  rfl

/-- What `set_role_parent` checks of the roles. -/
def Allowed (s : Store) (role parent : Symbol) : Prop :=
  s.roleExistsCheck role = true ∧ s.roleExistsCheck parent = true ∧ role ≠ parent ∧
    s.hasAncestor parent role = some false

instance (s : Store) (role parent : Symbol) : Decidable (Allowed s role parent) :=
  inferInstanceAs (Decidable (_ ∧ _))

theorem Allowed.acyclic {s : Store} {role parent : Symbol} (h : Allowed s role parent)
    (hacyclic : Acyclic s.getRoleParent) :
    Acyclic (Function.update s.getRoleParent role (some parent)) := by
  obtain ⟨-, -, hne, hanswer⟩ := h
  rw [acyclic_update_iff hacyclic]
  intro n hn
  cases n with
  | zero => exact hne (Option.some.inj hn).symm
  | succ n => exact absurd ((hasAncestor_iff hanswer).mpr ⟨n, hn⟩) (by decide)

theorem acyclic_step {w : World Store} (h : Acyclic w.store.getRoleParent) (s : Step me Entry) :
    Acyclic (step s w).store.getRoleParent := by
  rcases step_cases s w with ⟨env, c, rfl, -, hdone⟩ | ⟨-, hstore, -⟩
  · generalize step (.call env c) w = w' at hdone ⊢
    cases hdone with
    | init => exact h
    | addAdmin => exact h
    | addAdminAgain => exact h
    | removeAdmin => exact h
    | removeAdminAgain => exact h
    | createRole => exact h
    | grantRole => exact h
    | revokeRole => exact h
    | @setRoleParent caller role parent events hcaller hrole hparent hne hanswer =>
      have hallowed : Allowed w.store role parent := ⟨hrole, hparent, hne, hanswer⟩
      show Acyclic (Store.getRoleParent _)
      rw [getRoleParent_set]
      exact hallowed.acyclic h
  · rw [hstore]
    exact h

theorem acyclic_empty : Acyclic Store.empty.getRoleParent := by
  intro role k hk
  obtain ⟨k, rfl⟩ := Nat.exists_eq_succ_of_ne_zero hk.ne'
  have hnone : Store.empty.getRoleParent role = none := Finmap.lookup_empty role
  rw [climb_succ, hnone]
  simp

/-- The parents form a finite hierarchy without cycles, and all walks along them end. -/
structure Hierarchy (s : Store) : Prop where
  acyclic : Acyclic s.getRoleParent
  finite : {edge : Symbol × Symbol | s.getRoleParent edge.1 = some edge.2}.Finite
  has_role (role : Symbol) (user : Address) : Terminates (s.membershipRound user) role
  get_role_ancestors (role : Symbol) : Terminates s.ancestorsRound (role, [])
  has_ancestor (role candidate : Symbol) : Terminates (s.ancestorRound candidate) role

/-- Each edge leaves a role that has a parent, and a role has one parent. -/
theorem finite_edges (s : Store) :
    {edge : Symbol × Symbol | s.getRoleParent edge.1 = some edge.2}.Finite := by
  refine Set.Finite.of_finite_image (f := Prod.fst) (s.roleParent.keys.finite_toSet.subset ?_) ?_
  · rintro role ⟨⟨role', parent⟩, hedge, rfl⟩
    exact mem_keys_of_getRoleParent s role' parent hedge
  · rintro ⟨role, parent⟩ hedge ⟨role', parent'⟩ hedge' (rfl : role = role')
    have hparents : some parent = some parent' := hedge.symm.trans hedge'
    rw [Option.some.inj hparents]

theorem hierarchy_of_acyclic {s : Store} (h : Acyclic s.getRoleParent) : Hierarchy s := by
  have hkeys := mem_keys_of_getRoleParent s
  constructor
  · exact h
  · exact finite_edges s
  · intro role user
    exact ⟨_, loopWithin_of_acyclic (membershipRound_moves s user) h hkeys role⟩
  · intro role
    exact ⟨_, loopWithin_of_acyclic (ancestorsRound_moves s) h hkeys (role, [])⟩
  · intro role candidate
    exact ⟨_, loopWithin_of_acyclic (ancestorRound_moves s candidate) h hkeys role⟩

/-- In every reachable state the hierarchy has no cycle, and all walks end. -/
theorem hierarchy_reached (tokens : TokenLedger) (steps : List (Step me Entry)) :
    Hierarchy (run step (deployed tokens) steps).store := by
  refine hierarchy_of_acyclic ?_
  exact run_induct (P := fun w : World Store => Acyclic w.store.getRoleParent)
    (fun w s h => acyclic_step h s) acyclic_empty steps

/-! ## The role of the super-admin -/

/-- The role of the super-admin is held by the super-admin and by its direct members only, and no
    role is above it. -/
structure Rooted (s : Store) : Prop where
  held : ∃ superAdmin, s.superAdmin = some superAdmin ∧ s.hasRole superRole superAdmin = some true
  direct (user : Address) : s.hasRole superRole user = some true → s.isMember superRole user = true
  top (role : Symbol) : s.hasAncestor superRole role = some false

/-- A role without a parent is held by its direct members. -/
theorem hasRole_of_top {s : Store} {role : Symbol} (h : s.getRoleParent role = none)
    (user : Address) : s.hasRole role user = some (s.isMember role user) := by
  cases hmember : s.isMember role user with
  | true => exact loopWithin_done (membershipRound_member hmember)
  | false => exact loopWithin_done (membershipRound_none hmember h)

theorem rooted_iff_top {s : Store} :
    Rooted s ↔ s.getRoleParent superRole = none ∧
      ∃ superAdmin, s.superAdmin = some superAdmin ∧ s.isMember superRole superAdmin = true := by
  constructor
  · intro h
    have htop : s.getRoleParent superRole = none := by
      by_contra hne
      obtain ⟨parent, hparent⟩ := Option.ne_none_iff_exists'.mp hne
      have habove : ∃ k, climb s.getRoleParent (k + 1) superRole = some parent := by
        refine ⟨0, ?_⟩
        rw [climb_succ, hparent, Option.bind_some, climb_zero]
      exact absurd ((hasAncestor_iff (h.top parent)).mpr habove) (by decide)
    obtain ⟨superAdmin, hstored, hheld⟩ := h.held
    exact ⟨htop, superAdmin, hstored, h.direct superAdmin hheld⟩
  · rintro ⟨htop, superAdmin, hstored, hmember⟩
    constructor
    · exact ⟨superAdmin, hstored, by rw [hasRole_of_top htop, hmember]⟩
    · intro user huser
      rw [hasRole_of_top htop] at huser
      exact Option.some.inj huser
    · intro role
      exact loopWithin_done (ancestorRound_none htop)

theorem isMember_setMember (s : Store) (role role' : Symbol) (user user' : Address) (held : Bool) :
    (s.setMember role user held).isMember role' user' =
      if role' = role ∧ user' = user then held else s.isMember role' user' := by
  show (((s.roleMembers.insert role ((s.members role).insert user held)).lookup role').getD ∅
    |>.lookup
    user').getD false = _
  rw [Table.lookup_set]
  by_cases hrole : role' = role
  · rw [if_pos hrole, Option.getD_some, Table.lookup_set]
    by_cases huser : user' = user
    · rw [if_pos huser, if_pos ⟨hrole, huser⟩, Option.getD_some]
    · rw [if_neg huser, if_neg fun h => huser h.2, hrole]
      rfl
  · rw [if_neg hrole, if_neg fun h => hrole h.1]
    rfl

instance (env : Env me) (w : World Store) (caller : Address) : Decidable (Entitled env w caller) :=
  inferInstanceAs (Decidable (_ ∧ _))

/-- The step neither revokes the role of the super-admin from the super-admin nor puts it below
    another role, by a call that passes its checks. -/
def Spares (w : World Store) : Step me Entry → Prop
  | .call env (.revokeRole caller role user) => Entitled env w caller →
    w.store.roleExistsCheck role = true → ¬ (role = superRole ∧ w.store.superAdmin = some user)
  | .call env (.setRoleParent caller role parent) => Entitled env w caller →
    Allowed w.store role parent → role ≠ superRole
  | _ => True

theorem revokeRole_succeeds {env : Env me} {caller : Address} {role : Symbol} {user : Address}
    {w : World Store} (hcaller : Entitled env w caller)
    (hrole : w.store.roleExistsCheck role = true) :
    (revokeRole env caller role user).Succeeds w := by
  refine ⟨(), ?_⟩
  simp [revokeRole, revokeRoleInternal, hcaller.1, hcaller.2, hrole]

theorem setRoleParent_succeeds {env : Env me} {caller : Address} {role parent : Symbol}
    {w : World Store} (hcaller : Entitled env w caller) (h : Allowed w.store role parent) :
    (setRoleParent env caller role parent).Succeeds w := by
  obtain ⟨hrole, hparent, hne, hanswer⟩ := h
  refine ⟨(), ?_⟩
  simp [setRoleParent, hcaller.1, hcaller.2, hrole, hparent, hne, hanswer]

theorem spares_of_not_returns {w : World Store} {s : Step me Entry}
    (hfails : ∀ env c, s = .call env c → ¬ Returns env w c) : Spares w s := by
  cases s with
  | outside => trivial
  | call env c =>
    have hnot := hfails env c rfl
    cases c with
    | init => trivial
    | addAdmin => trivial
    | removeAdmin => trivial
    | createRole => trivial
    | grantRole => trivial
    | revokeRole =>
      intro hcaller hrole
      exact absurd (revokeRole_succeeds hcaller hrole) hnot
    | setRoleParent =>
      intro hcaller hallowed
      exact absurd (setRoleParent_succeeds hcaller hallowed) hnot

theorem rooted_setMember_iff {s : Store} (h : Rooted s) (role : Symbol) (user : Address)
    (held : Bool) : Rooted (s.setMember role user held) ↔
      (held = false → ¬ (role = superRole ∧ s.superAdmin = some user)) := by
  obtain ⟨htop, superAdmin, hstored, hmember⟩ := rooted_iff_top.mp h
  have hiff : Rooted (s.setMember role user held) ↔
      (s.setMember role user held).isMember superRole superAdmin = true := by
    rw [rooted_iff_top]
    constructor
    · rintro ⟨-, superAdmin', hstored', hmember'⟩
      obtain rfl : superAdmin = superAdmin' := Option.some.inj (hstored.symm.trans hstored')
      exact hmember'
    · intro hmember'
      exact ⟨htop, superAdmin, hstored, hmember'⟩
  rw [hiff, isMember_setMember]
  by_cases hwritten : superRole = role ∧ superAdmin = user
  · obtain ⟨rfl, rfl⟩ := hwritten
    rw [if_pos ⟨rfl, rfl⟩]
    cases held <;> simp [hstored]
  · rw [if_neg hwritten, hmember]
    refine iff_of_true rfl ?_
    rintro - ⟨rfl, huser⟩
    rw [hstored] at huser
    exact hwritten ⟨rfl, Option.some.inj huser⟩

/-- A call that returns leaves the role the protected root exactly when it spares it. -/
theorem rooted_done_iff {env : Env me} {w w' : World Store} {c : Entry} (h : Rooted w.store)
    (hdone : Done env w c w') : Rooted w'.store ↔ Spares w (.call env c) := by
  obtain ⟨htop, superAdmin, hstored, hmember⟩ := rooted_iff_top.mp h
  have hkept : ∀ s : Store, s.roleParent = w.store.roleParent → s.superAdmin = w.store.superAdmin →
      s.roleMembers = w.store.roleMembers → Rooted s := by
    intro s hparents hadmin hmembers
    refine rooted_iff_top.mpr ⟨?_, superAdmin, ?_, ?_⟩
    · unfold Store.getRoleParent
      rw [hparents]
      exact htop
    · rw [hadmin, hstored]
    · unfold Store.isMember Store.members
      rw [hmembers]
      exact hmember
  cases hdone with
  | @init superAdmin' =>
    refine iff_of_true (rooted_iff_top.mpr ⟨htop, superAdmin', rfl, ?_⟩) trivial
    rw [isMember_setMember, if_pos ⟨rfl, rfl⟩]
  | addAdmin => exact iff_of_true (hkept _ rfl rfl rfl) trivial
  | addAdminAgain => exact iff_of_true h trivial
  | removeAdmin => exact iff_of_true (hkept _ rfl rfl rfl) trivial
  | removeAdminAgain => exact iff_of_true h trivial
  | createRole => exact iff_of_true (hkept _ rfl rfl rfl) trivial
  | @grantRole caller role user =>
    refine iff_of_true ((rooted_setMember_iff h role user true).mpr ?_) trivial
    intro hfalse
    cases hfalse
  | @revokeRole caller role user events hcaller hrole =>
    refine (rooted_setMember_iff h role user false).trans ?_
    constructor
    · intro hspares _ _
      exact hspares rfl
    · intro hspares _
      exact hspares hcaller hrole
  | @setRoleParent caller role parent events hcaller hrole hparent hne hanswer =>
    have hallowed : Allowed w.store role parent := ⟨hrole, hparent, hne, hanswer⟩
    constructor
    · rintro hrooted - - rfl
      have habove := (rooted_iff_top.mp hrooted).1
      rw [getRoleParent_set, Function.update_self] at habove
      cases habove
    · intro hspares
      refine rooted_iff_top.mpr ⟨?_, superAdmin, hstored, hmember⟩
      rw [getRoleParent_set, Function.update_of_ne (hspares hcaller hallowed).symm]
      exact htop

theorem rooted_step_iff {w : World Store} (h : Rooted w.store) (s : Step me Entry) :
    Rooted (step s w).store ↔ Spares w s := by
  rcases step_cases s w with ⟨env, c, rfl, -, hdone⟩ | ⟨hfails, hstore, -⟩
  · exact rooted_done_iff h hdone
  · rw [hstore]
    exact iff_of_true h (spares_of_not_returns hfails)

/-- The state after `initialize` in a fresh contract. -/
def initialized (superAdmin : Address) (tokens : TokenLedger) : World Store :=
  (init superAdmin).commit (deployed tokens)

theorem rooted_initialized (superAdmin : Address) (tokens : TokenLedger) :
    Rooted (initialized superAdmin tokens).store := by
  refine rooted_iff_top.mpr ⟨Finmap.lookup_empty _, superAdmin, rfl, ?_⟩
  show ((Store.empty.register superRole).setMember superRole superAdmin true).isMember superRole
    superAdmin = true
  rw [isMember_setMember, if_pos ⟨rfl, rfl⟩]

/-- After `initialize` the role of the super-admin stays the protected root in a run exactly when
    every step spares it. -/
theorem rooted_iff (superAdmin : Address) (tokens : TokenLedger) (steps : List (Step me Entry)) :
    (∀ x ∈ trace step (initialized superAdmin tokens) steps, Rooted (step x.2 x.1).store) ↔
      ∀ x ∈ trace step (initialized superAdmin tokens) steps, Spares x.1 x.2 :=
  trace_forall_iff (P := fun _ => True) (N := fun _ _ => True)
    (G := fun w : World Store => Rooted w.store) (fun _ _ _ _ => trivial)
    (fun _ s _ _ h => rooted_step_iff h s) trivial (rooted_initialized superAdmin tokens)
    fun _ _ => trivial

/-- The super-admin revokes its own role. -/
def revokedRun : List (Step ⟨0⟩ Entry) :=
  [.call (.signedBy ⟨0⟩ 1 1 [⟨1⟩]) (.revokeRole ⟨1⟩ superRole ⟨1⟩)]

/-- The super-admin creates the role ops, grants it to `⟨2⟩` and puts its own role below it. -/
def loweredRun : List (Step ⟨0⟩ Entry) :=
  [.call (.signedBy ⟨0⟩ 1 1 [⟨1⟩]) (.createRole ⟨1⟩ "ops"),
    .call (.signedBy ⟨0⟩ 1 1 [⟨1⟩]) (.grantRole ⟨1⟩ "ops" ⟨2⟩),
    .call (.signedBy ⟨0⟩ 1 1 [⟨1⟩]) (.setRoleParent ⟨1⟩ superRole "ops")]

/-- After the one run the super-admin does not hold its role; after the other `⟨2⟩`, who is no
    direct member, does. -/
theorem not_rooted :
    ¬ Rooted (run step (initialized ⟨1⟩ (.ofList [])) revokedRun).store ∧
      ¬ Rooted (run step (initialized ⟨1⟩ (.ofList [])) loweredRun).store := by
  constructor
  · intro h
    obtain ⟨superAdmin, hstored, hheld⟩ := h.held
    have hadmin : (run step (initialized ⟨1⟩ (.ofList [])) revokedRun).store.superAdmin =
        some ⟨1⟩ := by
      decide
    obtain rfl := Option.some.inj (hadmin.symm.trans hstored)
    revert hheld
    decide
  · intro h
    have hmember := h.direct ⟨2⟩ (by decide)
    revert hmember
    decide

end Trellis.AccessControl
