import Trellis.AccessControl.Hierarchy

/-!
# The enumerations of the access control contract

The listings for off-chain readers are kept beside what they list. A member or an admin that is
removed stays in its map with the flag `false`; a role has a flag and an entry in a list. The
contract guards `initialize` against no second call, which would list the role of the super-admin
twice.

Results:
* `mem_getRoleMembers_iff`, `mem_getAllAdmins_iff`: the listings of a map have its keys set to
  `true`.
* `isMember_reached`: a membership is what the last grant or revocation has made of it.
* `registered_step`, `guarded_step`, `distinct_step`: what a step keeps.
* `enumerations_reached`: what the listings hold in the states of a run with one `initialize`.
-/

namespace Trellis.AccessControl

open Exec

variable {me : Address}

/-! ## What is listed -/

theorem listed_nodup (m : Table Address Bool) : (listed m).Nodup :=
  (Finset.sort_nodup _ _).filter _

theorem mem_listed_iff {m : Table Address Bool} {addr : Address} :
    addr ∈ listed m ↔ (m.lookup addr).getD false = true := by
  unfold listed
  rw [List.mem_filter, Finset.mem_sort]
  refine and_iff_right_of_imp ?_
  intro h
  cases hentry : m.lookup addr with
  | none =>
    rw [hentry] at h
    cases h
  | some held => exact Table.mem_keys_of_lookup hentry

theorem mem_getRoleMembers_iff {s : Store} {role : Symbol} {user : Address} :
    user ∈ s.getRoleMembers role ↔ s.isMember role user = true := mem_listed_iff

theorem mem_getAllAdmins_iff {s : Store} {who : Address} :
    who ∈ s.getAllAdmins ↔ s.isAdmin who = true := mem_listed_iff

/-! ## Memberships -/

/-- What a step makes of the membership of `user` in `role`: a successful grant sets it, and so does
    `initialize`, which grants the super-admin its role; a successful revocation clears it. -/
def membership (role : Symbol) (user : Address) (w : World Store) : Step me Entry → Option Bool
  | .call _ (.init superAdmin) =>
    if role = superRole ∧ user = superAdmin then
      ((init superAdmin).value w).map fun _ => true
    else none
  | .call env (.grantRole caller role' user') =>
    if role = role' ∧ user = user' then
      ((grantRole env caller role' user').value w).map fun _ => true
    else none
  | .call env (.revokeRole caller role' user') =>
    if role = role' ∧ user = user' then
      ((revokeRole env caller role' user').value w).map fun _ => false
    else none
  | _ => none

theorem membership_of_not_returns {role : Symbol} {user : Address} {w : World Store}
    {s : Step me Entry} (hfails : ∀ env c, s = .call env c → ¬ Returns env w c) :
    membership role user w s = none := by
  cases s with
  | outside => rfl
  | call env c =>
    have hnot := hfails env c rfl
    cases c with
    | init superAdmin =>
      have hvalue : (init superAdmin).value w = none := value_eq_none.mpr hnot
      simp [membership, hvalue]
    | grantRole caller role' user' =>
      have hvalue : (grantRole env caller role' user').value w = none := value_eq_none.mpr hnot
      simp [membership, hvalue]
    | revokeRole caller role' user' =>
      have hvalue : (revokeRole env caller role' user').value w = none := value_eq_none.mpr hnot
      simp [membership, hvalue]
    | addAdmin => rfl
    | removeAdmin => rfl
    | createRole => rfl
    | setRoleParent => rfl

theorem isMember_step (role : Symbol) (user : Address) (w : World Store) (s : Step me Entry) :
    (step s w).store.isMember role user =
      (membership role user w s).elim (w.store.isMember role user) id := by
  have hwritten : ∀ {role' : Symbol} {user' : Address} {held : Bool}
      {x : Invocation Store AccessControlError Unit} {s' : Store},
      x.Succeeds w → s'.roleMembers = w.store.roleMembers →
        (s'.setMember role' user' held).isMember role user =
        (if role = role' ∧ user = user' then (x.value w).map fun _ => held else none).elim
          (w.store.isMember role user) id := by
    intro role' user' held x s' hsucceeds hsame
    obtain ⟨_, _, hok⟩ := hsucceeds
    rw [isMember_setMember, value_of_ok hok]
    split_ifs with hthis
    · rfl
    · show s'.isMember role user = w.store.isMember role user
      unfold Store.isMember Store.members
      rw [hsame]
  rcases step_cases s w with ⟨env, c, rfl, hreturns, hdone⟩ | ⟨hfails, hstore, -⟩
  · generalize step (.call env c) w = w' at hdone ⊢
    cases hdone with
    | init => exact hwritten hreturns rfl
    | grantRole => exact hwritten hreturns rfl
    | revokeRole => exact hwritten hreturns rfl
    | addAdmin => rfl
    | addAdminAgain => rfl
    | removeAdmin => rfl
    | removeAdminAgain => rfl
    | createRole => rfl
    | setRoleParent => rfl
  · rw [membership_of_not_returns hfails, hstore]
    rfl

/-- In every reachable state the members are those whose last grant or revocation was a grant. -/
theorem isMember_reached (role : Symbol) (user : Address) (tokens : TokenLedger)
    (steps : List (Step me Entry)) :
    (run step (deployed tokens) steps).store.isMember role user = true ↔
      (yields step (membership role user) (deployed tokens) steps).getLast? = some true := by
  have hlast := run_eq_last (f := fun w : World Store => w.store.isMember role user)
    (fun w s => isMember_step role user w s) (deployed tokens) steps
  have hstart : (deployed tokens).store.isMember role user = false := rfl
  rw [hlast, hstart]
  cases (yields step (membership role user) (deployed tokens) steps).getLast? with
  | none => simp
  | some held => simp

/-! ## Roles and admins -/

theorem mem_getAllRoles_register {s : Store} {role role' : Symbol} :
    role' ∈ (s.register role).getAllRoles ↔ role' ∈ s.getAllRoles ∨ role' = role := by
  show role' ∈ s.getAllRoles ++ [role] ↔ _
  rw [List.mem_append, List.mem_singleton]

theorem roleExistsCheck_register {s : Store} {role role' : Symbol} :
    (s.register role).roleExistsCheck role' = true ↔
      s.roleExistsCheck role' = true ∨ role' = role := by
  show ((s.roleExists.insert role true).lookup role').getD false = true ↔ _
  rw [Table.lookup_set]
  split_ifs with h
  · exact iff_of_true rfl (.inr h)
  · rw [or_iff_left h]
    rfl

theorem isAdmin_setFlag (s : Store) (who who' : Address) (held : Bool) :
    (s.setFlag who held).isAdmin who' = if who' = who then held else s.isAdmin who' := by
  show (((s.admins.getD ∅).insert who held).lookup who').getD false = _
  rw [Table.lookup_set]
  split_ifs
  · rfl
  · rfl

/-- The flags and the list of the roles agree, and a role has members or a parent, or is a parent,
    only once it is registered. -/
structure Registered (s : Store) : Prop where
  listed (role : Symbol) : role ∈ s.getAllRoles ↔ s.roleExistsCheck role = true
  of_member (role : Symbol) (user : Address) :
    s.isMember role user = true → s.roleExistsCheck role = true
  of_parent (role parent : Symbol) :
    s.getRoleParent role = some parent →
      s.roleExistsCheck role = true ∧ s.roleExistsCheck parent = true

namespace Registered

variable {s : Store}

theorem register (h : Registered s) (role : Symbol) : Registered (s.register role) := by
  have hkept : ∀ role', s.roleExistsCheck role' = true →
      (s.register role).roleExistsCheck role' = true :=
    fun role' hrole => roleExistsCheck_register.mpr (.inl hrole)
  constructor
  · intro role'
    rw [mem_getAllRoles_register, roleExistsCheck_register, h.listed]
  · intro role' user hmember
    exact hkept role' (h.of_member role' user hmember)
  · intro role' parent hparent
    obtain ⟨hrole, hexists⟩ := h.of_parent role' parent hparent
    exact ⟨hkept role' hrole, hkept parent hexists⟩

theorem setMember (h : Registered s) {role : Symbol} (hrole : s.roleExistsCheck role = true)
    (user : Address) (held : Bool) : Registered (s.setMember role user held) := by
  constructor
  · exact h.listed
  · intro role' user' hmember
    rw [isMember_setMember] at hmember
    split_ifs at hmember with hthis
    · rw [hthis.1]
      exact hrole
    · exact h.of_member role' user' hmember
  · exact h.of_parent

theorem setParent (h : Registered s) {role parent : Symbol} (hrole : s.roleExistsCheck role = true)
    (hparent : s.roleExistsCheck parent = true) :
    Registered { s with roleParent := s.roleParent.insert role parent } := by
  constructor
  · exact h.listed
  · exact h.of_member
  · intro role' parent' hedge
    rw [getRoleParent_set, Function.update_apply] at hedge
    split_ifs at hedge with hthis
    · rw [hthis, ← Option.some.inj hedge]
      exact ⟨hrole, hparent⟩
    · exact h.of_parent role' parent' hedge

end Registered

theorem registered_step {w : World Store} (h : Registered w.store) (s : Step me Entry) :
    Registered (step s w).store := by
  rcases step_cases s w with ⟨env, c, rfl, -, hdone⟩ | ⟨-, hstore, -⟩
  · generalize step (.call env c) w = w' at hdone ⊢
    cases hdone with
    | @init superAdmin =>
      have hwritten : Registered { w.store with
          superAdmin := some superAdmin
          admins := some ((∅ : Table Address Bool).insert superAdmin true) } :=
        ⟨h.listed, h.of_member, h.of_parent⟩
      exact (hwritten.register superRole).setMember (roleExistsCheck_register.mpr (.inr rfl)) _ _
    | addAdmin => exact ⟨h.listed, h.of_member, h.of_parent⟩
    | addAdminAgain => exact h
    | removeAdmin => exact ⟨h.listed, h.of_member, h.of_parent⟩
    | removeAdminAgain => exact h
    | @createRole caller role => exact h.register role
    | setRoleParent _ _ hrole hparent => exact h.setParent hrole hparent
    | grantRole _ _ hrole => exact h.setMember hrole _ _
    | revokeRole _ _ hrole => exact h.setMember hrole _ _
  · rw [hstore]
    exact h

theorem registered_empty : Registered Store.empty := by
  constructor
  · intro role
    exact iff_of_false List.not_mem_nil Bool.false_ne_true
  · intro role user hmember
    cases hmember
  · intro role parent hparent
    cases hparent

/-- The super-admin is an admin. -/
def Guarded (s : Store) : Prop :=
  ∀ superAdmin, s.superAdmin = some superAdmin → s.isAdmin superAdmin = true

theorem guarded_step {w : World Store} (h : Guarded w.store) (s : Step me Entry) :
    Guarded (step s w).store := by
  rcases step_cases s w with ⟨env, c, rfl, -, hdone⟩ | ⟨-, hstore, -⟩
  · generalize step (.call env c) w = w' at hdone ⊢
    cases hdone with
    | @init superAdmin =>
      intro superAdmin' hstored
      obtain rfl : superAdmin = superAdmin' := Option.some.inj hstored
      show (((∅ : Table Address Bool).insert superAdmin true).lookup superAdmin).getD false = true
      rw [Table.lookup_set, if_pos rfl, Option.getD_some]
    | addAdmin =>
      intro superAdmin hstored
      rw [isAdmin_setFlag]
      split_ifs
      · rfl
      · exact h superAdmin hstored
    | addAdminAgain => exact h
    | removeAdmin _ superAdmin' _ hstored' hne =>
      intro superAdmin hstored
      have hkeeper : superAdmin = superAdmin' := Option.some.inj (hstored.symm.trans hstored')
      rw [isAdmin_setFlag, if_neg fun htarget => hne (htarget.symm.trans hkeeper)]
      exact h superAdmin hstored
    | removeAdminAgain => exact h
    | createRole => exact h
    | setRoleParent => exact h
    | grantRole => exact h
    | revokeRole => exact h
  · rw [hstore]
    exact h

/-! ## One `initialize` -/

/-- The step is a call of `initialize`. -/
def initializes : Step me Entry → Bool
  | .call _ (.init _) => true
  | _ => false

theorem init_succeeds (superAdmin : Address) (w : World Store) : (init superAdmin).Succeeds w := by
  refine ⟨(), ?_⟩
  simp [init, registerRoleInternal, grantRoleInternal]

/-- Without an admin nothing but `initialize` writes. -/
theorem empty_step {w : World Store} (h : w.store = Store.empty) {s : Step me Entry}
    (hs : initializes s = false) : (step s w).store = Store.empty := by
  have hnobody : ∀ {env : Env me} {caller : Address}, ¬ Entitled env w caller := by
    intro env caller hcaller
    have hadmin := hcaller.1
    rw [h] at hadmin
    cases hadmin
  rcases step_cases s w with ⟨env, c, rfl, -, hdone⟩ | ⟨-, hstore, -⟩
  · generalize step (.call env c) w = w' at hdone ⊢
    cases hdone with
    | init => cases hs
    | addAdmin _ hcaller => exact absurd hcaller hnobody
    | addAdminAgain hcaller => exact absurd hcaller hnobody
    | removeAdmin _ _ hcaller => exact absurd hcaller hnobody
    | removeAdminAgain _ hcaller => exact absurd hcaller hnobody
    | createRole _ hcaller => exact absurd hcaller hnobody
    | setRoleParent _ hcaller => exact absurd hcaller hnobody
    | grantRole _ hcaller => exact absurd hcaller hnobody
    | revokeRole _ hcaller => exact absurd hcaller hnobody
  · rw [hstore, h]

/-- The first `initialize` finds the storage of a fresh contract. -/
theorem empty_of_initializes {tokens : TokenLedger} {steps : List (Step me Entry)}
    (hone : steps.countP initializes ≤ 1) {x : World Store × Step me Entry}
    (hx : x ∈ trace step (deployed tokens) steps) (hinit : initializes x.2 = true) :
    x.1.store = Store.empty := by
  obtain ⟨pre, post, hsteps, hstate⟩ := mem_trace_iff.mp hx
  rw [hsteps, List.countP_append, List.countP_cons_of_pos hinit] at hone
  have hnone : pre.countP initializes = 0 := by omega
  rw [hstate]
  refine run_induct_of_trace (P := fun w : World Store => w.store = Store.empty)
    (Q := fun _ s => initializes s = false) (fun w s h hs => empty_step h hs) rfl ?_
  intro y hy
  exact Bool.eq_false_of_not_eq_true (List.countP_eq_zero.mp hnone y.2 (mem_of_mem_trace hy))

theorem nodup_register {s : Store} (h : s.getAllRoles.Nodup) {role : Symbol}
    (hnew : role ∉ s.getAllRoles) : (s.register role).getAllRoles.Nodup := by
  show (s.getAllRoles ++ [role]).Nodup
  refine h.append (List.nodup_singleton role) ?_
  exact List.disjoint_singleton.mpr hnew

theorem nodup_step {w : World Store} (hregistered : Registered w.store)
    (h : w.store.getAllRoles.Nodup) {s : Step me Entry}
    (hs : initializes s = true → w.store = Store.empty) :
    (step s w).store.getAllRoles.Nodup := by
  rcases step_cases s w with ⟨env, c, rfl, -, hdone⟩ | ⟨-, hstore, -⟩
  · generalize step (.call env c) w = w' at hdone ⊢
    cases hdone with
    | init =>
      refine nodup_register h ?_
      show superRole ∉ w.store.getAllRoles
      rw [hs rfl]
      exact List.not_mem_nil
    | createRole _ _ hnew =>
      refine nodup_register h ?_
      rw [hregistered.listed, hnew]
      exact Bool.false_ne_true
    | addAdmin => exact h
    | addAdminAgain => exact h
    | removeAdmin => exact h
    | removeAdminAgain => exact h
    | setRoleParent => exact h
    | grantRole => exact h
    | revokeRole => exact h
  · rw [hstore]
    exact h

theorem superAdmin_step (w : World Store) (s : Step me Entry) :
    (step s w).store.superAdmin ≠ none ↔ w.store.superAdmin ≠ none ∨ initializes s = true := by
  rcases step_cases s w with ⟨env, c, rfl, -, hdone⟩ | ⟨hfails, hstore, -⟩
  · generalize step (.call env c) w = w' at hdone ⊢
    cases hdone with
    | init => exact iff_of_true (Option.some_ne_none _) (.inr rfl)
    | addAdmin => exact (or_iff_left Bool.false_ne_true).symm
    | addAdminAgain => exact (or_iff_left Bool.false_ne_true).symm
    | removeAdmin => exact (or_iff_left Bool.false_ne_true).symm
    | removeAdminAgain => exact (or_iff_left Bool.false_ne_true).symm
    | createRole => exact (or_iff_left Bool.false_ne_true).symm
    | setRoleParent => exact (or_iff_left Bool.false_ne_true).symm
    | grantRole => exact (or_iff_left Bool.false_ne_true).symm
    | revokeRole => exact (or_iff_left Bool.false_ne_true).symm
  · have hnot : initializes s ≠ true := by
      intro hinit
      cases s with
      | outside => cases hinit
      | call env c =>
        cases c with
        | init superAdmin => exact hfails env _ rfl (init_succeeds superAdmin w)
        | _ => cases hinit
    rw [hstore, or_iff_left hnot]

/-- What the listings hold; `granted role user` says that the last grant or revocation of the role
    for the user was a grant. -/
structure Enumerated (granted : Symbol → Address → Prop) (s : Store) : Prop where
  roles_nodup : s.getAllRoles.Nodup
  mem_roles (role : Symbol) : role ∈ s.getAllRoles ↔ s.roleExistsCheck role = true
  of_members (role : Symbol) : s.getRoleMembers role ≠ [] → s.roleExistsCheck role = true
  of_parent (role : Symbol) : s.getRoleParent role ≠ none → s.roleExistsCheck role = true
  members_nodup (role : Symbol) : (s.getRoleMembers role).Nodup
  mem_members (role : Symbol) (user : Address) : user ∈ s.getRoleMembers role ↔ granted role user
  admins_nodup : s.getAllAdmins.Nodup
  mem_admins (who : Address) : who ∈ s.getAllAdmins ↔ s.isAdmin who = true

/-- In a run with one `initialize` the roles are listed once each, and so are those that are
    used. -/
theorem registered_reached {tokens : TokenLedger} {steps : List (Step me Entry)}
    (hone : steps.countP initializes ≤ 1) :
    Registered (run step (deployed tokens) steps).store ∧
      (run step (deployed tokens) steps).store.getAllRoles.Nodup := by
  refine run_induct_of_trace
    (P := fun w : World Store => Registered w.store ∧ w.store.getAllRoles.Nodup)
    (Q := fun w s => initializes s = true → w.store = Store.empty) ?_ ?_ ?_
  · rintro w s ⟨hregistered, hnodup⟩ hs
    exact ⟨registered_step hregistered s, nodup_step hregistered hnodup hs⟩
  · exact ⟨registered_empty, List.nodup_nil⟩
  · intro x hx
    exact empty_of_initializes hone hx

/-- After an `initialize` there is a super-admin, who is an admin. -/
theorem exists_superAdmin {tokens : TokenLedger} {steps : List (Step me Entry)}
    (hinit : ∃ s ∈ steps, initializes s = true) : ∃ superAdmin,
      (run step (deployed tokens) steps).store.superAdmin = some superAdmin ∧
        superAdmin ∈ (run step (deployed tokens) steps).store.getAllAdmins := by
  have hguarded : Guarded (run step (deployed tokens) steps).store :=
    run_induct (P := fun w : World Store => Guarded w.store) (fun w s h => guarded_step h s)
      (fun _ hnone => by cases hnone) steps
  have hsome : (run step (deployed tokens) steps).store.superAdmin ≠ none := by
    rw [run_iff_history (P := fun w : World Store => w.store.superAdmin ≠ none) superAdmin_step]
    obtain ⟨s, hs, hinit⟩ := hinit
    obtain ⟨pre, post, rfl⟩ := List.append_of_mem hs
    exact .inr ⟨(run step (deployed tokens) pre, s), mem_trace_iff.mpr ⟨pre, post, rfl, rfl⟩, hinit⟩
  obtain ⟨superAdmin, hstored⟩ := Option.ne_none_iff_exists'.mp hsome
  exact ⟨superAdmin, hstored, mem_getAllAdmins_iff.mpr (hguarded superAdmin hstored)⟩

/-- In every state of a run with one `initialize` the listings are exact, and from `initialize` on
    there is a super-admin, who is listed as an admin. -/
theorem enumerations_reached (tokens : TokenLedger) (steps : List (Step me Entry))
    (hone : steps.countP initializes ≤ 1) :
    Enumerated (fun role user =>
        (yields step (membership role user) (deployed tokens) steps).getLast? = some true)
      (run step (deployed tokens) steps).store ∧
    (steps.countP initializes = 1 → ∃ superAdmin,
      (run step (deployed tokens) steps).store.superAdmin = some superAdmin ∧
        superAdmin ∈ (run step (deployed tokens) steps).store.getAllAdmins) := by
  obtain ⟨hregistered, hnodup⟩ := @registered_reached me tokens steps hone
  refine ⟨?_, ?_⟩
  · constructor
    · exact hnodup
    · exact hregistered.listed
    · intro role hmembers
      obtain ⟨user, huser⟩ := List.exists_mem_of_ne_nil _ hmembers
      exact hregistered.of_member role user (mem_getRoleMembers_iff.mp huser)
    · intro role hparent
      obtain ⟨parent, hparent⟩ := Option.ne_none_iff_exists'.mp hparent
      exact (hregistered.of_parent role parent hparent).1
    · intro role
      exact listed_nodup _
    · intro role user
      rw [mem_getRoleMembers_iff]
      exact isMember_reached role user tokens steps
    · exact listed_nodup _
    · intro who
      exact mem_getAllAdmins_iff
  · intro hcount
    exact exists_superAdmin (List.countP_pos_iff.mp (hcount ▸ Nat.one_pos))

/-- The super-admin creates the role ops and grants it to `⟨2⟩`, revokes it and grants it again. -/
def staffedRun : List (Step ⟨0⟩ Entry) :=
  [.call (.signedBy ⟨0⟩ 1 1 [⟨1⟩]) (.init ⟨1⟩),
    .call (.signedBy ⟨0⟩ 1 1 [⟨1⟩]) (.createRole ⟨1⟩ "ops"),
    .call (.signedBy ⟨0⟩ 1 1 [⟨1⟩]) (.grantRole ⟨1⟩ "ops" ⟨2⟩),
    .call (.signedBy ⟨0⟩ 1 1 [⟨1⟩]) (.revokeRole ⟨1⟩ "ops" ⟨2⟩),
    .call (.signedBy ⟨0⟩ 1 1 [⟨1⟩]) (.grantRole ⟨1⟩ "ops" ⟨2⟩)]

theorem enumerations_staffed :
    (run step (deployed (.ofList [])) staffedRun).store.getAllRoles.Nodup ∧
      ⟨2⟩ ∈ (run step (deployed (.ofList [])) staffedRun).store.getRoleMembers "ops" := by
  have hlisted := (enumerations_reached (.ofList []) staffedRun (by decide)).1
  exact ⟨hlisted.roles_nodup, (hlisted.mem_members "ops" ⟨2⟩).mpr (by decide)⟩

end Trellis.AccessControl
