import Trellis.AccessControl.Enumerations
import Trellis.Shared.EventLog

/-!
# The events of the access control contract

Every call that changes the storage publishes one event, which names the caller that was let
through. `enter` reads an event as the change that it stands for, and refuses one that the contract
would not have published: from a caller that the events so far do not make an admin, about a role
that they do not register, or with a parent that closes a cycle.

The event of `initialize` is that of a new role; it is told from the others by the role `super`,
which an admin cannot create.

Results:
* `exec_tells`: what a call publishes is entered, and leads to the storage after the call.
* `storage_from_events`: the whole storage can be rebuilt from the events.
-/

namespace Trellis.AccessControl

open Exec

variable {me : Address}

/-! ## Reading the events -/

/-- The storage after `initialize`. -/
def Store.initialized (s : Store) (superAdmin : Address) : Store :=
  Store.setMember (Store.register { s with
    superAdmin := some superAdmin
    admins :=
      some ((∅ : Table Address Bool).insert superAdmin true) } superRole) superRole superAdmin true

/-- The storage after what the event stands for. -/
def enter (s : Store) (e : Event) : Option Store :=
  if e.topics = ["ac_cr"] then
    match e.data with
    | [.symbol role, .address caller] =>
      if role = superRole then some (s.initialized caller)
      else checked (s.isAdmin caller = true ∧ s.roleExistsCheck role = false) (s.register role)
    | _ => none
  else if e.topics = ["ac_ad"] then
    match e.data with
    | [.address caller, .address newAdmin] =>
      checked (s.isAdmin caller = true ∧ s.isAdmin newAdmin = false) (s.setFlag newAdmin true)
    | _ => none
  else if e.topics = ["ac_ar"] then
    match e.data with
    | [.address caller, .address target] =>
      checked (s.isAdmin caller = true ∧ s.isAdmin target = true ∧ s.superAdmin ≠ some target)
        (s.setFlag target false)
    | _ => none
  else if e.topics = ["ac_ps"] then
    match e.data with
    | [.symbol role, .symbol parent, .address caller] =>
      checked (s.isAdmin caller = true ∧ s.roleExistsCheck role = true ∧
          s.roleExistsCheck parent = true ∧ role ≠ parent ∧ s.hasAncestor parent role = some false)
        { s with roleParent := s.roleParent.insert role parent }
    | _ => none
  else if e.topics = ["ac_gr"] then
    match e.data with
    | [.symbol role, .address user, .address caller] =>
      checked (s.isAdmin caller = true ∧ s.roleExistsCheck role = true) (s.setMember role user true)
    | _ => none
  else if e.topics = ["ac_rv"] then
    match e.data with
    | [.symbol role, .address user, .address caller] =>
      checked (s.isAdmin caller = true ∧ s.roleExistsCheck role = true)
        (s.setMember role user false)
    | _ => none
  else none

/-! ## What a call publishes -/

/-- What the events grew by leads from the storage of `w` to that of `w'`. -/
abbrev EventsTell (w w' : World Store) : Prop := Recorded enter World.events World.store w w'

/-- There are admins only once the role `super` is registered. -/
def SuperFirst (w : World Store) : Prop :=
  ∀ who, w.store.isAdmin who = true → w.store.roleExistsCheck superRole = true

section

variable {env : Env me} {w w' : World Store} {caller : Address} {role : Symbol} {u : Unit}

theorem init_tells {superAdmin : Address} (h : init superAdmin w = .ok u w') : EventsTell w w' := by
  simp [init, registerRoleInternal, grantRoleInternal] at h
  obtain rfl := h
  exact .entry rfl rfl

theorem addAdmin_tells {newAdmin : Address} (h : addAdmin env caller newAdmin w = .ok u w') :
    EventsTell w w' := by
  simp [addAdmin] at h
  obtain ⟨hadmin, -, ⟨hnew, rfl⟩ | ⟨-, rfl⟩⟩ := h
  · exact .entry rfl (checked_of ⟨hadmin, hnew⟩ _)
  · exact .same rfl rfl

theorem removeAdmin_tells {target : Address} (h : removeAdmin env caller target w = .ok u w') :
    EventsTell w w' := by
  simp [removeAdmin] at h
  obtain ⟨hadmin, -, superAdmin, hstored, hne, ⟨hold, rfl⟩ | ⟨-, rfl⟩⟩ := h
  · refine .entry rfl (checked_of ⟨hadmin, hold, ?_⟩ _)
    rw [hstored]
    exact fun hsame => hne (Option.some.inj hsame).symm
  · exact .same rfl rfl

theorem createRole_tells (hsuper : SuperFirst w) (h : createRole env caller role w = .ok u w') :
    EventsTell w w' := by
  simp [createRole, registerRoleInternal] at h
  obtain ⟨hadmin, -, hnew, rfl⟩ := h
  have hne : role ≠ superRole := by
    rintro rfl
    rw [hsuper caller hadmin] at hnew
    cases hnew
  exact .entry rfl ((if_neg hne).trans (checked_of ⟨hadmin, hnew⟩ _))

theorem setRoleParent_tells {parent : Symbol}
    (h : setRoleParent env caller role parent w = .ok u w') : EventsTell w w' := by
  simp [setRoleParent] at h
  obtain ⟨hadmin, -, hrole, hparent, hne, hacyclic, rfl⟩ := h
  exact .entry rfl (checked_of ⟨hadmin, hrole, hparent, hne, hacyclic⟩ _)

theorem grantRole_tells {user : Address} (h : grantRole env caller role user w = .ok u w') :
    EventsTell w w' := by
  simp [grantRole, grantRoleInternal] at h
  obtain ⟨hadmin, -, hrole, rfl⟩ := h
  exact .entry rfl (checked_of ⟨hadmin, hrole⟩ _)

theorem revokeRole_tells {user : Address} (h : revokeRole env caller role user w = .ok u w') :
    EventsTell w w' := by
  simp [revokeRole, revokeRoleInternal] at h
  obtain ⟨hadmin, -, hrole, rfl⟩ := h
  exact .entry rfl (checked_of ⟨hadmin, hrole⟩ _)

end

/-- What a call publishes is entered, and leads to the storage after the call. -/
theorem exec_tells (env : Env me) (c : Entry) (w : World Store) (h : SuperFirst w) :
    EventsTell w (exec env c w) := by
  cases c with
  | init => exact commit_induct (.same rfl rfl) fun _ _ => init_tells
  | addAdmin => exact commit_induct (.same rfl rfl) fun _ _ => addAdmin_tells
  | removeAdmin => exact commit_induct (.same rfl rfl) fun _ _ => removeAdmin_tells
  | createRole => exact commit_induct (.same rfl rfl) fun _ _ => createRole_tells h
  | setRoleParent => exact commit_induct (.same rfl rfl) fun _ _ => setRoleParent_tells
  | grantRole => exact commit_induct (.same rfl rfl) fun _ _ => grantRole_tells
  | revokeRole => exact commit_induct (.same rfl rfl) fun _ _ => revokeRole_tells

/-! ## Runs from deployment -/

/-- Before `initialize` no caller passes as an admin, and it registers the role. -/
theorem superFirst_step {w : World Store} (h : SuperFirst w) (s : Step me Entry) :
    SuperFirst (step s w) := by
  rcases step_cases s w with ⟨env, c, rfl, -, hdone⟩ | ⟨-, hstore, -⟩
  · generalize step (.call env c) w = w' at hdone
    cases hdone with
    | init events =>
      intro who _
      exact roleExistsCheck_register.mpr (.inr rfl)
    | createRole events hcaller =>
      intro who _
      exact roleExistsCheck_register.mpr (.inl (h _ hcaller.1))
    | addAdmin events hcaller => exact fun _ _ => h _ hcaller.1
    | addAdminAgain hcaller => exact fun _ _ => h _ hcaller.1
    | removeAdmin events superAdmin hcaller => exact fun _ _ => h _ hcaller.1
    | removeAdminAgain superAdmin hcaller => exact fun _ _ => h _ hcaller.1
    | setRoleParent events hcaller => exact fun _ _ => h _ hcaller.1
    | grantRole events hcaller => exact fun _ _ => h _ hcaller.1
    | revokeRole events hcaller => exact fun _ _ => h _ hcaller.1
  · intro who
    rw [hstore]
    exact h who

/-- In every state that a run from deployment reaches, whoever called what and however often the
    contract was initialised: no event is refused, and the events replay to the whole storage, that
    is to the admins, the roles, their members and their parents. So every admin, role, membership
    and parent goes back to an event that names an address which the events before it make an admin,
    or to an `initialize`. -/
theorem storage_from_events (tokens : TokenLedger) (steps : List (Step me Entry)) :
    replay enter Store.empty (run step (deployed tokens) steps).events =
      some (run step (deployed tokens) steps).store :=
  replay_reached (P := SuperFirst) (fun _ s h => superFirst_step h s) store_outsideTransfer
    exec_tells Store.empty
    tokens (fun _ hwho => by cases hwho) steps

end Trellis.AccessControl
