import Trellis.Lib.Loop
import Trellis.Lib.Table
import Trellis.Shared.World

/-!
# Access control contract

Model of contracts/access-control/src/lib.rs: admins, roles, their direct members and the parent of
a role. A holder of the parent of a role satisfies the role.

Three functions walk up the parents. Each is a loop without a bound, given here by one round of it
(`membershipRound`, `ancestorRound`, `ancestorsRound`). A walk that goes on for more rounds than
there are parents never ends, so `hasRole`, `hasAncestor` and `getRoleAncestors` run one round more
than that, and are `none` for a walk that does not end; in the contract the budget of the invocation
ends it.

Results:
* `hasRole_eq_some_iff`: the bound on the rounds makes no difference.
* `exec_cases`: a call leaves the state alone, or it succeeds; `Done` says what it has checked then
  and which state it leaves.
* `step_cases`: the same for a step of the chain.
-/

namespace Trellis.AccessControl

open Exec

/-- `AccessControlError` (contracts/access-control/src/lib.rs:30–49). -/
inductive AccessControlError where
  | roleNotFound
  | roleAlreadyExists
  | alreadyMember
  | notMember
  | selfReference
  | cycleDetected
  | notAdmin
  | cannotRemoveSuperAdmin
  | invalidRole
  deriving DecidableEq, Repr

/-- The storage keys of the contract (contracts/access-control/src/lib.rs:57–70): `Admins`,
    `SuperAdmin`, `RoleParent(role)`, `RoleExists(role)`, `RoleMembers(role)`, and the list
    `all_roles`. -/
structure Store where
  admins : Option (Table Address Bool)
  superAdmin : Option Address
  roleParent : Table Symbol Symbol
  roleExists : Table Symbol Bool
  roleMembers : Table Symbol (Table Address Bool)
  allRoles : Option (List Symbol)

/-- The storage of a fresh contract. -/
def Store.empty : Store where
  admins := none
  superAdmin := none
  roleParent := ∅
  roleExists := ∅
  roleMembers := ∅
  allRoles := none

/-- Model of `is_admin` (contracts/access-control/src/lib.rs:126–133). -/
def Store.isAdmin (s : Store) (who : Address) : Bool := ((s.admins.getD ∅).lookup who).getD false

/-- Model of `role_exists`, which `role_exists_check` returns
    (contracts/access-control/src/lib.rs:405–410). -/
def Store.roleExistsCheck (s : Store) (role : Symbol) : Bool :=
  (s.roleExists.lookup role).getD false

/-- Model of `get_role_parent` (contracts/access-control/src/lib.rs:274–276). -/
def Store.getRoleParent (s : Store) (role : Symbol) : Option Symbol := s.roleParent.lookup role

/-- The members map of a role; every reader takes an absent map for an empty one. -/
def Store.members (s : Store) (role : Symbol) : Table Address Bool :=
  (s.roleMembers.lookup role).getD ∅

/-- `user` is a direct member of `role`. -/
def Store.isMember (s : Store) (role : Symbol) (user : Address) : Bool :=
  ((s.members role).lookup user).getD false

/-! ## The enumerations -/

/-- The loop of `get_role_members` and `get_all_admins` over a map: the keys that are set to
    `true`. -/
def listed (m : Table Address Bool) : List Address :=
  (m.keys.sort Address.Before).filter fun addr => (m.lookup addr).getD false

/-- Model of `get_role_members` (contracts/access-control/src/lib.rs:332–346). -/
def Store.getRoleMembers (s : Store) (role : Symbol) : List Address := listed (s.members role)

/-- Model of `get_all_roles` (contracts/access-control/src/lib.rs:365–372). -/
def Store.getAllRoles (s : Store) : List Symbol := s.allRoles.getD []

/-- Model of `get_all_admins` (contracts/access-control/src/lib.rs:375–389). -/
def Store.getAllAdmins (s : Store) : List Address := listed (s.admins.getD ∅)

/-! ## The walks -/

/-- One call of `has_role_recursive` (contracts/access-control/src/lib.rs:464–486), which returns or
    calls itself last. -/
def Store.membershipRound (s : Store) (user : Address) (role : Symbol) : Bool ⊕ Symbol :=
  if s.isMember role user = true then .inl true
  else match s.getRoleParent role with
    | some parent => .inr parent
    | none => .inl false

/-- One round of `has_ancestor` (contracts/access-control/src/lib.rs:490–506). -/
def Store.ancestorRound (s : Store) (ancestorCandidate current : Symbol) : Bool ⊕ Symbol :=
  match s.getRoleParent current with
  | some parent => if parent = ancestorCandidate then .inl true else .inr parent
  | none => .inl false

/-- One round of `get_role_ancestors` (contracts/access-control/src/lib.rs:350–362) on
    `(current, chain)`. -/
def Store.ancestorsRound (s : Store) (state : Symbol × List Symbol) :
    List Symbol ⊕ Symbol × List Symbol :=
  match s.getRoleParent state.1 with
  | some parent => .inr (parent, state.2 ++ [parent])
  | none => .inl state.2

/-- One round more than there are parents. -/
def Store.rounds (s : Store) : ℕ := s.roleParent.keys.card + 1

/-- Model of `has_role` (contracts/access-control/src/lib.rs:323–325). -/
def Store.hasRole (s : Store) (role : Symbol) (user : Address) : Option Bool :=
  loopWithin (s.membershipRound user) s.rounds role

/-- Model of `has_ancestor` (contracts/access-control/src/lib.rs:490–506). -/
def Store.hasAncestor (s : Store) (role ancestorCandidate : Symbol) : Option Bool :=
  loopWithin (s.ancestorRound ancestorCandidate) s.rounds role

/-- Model of `get_role_ancestors` (contracts/access-control/src/lib.rs:350–362). -/
def Store.getRoleAncestors (s : Store) (role : Symbol) : Option (List Symbol) :=
  loopWithin s.ancestorsRound s.rounds (role, [])

theorem membershipRound_moves (s : Store) (user : Address) :
    MovesAlong (s.membershipRound user) id s.getRoleParent := by
  intro role parent h
  show s.getRoleParent role = some parent
  unfold Store.membershipRound at h
  split_ifs at h
  cases hparent : s.getRoleParent role with
  | none =>
    rw [hparent] at h
    cases h
  | some parent' =>
    rw [hparent] at h
    rw [Sum.inr.inj h]

theorem ancestorRound_moves (s : Store) (candidate : Symbol) :
    MovesAlong (s.ancestorRound candidate) id s.getRoleParent := by
  intro role parent h
  show s.getRoleParent role = some parent
  unfold Store.ancestorRound at h
  cases hparent : s.getRoleParent role with
  | none =>
    rw [hparent] at h
    cases h
  | some parent' =>
    rw [hparent] at h
    dsimp only at h
    split_ifs at h
    rw [Sum.inr.inj h]

theorem ancestorsRound_moves (s : Store) :
    MovesAlong s.ancestorsRound Prod.fst s.getRoleParent := by
  intro state state' h
  unfold Store.ancestorsRound at h
  cases hparent : s.getRoleParent state.1 with
  | none =>
    rw [hparent] at h
    cases h
  | some parent =>
    rw [hparent] at h
    rw [← Sum.inr.inj h]

theorem mem_keys_of_getRoleParent (s : Store) (role parent : Symbol)
    (h : s.getRoleParent role = some parent) : role ∈ s.roleParent.keys :=
  Table.mem_keys_of_lookup h

/-- The walk of `has_role` ends with the answer exactly when it ends with it within the rounds. -/
theorem hasRole_eq_some_iff {s : Store} {role : Symbol} {user : Address} {answer : Bool} :
    s.hasRole role user = some answer ↔
      ∃ n, loopWithin (s.membershipRound user) n role = some answer :=
  (loop_ends_iff (membershipRound_moves s user) (mem_keys_of_getRoleParent s)).symm

/-! ## Entry points -/

variable {me : Address}

/-- The role of the super-admin. -/
def superRole : Symbol := "super"

/-- Model of `register_role_internal` (contracts/access-control/src/lib.rs:413–427). -/
def registerRoleInternal (role : Symbol) : Invocation Store AccessControlError Unit := do
  write fun s => { s with roleExists := s.roleExists.insert role true }
  write fun s => { s with allRoles := some (s.allRoles.getD [] ++ [role]) }

/-- Model of `ensure_role_exists` (contracts/access-control/src/lib.rs:429–435). -/
def ensureRoleExists (role : Symbol) : Invocation Store AccessControlError Unit := do
  let registered ← read fun s => s.roleExistsCheck role
  failIf (registered = false) .roleNotFound

/-- Model of `grant_role_internal` (contracts/access-control/src/lib.rs:438–448). -/
def grantRoleInternal (role : Symbol) (user : Address) : Invocation Store AccessControlError Unit :=
  write fun s => { s with
    roleMembers := s.roleMembers.insert role ((s.members role).insert user true) }

/-- Model of `revoke_role_internal` (contracts/access-control/src/lib.rs:451–461), which keeps the
    user in the map. -/
def revokeRoleInternal (role : Symbol) (user : Address) :
    Invocation Store AccessControlError Unit :=
  write fun s => { s with
    roleMembers := s.roleMembers.insert role ((s.members role).insert user false) }

/-- Model of `require_admin` (contracts/access-control/src/lib.rs:509–521). -/
def requireAdmin (caller : Address) : Invocation Store AccessControlError Unit := do
  let registered ← read fun s => s.isAdmin caller
  failIf (registered = false) .notAdmin

/-- Model of `initialize` (contracts/access-control/src/lib.rs:101–119). It checks no caller and no
    earlier initialisation. -/
def init (superAdmin : Address) : Invocation Store AccessControlError Unit := do
  write fun s => { s with superAdmin := some superAdmin }
  write fun s => { s with admins := some ((∅ : Table Address Bool).insert superAdmin true) }
  registerRoleInternal superRole
  grantRoleInternal superRole superAdmin
  publish ["ac_cr"] [.symbol superRole, .address superAdmin]

/-- Model of `add_admin` (contracts/access-control/src/lib.rs:144–168). -/
def addAdmin (env : Env me) (caller newAdmin : Address) :
    Invocation Store AccessControlError Unit := do
  requireAdmin caller
  requireAuth env caller
  let already ← read fun s => s.isAdmin newAdmin
  onlyIf (already = false) do
    write fun s => { s with admins := some ((s.admins.getD ∅).insert newAdmin true) }
    publish ["ac_ad"] [.address caller, .address newAdmin]

/-- Model of `remove_admin` (contracts/access-control/src/lib.rs:172–206). -/
def removeAdmin (env : Env me) (caller target : Address) :
    Invocation Store AccessControlError Unit := do
  requireAdmin caller
  requireAuth env caller
  let stored ← read Store.superAdmin
  let superAdmin ← expect stored .missing
  failIf (target = superAdmin) .cannotRemoveSuperAdmin
  let registered ← read fun s => s.isAdmin target
  onlyIf (registered = true) do
    write fun s => { s with admins := some ((s.admins.getD ∅).insert target false) }
    publish ["ac_ar"] [.address caller, .address target]

/-- Model of `create_role` (contracts/access-control/src/lib.rs:213–227); `validate_role_symbol`
    lets every symbol pass. -/
def createRole (env : Env me) (caller : Address) (role : Symbol) :
    Invocation Store AccessControlError Unit := do
  requireAdmin caller
  requireAuth env caller
  let registered ← read fun s => s.roleExistsCheck role
  failIf (registered = true) .roleAlreadyExists
  registerRoleInternal role
  publish ["ac_cr"] [.symbol role, .address caller]

/-- Model of `set_role_parent` (contracts/access-control/src/lib.rs:242–271). -/
def setRoleParent (env : Env me) (caller : Address) (role parent : Symbol) :
    Invocation Store AccessControlError Unit := do
  requireAdmin caller
  requireAuth env caller
  ensureRoleExists role
  ensureRoleExists parent
  failIf (role = parent) .selfReference
  let answer ← read fun s => s.hasAncestor parent role
  let cyclic ← expect answer .budget
  failIf (cyclic = true) .cycleDetected
  write fun s => { s with roleParent := s.roleParent.insert role parent }
  publish ["ac_ps"] [.symbol role, .symbol parent, .address caller]

/-- Model of `grant_role` (contracts/access-control/src/lib.rs:283–299). -/
def grantRole (env : Env me) (caller : Address) (role : Symbol) (user : Address) :
    Invocation Store AccessControlError Unit := do
  requireAdmin caller
  requireAuth env caller
  ensureRoleExists role
  grantRoleInternal role user
  publish ["ac_gr"] [.symbol role, .address user, .address caller]

/-- Model of `revoke_role` (contracts/access-control/src/lib.rs:303–319). -/
def revokeRole (env : Env me) (caller : Address) (role : Symbol) (user : Address) :
    Invocation Store AccessControlError Unit := do
  requireAdmin caller
  requireAuth env caller
  ensureRoleExists role
  revokeRoleInternal role user
  publish ["ac_rv"] [.symbol role, .address user, .address caller]

/-- A call of an entry point that can write. -/
inductive Entry where
  | init (superAdmin : Address)
  | addAdmin (caller newAdmin : Address)
  | removeAdmin (caller target : Address)
  | createRole (caller : Address) (role : Symbol)
  | setRoleParent (caller : Address) (role parent : Symbol)
  | grantRole (caller : Address) (role : Symbol) (user : Address)
  | revokeRole (caller : Address) (role : Symbol) (user : Address)

/-- The state after a call: committed on `Ok`, rolled back otherwise. -/
def exec (env : Env me) : Entry → World Store → World Store
  | .init superAdmin => (init superAdmin).commit
  | .addAdmin caller newAdmin => (addAdmin env caller newAdmin).commit
  | .removeAdmin caller target => (removeAdmin env caller target).commit
  | .createRole caller role => (createRole env caller role).commit
  | .setRoleParent caller role parent => (setRoleParent env caller role parent).commit
  | .grantRole caller role user => (grantRole env caller role user).commit
  | .revokeRole caller role user => (revokeRole env caller role user).commit

/-- The call returns `Ok`. -/
def Returns (env : Env me) (w : World Store) : Entry → Prop
  | .init superAdmin => (init superAdmin).Succeeds w
  | .addAdmin caller newAdmin => (addAdmin env caller newAdmin).Succeeds w
  | .removeAdmin caller target => (removeAdmin env caller target).Succeeds w
  | .createRole caller role => (createRole env caller role).Succeeds w
  | .setRoleParent caller role parent => (setRoleParent env caller role parent).Succeeds w
  | .grantRole caller role user => (grantRole env caller role user).Succeeds w
  | .revokeRole caller role user => (revokeRole env caller role user).Succeeds w

/-- A step of the chain as the contract sees it. -/
def step : Step me Entry → World Store → World Store := Step.apply exec

/-- A fresh contract on a chain with these token balances. -/
def deployed (tokens : TokenLedger) : World Store := World.deployed Store.empty tokens

/-! ## What the entry points do -/

/-- The storage after `register_role_internal`. -/
def Store.register (s : Store) (role : Symbol) : Store :=
  { s with
    roleExists := s.roleExists.insert role true
    allRoles := some (s.allRoles.getD [] ++ [role]) }

/-- The storage after a write of the membership of `user` in `role`. -/
def Store.setMember (s : Store) (role : Symbol) (user : Address) (held : Bool) : Store :=
  { s with roleMembers := s.roleMembers.insert role ((s.members role).insert user held) }

/-- The storage after a write of the admin flag of `who`. -/
def Store.setFlag (s : Store) (who : Address) (held : Bool) : Store :=
  { s with admins := some ((s.admins.getD ∅).insert who held) }

/-- The caller is a registered admin and has signed. -/
def Entitled (env : Env me) (w : World Store) (caller : Address) : Prop :=
  w.store.isAdmin caller = true ∧ env.signed caller = true

/-- What a successful call has checked, and the state it leaves. -/
inductive Done (env : Env me) (w : World Store) : Entry → World Store → Prop where
  | init {superAdmin : Address} (events : List Event) :
      Done env w (.init superAdmin) { w with
        store := Store.setMember (Store.register { w.store with
          superAdmin := some superAdmin
          admins := some ((∅ : Table Address Bool).insert superAdmin true) } superRole)
            superRole superAdmin true
        events := events }
  | addAdmin {caller newAdmin : Address} (events : List Event) (hcaller : Entitled env w caller)
      (hnew : w.store.isAdmin newAdmin = false) :
      Done env w (.addAdmin caller newAdmin)
        { w with store := w.store.setFlag newAdmin true, events := events }
  | addAdminAgain {caller newAdmin : Address} (hcaller : Entitled env w caller)
      (hold : w.store.isAdmin newAdmin = true) : Done env w (.addAdmin caller newAdmin) w
  | removeAdmin {caller target : Address} (events : List Event) (superAdmin : Address)
      (hcaller : Entitled env w caller) (hstored : w.store.superAdmin = some superAdmin)
      (hne : target ≠ superAdmin) (hold : w.store.isAdmin target = true) :
      Done env w (.removeAdmin caller target)
        { w with store := w.store.setFlag target false, events := events }
  | removeAdminAgain {caller target : Address} (superAdmin : Address)
      (hcaller : Entitled env w caller) (hstored : w.store.superAdmin = some superAdmin)
      (hne : target ≠ superAdmin) (hnot : w.store.isAdmin target = false) :
      Done env w (.removeAdmin caller target) w
  | createRole {caller : Address} {role : Symbol} (events : List Event)
      (hcaller : Entitled env w caller) (hnew : w.store.roleExistsCheck role = false) :
      Done env w (.createRole caller role)
        { w with store := w.store.register role, events := events }
  | setRoleParent {caller : Address} {role parent : Symbol} (events : List Event)
      (hcaller : Entitled env w caller) (hrole : w.store.roleExistsCheck role = true)
      (hparent : w.store.roleExistsCheck parent = true) (hne : role ≠ parent)
      (hacyclic : w.store.hasAncestor parent role = some false) :
      Done env w (.setRoleParent caller role parent) { w with
        store := { w.store with roleParent := w.store.roleParent.insert role parent }
        events := events }
  | grantRole {caller : Address} {role : Symbol} {user : Address} (events : List Event)
      (hcaller : Entitled env w caller) (hrole : w.store.roleExistsCheck role = true) :
      Done env w (.grantRole caller role user)
        { w with store := w.store.setMember role user true, events := events }
  | revokeRole {caller : Address} {role : Symbol} {user : Address} (events : List Event)
      (hcaller : Entitled env w caller) (hrole : w.store.roleExistsCheck role = true) :
      Done env w (.revokeRole caller role user)
        { w with store := w.store.setMember role user false, events := events }

@[simp] theorem requireAdmin_ok {caller : Address} {w w' : World Store} {u : Unit} :
    requireAdmin caller w = .ok u w' ↔ w.store.isAdmin caller = true ∧ w' = w := by
  simp [requireAdmin]

@[simp] theorem ensureRoleExists_ok {role : Symbol} {w w' : World Store} {u : Unit} :
    ensureRoleExists role w = .ok u w' ↔ w.store.roleExistsCheck role = true ∧ w' = w := by
  simp [ensureRoleExists]

theorem init_done {env : Env me} {superAdmin : Address} {w w' : World Store} {u : Unit}
    (h : init superAdmin w = .ok u w') : Done env w (.init superAdmin) w' := by
  simp [init, registerRoleInternal, grantRoleInternal] at h
  obtain rfl := h
  exact .init _

theorem addAdmin_done {env : Env me} {caller newAdmin : Address} {w w' : World Store} {u : Unit}
    (h : addAdmin env caller newAdmin w = .ok u w') :
    Done env w (.addAdmin caller newAdmin) w' := by
  simp [addAdmin] at h
  obtain ⟨hadmin, hsigned, ⟨hnew, rfl⟩ | ⟨hold, rfl⟩⟩ := h
  · exact .addAdmin _ ⟨hadmin, hsigned⟩ hnew
  · exact .addAdminAgain ⟨hadmin, hsigned⟩ hold

theorem removeAdmin_done {env : Env me} {caller target : Address} {w w' : World Store} {u : Unit}
    (h : removeAdmin env caller target w = .ok u w') :
    Done env w (.removeAdmin caller target) w' := by
  simp [removeAdmin] at h
  obtain ⟨hadmin, hsigned, superAdmin, hstored, hne, ⟨hold, rfl⟩ | ⟨hnot, rfl⟩⟩ := h
  · exact .removeAdmin _ superAdmin ⟨hadmin, hsigned⟩ hstored hne hold
  · exact .removeAdminAgain superAdmin ⟨hadmin, hsigned⟩ hstored hne hnot

theorem createRole_done {env : Env me} {caller : Address} {role : Symbol} {w w' : World Store}
    {u : Unit} (h : createRole env caller role w = .ok u w') :
    Done env w (.createRole caller role) w' := by
  simp [createRole, registerRoleInternal] at h
  obtain ⟨hadmin, hsigned, hnew, rfl⟩ := h
  exact .createRole _ ⟨hadmin, hsigned⟩ hnew

theorem setRoleParent_done {env : Env me} {caller : Address} {role parent : Symbol}
    {w w' : World Store} {u : Unit} (h : setRoleParent env caller role parent w = .ok u w') :
    Done env w (.setRoleParent caller role parent) w' := by
  simp [setRoleParent] at h
  obtain ⟨hadmin, hsigned, hrole, hparent, hne, hacyclic, rfl⟩ := h
  exact .setRoleParent _ ⟨hadmin, hsigned⟩ hrole hparent hne hacyclic

theorem grantRole_done {env : Env me} {caller : Address} {role : Symbol} {user : Address}
    {w w' : World Store} {u : Unit} (h : grantRole env caller role user w = .ok u w') :
    Done env w (.grantRole caller role user) w' := by
  simp [grantRole, grantRoleInternal] at h
  obtain ⟨hadmin, hsigned, hrole, rfl⟩ := h
  exact .grantRole _ ⟨hadmin, hsigned⟩ hrole

theorem revokeRole_done {env : Env me} {caller : Address} {role : Symbol} {user : Address}
    {w w' : World Store} {u : Unit} (h : revokeRole env caller role user w = .ok u w') :
    Done env w (.revokeRole caller role user) w' := by
  simp [revokeRole, revokeRoleInternal] at h
  obtain ⟨hadmin, hsigned, hrole, rfl⟩ := h
  exact .revokeRole _ ⟨hadmin, hsigned⟩ hrole

theorem exec_returns (env : Env me) (c : Entry) (w : World Store) :
    (¬ Returns env w c ∧ exec env c w = w) ∨ (Returns env w c ∧ Done env w c (exec env c w)) := by
  cases c with
  | init => exact commit_returns fun _ _ => init_done
  | addAdmin => exact commit_returns fun _ _ => addAdmin_done
  | removeAdmin => exact commit_returns fun _ _ => removeAdmin_done
  | createRole => exact commit_returns fun _ _ => createRole_done
  | setRoleParent => exact commit_returns fun _ _ => setRoleParent_done
  | grantRole => exact commit_returns fun _ _ => grantRole_done
  | revokeRole => exact commit_returns fun _ _ => revokeRole_done

/-- A step is a call that returns and does what `Done` says, or it is none and touches no
    storage. -/
theorem step_cases (s : Step me Entry) (w : World Store) :
    (∃ env c, s = .call env c ∧ Returns env w c ∧ Done env w c (step s w)) ∨
      ((∀ env c, s = .call env c → ¬ Returns env w c) ∧ (step s w).store = w.store ∧
        (step s w).shared = w.shared) :=
  Step.cases_returns exec_returns s w

end Trellis.AccessControl
