import Trellis.Shared.World

/-!
# Admin, roles and the pause flag

Model of `shared::auth` (shared/src/auth.rs) and of the pause flag of `shared::storage`
(shared/src/storage.rs:233–244).

Results:
* `requireAdmin_ok`, `requireRole_ok`, `requireNotPaused_ok`: what a caller has shown once a guard
  lets it pass.
* `grantRole_ok`, `revokeRole_ok`: the guarded role changes.
-/

namespace Trellis

variable {me : Address} {S ε : Type}

open Exec

/-! ## Admin -/

/-- Model of `set_admin` (shared/src/auth.rs:49–53). -/
def setAdmin (admin : Address) : Invocation S ε Unit :=
  writeShared fun s => { s with admin := some admin }

/-- Model of `get_admin` (shared/src/auth.rs:59–64): traps before initialisation. -/
def getAdmin : Invocation S ε Address := do
  let admin ← readShared SharedStore.admin
  expect admin .missing

/-- Model of `require_admin` (shared/src/auth.rs:70–77). -/
def requireAdmin (env : Env me) (caller : Address) : Invocation S Error Unit := do
  let admin ← getAdmin
  failIf (caller ≠ admin) .unauthorized
  requireAuth env caller

@[simp] theorem setAdmin_ok {admin : Address} {w w' : World S} {u : Unit} :
    (setAdmin admin : Invocation S ε Unit) w = .ok u w' ↔
      w' = { w with shared := { w.shared with admin := some admin } } := by
  simp [setAdmin]

@[simp] theorem getAdmin_ok {w w' : World S} {a : Address} :
    (getAdmin : Invocation S ε Address) w = .ok a w' ↔ w.shared.admin = some a ∧ w' = w := by
  simp only [getAdmin, bind_ok, readShared_ok, expect_ok]
  constructor
  · rintro ⟨o, w₁, ⟨rfl, rfl⟩, ho, rfl⟩
    exact ⟨ho, rfl⟩
  · rintro ⟨ha, rfl⟩
    exact ⟨w'.shared.admin, w', ⟨rfl, rfl⟩, ha, rfl⟩

/-- The admin guard passes exactly the stored admin, and only with its signature. -/
@[simp] theorem requireAdmin_ok {env : Env me} {caller : Address} {w w' : World S} {u : Unit} :
    (requireAdmin env caller) w = .ok u w' ↔
      w.shared.admin = some caller ∧ env.signed caller = true ∧ w' = w := by
  simp only [requireAdmin, bind_ok, getAdmin_ok, failIf_ok, requireAuth_ok, ne_eq, not_not]
  constructor
  · rintro ⟨a, w₁, ⟨ha, rfl⟩, -, w₂, ⟨rfl, rfl⟩, hs, rfl⟩
    exact ⟨ha, hs, rfl⟩
  · rintro ⟨ha, hs, rfl⟩
    exact ⟨caller, w', ⟨ha, rfl⟩, (), w', ⟨rfl, rfl⟩, hs, rfl⟩

/-! ## Roles -/

/-- Model of `has_role` (shared/src/auth.rs:87–89). -/
def hasRole (user : Address) (role : Role) : Invocation S ε Bool :=
  readShared fun s => decide ((user, role) ∈ s.roles)

/-- Model of `grant_role` (shared/src/auth.rs:97–106). -/
def grantRole (env : Env me) (adminCaller user : Address) (role : Role) :
    Invocation S Error Unit := do
  requireAdmin env adminCaller
  writeShared fun s => { s with roles := insert (user, role) s.roles }

/-- Model of `revoke_role` (shared/src/auth.rs:116–125). -/
def revokeRole (env : Env me) (adminCaller user : Address) (role : Role) :
    Invocation S Error Unit := do
  requireAdmin env adminCaller
  writeShared fun s => { s with roles := s.roles.erase (user, role) }

/-- Model of `require_role` (shared/src/auth.rs:135–141). -/
def requireRole (env : Env me) (caller : Address) (role : Role) : Invocation S Error Unit := do
  let held ← hasRole caller role
  failIf (held = false) .unauthorized
  requireAuth env caller

@[simp] theorem hasRole_ok {user : Address} {role : Role} {w w' : World S} {b : Bool} :
    (hasRole user role : Invocation S ε Bool) w = .ok b w' ↔
      b = decide ((user, role) ∈ w.shared.roles) ∧ w' = w := by
  simp [hasRole]

@[simp] theorem grantRole_ok {env : Env me} {adminCaller user : Address} {role : Role}
    {w w' : World S} {u : Unit} :
    (grantRole env adminCaller user role) w = .ok u w' ↔
      w.shared.admin = some adminCaller ∧ env.signed adminCaller = true ∧
        w' = { w with shared := { w.shared with
          roles := insert (user, role) w.shared.roles } } := by
  simp [grantRole, and_assoc]

@[simp] theorem revokeRole_ok {env : Env me} {adminCaller user : Address} {role : Role}
    {w w' : World S} {u : Unit} :
    (revokeRole env adminCaller user role) w = .ok u w' ↔
      w.shared.admin = some adminCaller ∧ env.signed adminCaller = true ∧
        w' = { w with shared := { w.shared with
          roles := w.shared.roles.erase (user, role) } } := by
  simp [revokeRole, and_assoc]

/-- The role guard passes exactly the holders of the role, and only with their signature. -/
@[simp] theorem requireRole_ok {env : Env me} {caller : Address} {role : Role}
    {w w' : World S} {u : Unit} :
    (requireRole env caller role) w = .ok u w' ↔
      (caller, role) ∈ w.shared.roles ∧ env.signed caller = true ∧ w' = w := by
  simp [requireRole, and_assoc, and_comm]

/-! ## Pause flag -/

/-- Model of `storage::is_paused` (shared/src/storage.rs:237–239). -/
def isPaused : Invocation S ε Bool := readShared fun s => s.paused.getD false

/-- The contract is paused. -/
def World.IsPaused (w : World S) : Prop := w.shared.paused.getD false = true

instance (w : World S) : Decidable w.IsPaused := inferInstanceAs (Decidable (_ = _))

/-- Model of `storage::set_paused` (shared/src/storage.rs:242–244). -/
def setPausedFlag (paused : Bool) : Invocation S ε Unit :=
  writeShared fun s => { s with paused := some paused }

/-- Model of `require_not_paused` (shared/src/auth.rs:151–156). -/
def requireNotPaused : Invocation S Error Unit := do
  let paused ← isPaused
  failIf (paused = true) .contractPaused

@[simp] theorem isPaused_ok {w w' : World S} {b : Bool} :
    (isPaused : Invocation S ε Bool) w = .ok b w' ↔
      b = w.shared.paused.getD false ∧ w' = w := by
  simp [isPaused]

@[simp] theorem isPaused_fail {w w' : World S} {e : Fault Trap ε} :
    ¬ (isPaused : Invocation S ε Bool) w = .fail e w' := by
  simp [isPaused]

@[simp] theorem setPausedFlag_ok {paused : Bool} {w w' : World S} {u : Unit} :
    (setPausedFlag paused : Invocation S ε Unit) w = .ok u w' ↔
      w' = { w with shared := { w.shared with paused := some paused } } := by
  simp [setPausedFlag]

@[simp] theorem requireNotPaused_ok {w w' : World S} {u : Unit} :
    (requireNotPaused : Invocation S Error Unit) w = .ok u w' ↔
      w.shared.paused.getD false = false ∧ w' = w := by
  simp [requireNotPaused]

end Trellis
