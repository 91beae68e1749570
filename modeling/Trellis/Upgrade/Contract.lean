import Trellis.Lib.Table
import Trellis.Shared.Auth
import Trellis.Shared.Calls
import Trellis.Shared.Events

/-!
# Upgradeability contract

Model of contracts/upgradeability/src/lib.rs: a registry of upgradeable contracts, proposals to
upgrade them, of which each contract has at most one pending, and the history of the executed ones.
A contract may have a migration hook, another contract that is called before and after an upgrade;
`Hooks` says what the hooks do.

Results:
* `exec_cases`: a call leaves the state alone, or it succeeds; `Done` says what it has checked then
  and which state it leaves.
* `step_cases`, `step_keeps`: the same for a step of the chain, and what it keeps.
-/

namespace Trellis.Upgrade

open Exec

/-! ## Data -/

/-- `UpgradeError` (contracts/upgradeability/src/lib.rs:50–73): the errors that are returned. -/
inductive UpgradeError where
  | contractNotRegistered
  | contractAlreadyRegistered
  | noChangeDetected
  | proposalNotFound
  | alreadyExecuted
  | migrationHookFailed
  | alreadyPending
  | notUpgrader
  | invalidWasmHash
  deriving DecidableEq, Repr

/-- `VersionInfo` (contracts/upgradeability/src/lib.rs:97–106). -/
structure VersionInfo where
  version : ℕ
  wasmHash : Bytes
  deployedAt : ℕ
  description : String
  deriving DecidableEq, Repr

/-- `RegistryEntry` (contracts/upgradeability/src/lib.rs:111–120). -/
structure RegistryEntry where
  contractId : Address
  name : Symbol
  current : VersionInfo
  migrationHook : Option Address
  deriving DecidableEq, Repr

/-- `UpgradeProposal` (contracts/upgradeability/src/lib.rs:125–144). -/
structure UpgradeProposal where
  id : ℕ
  contractId : Address
  newWasmHash : Bytes
  newVersion : ℕ
  note : String
  proposer : Address
  executed : Bool
  createdAt : ℕ
  executedAt : ℕ
  deriving DecidableEq, Repr

/-- `UpgradeRecord` (contracts/upgradeability/src/lib.rs:149–166). -/
structure UpgradeRecord where
  contractId : Address
  oldVersion : ℕ
  newVersion : ℕ
  oldWasmHash : Bytes
  newWasmHash : Bytes
  executor : Address
  executedAt : ℕ
  note : String
  deriving DecidableEq, Repr

/-- The storage keys of the contract: `KEY_REG_CNT`, `(KEY_REG_ENTRY, id)`,
    `(KEY_CONTRACT_BY_NAME, name)`, `KEY_PROP_CNT`, `(KEY_UPG_PROP, id)`, `(KEY_HOOK, id)`,
    `(KEY_HISTORY, contract, id)` and `(KEY_PENDING, id)`. -/
structure Store where
  regCnt : Option ℕ
  entries : Table Address RegistryEntry
  byName : Table Symbol Address
  propCnt : Option ℕ
  proposals : Table ℕ UpgradeProposal
  hooks : Table Address Address
  history : Table (Address × ℕ) UpgradeRecord
  pending : Table Address ℕ

/-- The storage of a fresh contract. -/
def Store.empty : Store where
  regCnt := none
  entries := ∅
  byName := ∅
  propCnt := none
  proposals := ∅
  hooks := ∅
  history := ∅
  pending := ∅

/-- Model of `get_version` (contracts/upgradeability/src/lib.rs:304–308). -/
def Store.getVersion (s : Store) (contractId : Address) : Except UpgradeError ℕ :=
  match s.entries.lookup contractId with
  | some entry => .ok entry.current.version
  | none => .error .contractNotRegistered

/-- Model of `get_wasm_hash` (contracts/upgradeability/src/lib.rs:311–315). -/
def Store.getWasmHash (s : Store) (contractId : Address) : Except UpgradeError Bytes :=
  match s.entries.lookup contractId with
  | some entry => .ok entry.current.wasmHash
  | none => .error .contractNotRegistered

/-- Model of `get_pending_proposal` (contracts/upgradeability/src/lib.rs:533–535). -/
def Store.getPendingProposal (s : Store) (contractId : Address) : Option ℕ :=
  s.pending.lookup contractId

/-- What the migration hooks do with the two versions they are called with. -/
structure Hooks (X : Type) where
  preUpg (hook : Address) (oldVersion newVersion : ℕ) : X → CallResult UpgradeError Bool × X
  pstUpg (hook : Address) (oldVersion newVersion : ℕ) : X → CallResult UpgradeError Unit × X

variable {me : Address} {X : Type}

/-! ## Entry points -/

/-- Model of `initialize` (contracts/upgradeability/src/lib.rs:192–215). It checks no caller and no
    earlier initialisation. -/
def init (env : Env me) (admin : Address) : Invocation (Linked Store X) UpgradeError Unit := do
  setAdmin admin
  writeShared fun s => { s with roles := insert (admin, .upgrader) s.roles }
  writeShared fun s => { s with roles := insert (admin, .admin) s.roles }
  emitModuleInitialized "upg_reg" 1 admin env.timestamp

/-- Model of `require_admin_role` (contracts/upgradeability/src/lib.rs:673–678). -/
def requireAdminRole (env : Env me) (caller : Address) :
    Invocation (Linked Store X) UpgradeError Unit :=
  mapErr (fun _ => .notUpgrader) (requireRole env caller .admin)

/-- Model of `require_upgrader_role` (contracts/upgradeability/src/lib.rs:681–686). -/
def requireUpgraderRole (env : Env me) (caller : Address) :
    Invocation (Linked Store X) UpgradeError Unit :=
  mapErr (fun _ => .notUpgrader) (requireRole env caller .upgrader)

/-- Model of `register_contract` (contracts/upgradeability/src/lib.rs:231–278). It asks that the
    name is new, not that the contract is. -/
def registerContract (env : Env me) (caller contractId : Address) (name : Symbol) (version : ℕ)
    (wasmHash : Bytes) : Invocation (Linked Store X) UpgradeError Unit := do
  requireAdminRole env caller
  failIf (version < 1) .invalidWasmHash
  let named ← readOwn fun s => s.byName.lookup name
  failIf (named.isSome = true) .contractAlreadyRegistered
  let entry : RegistryEntry :=
    ⟨contractId, name, ⟨version, wasmHash, env.timestamp, "initial"⟩, none⟩
  writeOwn fun s => { s with entries := s.entries.insert contractId entry }
  writeOwn fun s => { s with byName := s.byName.insert name contractId }
  let count ← readOwn fun s => s.regCnt.getD 0
  trapIf (count + 1 ≥ 2 ^ 64) .overflow
  writeOwn fun s => { s with regCnt := some (count + 1) }
  emitContractRegistered contractId name version wasmHash env.timestamp

/-- Model of `set_migration_hook` (contracts/upgradeability/src/lib.rs:328–347). -/
def setMigrationHook (env : Env me) (caller contractId hookAddr : Address) :
    Invocation (Linked Store X) UpgradeError Unit := do
  requireAdminRole env caller
  let stored ← readOwn fun s => s.entries.lookup contractId
  let entry ← okOr stored .contractNotRegistered
  writeOwn fun s => { s with
    entries := s.entries.insert contractId { entry with migrationHook := some hookAddr } }
  writeOwn fun s => { s with hooks := s.hooks.insert contractId hookAddr }
  emitMigrationHookSet contractId hookAddr env.timestamp

/-- Model of `propose_upgrade` (contracts/upgradeability/src/lib.rs:368–424). -/
def proposeUpgrade (env : Env me) (caller contractId : Address) (newWasmHash : Bytes)
    (newVersion : ℕ) (note : String) : Invocation (Linked Store X) UpgradeError ℕ := do
  requireUpgraderRole env caller
  let stored ← readOwn fun s => s.entries.lookup contractId
  let entry ← okOr stored .contractNotRegistered
  failIf (newVersion ≤ entry.current.version) .noChangeDetected
  failIf (newWasmHash = entry.current.wasmHash) .noChangeDetected
  let waiting ← readOwn fun s => s.pending.lookup contractId
  failIf (waiting.isSome = true) .alreadyPending
  let count ← readOwn fun s => s.propCnt.getD 0
  trapIf (count + 1 ≥ 2 ^ 64) .overflow
  let proposalId := count + 1
  writeOwn fun s => { s with propCnt := some proposalId }
  let proposal : UpgradeProposal :=
    ⟨proposalId, contractId, newWasmHash, newVersion, note, caller, false, env.timestamp, 0⟩
  writeOwn fun s => { s with proposals := s.proposals.insert proposalId proposal }
  writeOwn fun s => { s with pending := s.pending.insert contractId proposalId }
  emitUpgradeProposed proposalId contractId newVersion caller env.timestamp
  pure proposalId

/-- Model of `execute_pre_upgrade_hook` (contracts/upgradeability/src/lib.rs:692–716). -/
def executePreUpgradeHook (hooks : Hooks X) (hookAddr : Address) (oldVersion newVersion : ℕ) :
    Invocation (Linked Store X) UpgradeError Unit := do
  let result ← tryInvoke (hooks.preUpg hookAddr oldVersion newVersion)
  failIf (result ≠ .value true) .migrationHookFailed

/-- Model of `execute_post_upgrade_hook` (contracts/upgradeability/src/lib.rs:721–737). -/
def executePostUpgradeHook (hooks : Hooks X) (hookAddr : Address) (oldVersion newVersion : ℕ) :
    Invocation (Linked Store X) UpgradeError Unit := do
  let result ← tryInvoke (hooks.pstUpg hookAddr oldVersion newVersion)
  failIf (result ≠ .value ()) .migrationHookFailed

/-- `if let Some(ref hook_addr) = entry.migration_hook { .. }`. -/
def withHook (hook : Option Address)
    (call : Address → Invocation (Linked Store X) UpgradeError Unit) :
    Invocation (Linked Store X) UpgradeError Unit :=
  match hook with
  | some hookAddr => mapErr (fun _ => .migrationHookFailed) (call hookAddr)
  | none => pure ()

/-- Model of `execute_upgrade` (contracts/upgradeability/src/lib.rs:434–525). -/
def executeUpgrade (env : Env me) (hooks : Hooks X) (caller : Address) (proposalId : ℕ) :
    Invocation (Linked Store X) UpgradeError Unit := do
  requireUpgraderRole env caller
  let storedProposal ← readOwn fun s => s.proposals.lookup proposalId
  let proposal ← okOr storedProposal .proposalNotFound
  failIf (proposal.executed = true) .alreadyExecuted
  let storedEntry ← readOwn fun s => s.entries.lookup proposal.contractId
  let entry ← okOr storedEntry .contractNotRegistered
  withHook entry.migrationHook fun hookAddr =>
    executePreUpgradeHook hooks hookAddr entry.current.version proposal.newVersion
  let current : VersionInfo :=
    ⟨proposal.newVersion, proposal.newWasmHash, env.timestamp, proposal.note⟩
  writeOwn fun s => { s with
    entries := s.entries.insert proposal.contractId { entry with current := current } }
  withHook entry.migrationHook fun hookAddr =>
    executePostUpgradeHook hooks hookAddr entry.current.version proposal.newVersion
  writeOwn fun s => { s with
    proposals := s.proposals.insert proposalId { proposal with
      executed := true
      executedAt := env.timestamp } }
  writeOwn fun s => { s with pending := s.pending.erase proposal.contractId }
  let record : UpgradeRecord :=
    ⟨proposal.contractId, entry.current.version, proposal.newVersion, entry.current.wasmHash,
      proposal.newWasmHash, caller, env.timestamp, proposal.note⟩
  writeOwn fun s => { s with history := s.history.insert (proposal.contractId, proposalId) record }
  emitUpgradeExecuted proposalId proposal.contractId entry.current.version
    proposal.newVersion caller
    env.timestamp

/-- Model of `cancel_proposal` (contracts/upgradeability/src/lib.rs:590–616). It compares the caller
    with the proposer and asks for its role, but for no signature. -/
def cancelProposal (caller : Address) (proposalId : ℕ) :
    Invocation (Linked Store X) UpgradeError Unit := do
  let stored ← readOwn fun s => s.proposals.lookup proposalId
  let proposal ← okOr stored .proposalNotFound
  failIf (proposal.executed = true) .alreadyExecuted
  let isAdmin ← hasRole caller .admin
  failIf (proposal.proposer ≠ caller ∧ isAdmin = false) .notUpgrader
  writeOwn fun s => { s with pending := s.pending.erase proposal.contractId }
  writeOwn fun s => { s with proposals := s.proposals.erase proposalId }

/-- Model of `verify_upgrade_authorization` (contracts/upgradeability/src/lib.rs:628–651). It looks
    for a pending proposal. -/
def verifyUpgradeAuthorization (contractId caller : Address) (newWasmHash : Bytes) :
    Invocation (Linked Store X) UpgradeError Bytes := do
  let isUpgrader ← hasRole caller .upgrader
  failIf (isUpgrader = false) .notUpgrader
  let waiting ← readOwn fun s => s.pending.lookup contractId
  let pendingId ← okOr waiting .contractNotRegistered
  let stored ← readOwn fun s => s.proposals.lookup pendingId
  let proposal ← okOr stored .proposalNotFound
  failIf (proposal.newWasmHash ≠ newWasmHash) .invalidWasmHash
  pure proposal.newWasmHash

/-- A call of an entry point that can write; one that calls other contracts carries what they do. -/
inductive Entry (X : Type) where
  | init (admin : Address)
  | registerContract (caller contractId : Address) (name : Symbol) (version : ℕ) (wasmHash : Bytes)
  | setMigrationHook (caller contractId hookAddr : Address)
  | proposeUpgrade (caller contractId : Address) (newWasmHash : Bytes) (newVersion : ℕ)
      (note : String)
  | executeUpgrade (hooks : Hooks X) (caller : Address) (proposalId : ℕ)
  | cancelProposal (caller : Address) (proposalId : ℕ)

/-- The state after a call: committed on `Ok`, rolled back otherwise. -/
def exec (env : Env me) : Entry X → World (Linked Store X) → World (Linked Store X)
  | .init admin => (init env admin).commit
  | .registerContract caller contractId name version wasmHash =>
    (registerContract env caller contractId name version wasmHash).commit
  | .setMigrationHook caller contractId hookAddr =>
    (setMigrationHook env caller contractId hookAddr).commit
  | .proposeUpgrade caller contractId newWasmHash newVersion note =>
    (proposeUpgrade env caller contractId newWasmHash newVersion note).commit
  | .executeUpgrade hooks caller proposalId => (executeUpgrade env hooks caller proposalId).commit
  | .cancelProposal caller proposalId => (cancelProposal caller proposalId).commit

/-- The call returns `Ok`. -/
def Returns (env : Env me) (w : World (Linked Store X)) : Entry X → Prop
  | .init admin => (init env admin).Succeeds w
  | .registerContract caller contractId name version wasmHash =>
    (registerContract env caller contractId name version wasmHash).Succeeds w
  | .setMigrationHook caller contractId hookAddr =>
    (setMigrationHook env caller contractId hookAddr).Succeeds w
  | .proposeUpgrade caller contractId newWasmHash newVersion note =>
    (proposeUpgrade env caller contractId newWasmHash newVersion note).Succeeds w
  | .executeUpgrade hooks caller proposalId =>
    (executeUpgrade env hooks caller proposalId).Succeeds w
  | .cancelProposal caller proposalId => (cancelProposal caller proposalId).Succeeds w

/-- A step of the chain as the contract sees it. -/
def step : Step me (Entry X) → World (Linked Store X) → World (Linked Store X) := Step.apply exec

/-! ## What the entry points do -/

/-- The hook of a contract, if it has one, lets an upgrade through and takes the other contracts
    from `x` to `x'`. -/
def Hooks.Pass (hooks : Hooks X) (hook : Option Address) (oldVersion newVersion : ℕ) (x x' : X) :
    Prop :=
  match hook with
  | none => x' = x
  | some addr => ∃ x₁, hooks.preUpg addr oldVersion newVersion x = (.value true, x₁) ∧
      hooks.pstUpg addr oldVersion newVersion x₁ = (.value (), x')

/-- The storage after the upgrade `p` of a contract registered as `e`. -/
def Store.upgrade (s : Store) (now : ℕ) (executor : Address) (id : ℕ) (p : UpgradeProposal)
    (e : RegistryEntry) : Store :=
  { s with
    entries := s.entries.insert p.contractId { e with
      current := ⟨p.newVersion, p.newWasmHash, now, p.note⟩ }
    proposals := s.proposals.insert id { p with executed := true, executedAt := now }
    pending := s.pending.erase p.contractId
    history := s.history.insert (p.contractId, id)
      ⟨p.contractId, e.current.version, p.newVersion, e.current.wasmHash, p.newWasmHash, executor,
        now, p.note⟩ }

/-- What a successful call has checked, and the state it leaves. -/
inductive Done (env : Env me) (w : World (Linked Store X)) :
    Entry X → World (Linked Store X) → Prop where
  | init {admin : Address} (events : List Event) :
      Done env w (.init admin) { w with
        shared := { w.shared with
          admin := some admin
          roles := insert (admin, .admin) (insert (admin, .upgrader) w.shared.roles) }
        events := events }
  | registerContract {caller contractId : Address} {name : Symbol} {version : ℕ} {wasmHash : Bytes}
      (events : List Event) (hrole : (caller, Role.admin) ∈ w.shared.roles)
      (hsigned : env.signed caller = true) (hversion : 1 ≤ version)
      (hnew : w.store.own.byName.lookup name = none)
      (hroom : w.store.own.regCnt.getD 0 + 1 < 2 ^ 64) :
      Done env w (.registerContract caller contractId name version wasmHash) { w with
        store := { w.store with own := { w.store.own with
          entries := w.store.own.entries.insert contractId
            ⟨contractId, name, ⟨version, wasmHash, env.timestamp, "initial"⟩, none⟩
          byName := w.store.own.byName.insert name contractId
          regCnt := some (w.store.own.regCnt.getD 0 + 1) } }
        events := events }
  | setMigrationHook {caller contractId hookAddr : Address} (events : List Event)
      (e : RegistryEntry) (hrole : (caller, Role.admin) ∈ w.shared.roles)
      (hsigned : env.signed caller = true)
      (he : w.store.own.entries.lookup contractId = some e) :
      Done env w (.setMigrationHook caller contractId hookAddr) { w with
        store := { w.store with own := { w.store.own with
          entries := w.store.own.entries.insert contractId { e with migrationHook := some hookAddr }
          hooks := w.store.own.hooks.insert contractId hookAddr } }
        events := events }
  | proposeUpgrade {caller contractId : Address} {newWasmHash : Bytes} {newVersion : ℕ}
      {note : String} (events : List Event) (e : RegistryEntry)
      (hrole : (caller, Role.upgrader) ∈ w.shared.roles) (hsigned : env.signed caller = true)
      (he : w.store.own.entries.lookup contractId = some e)
      (hversion : e.current.version < newVersion) (hhash : newWasmHash ≠ e.current.wasmHash)
      (hnone : w.store.own.pending.lookup contractId = none)
      (hroom : w.store.own.propCnt.getD 0 + 1 < 2 ^ 64) :
      Done env w (.proposeUpgrade caller contractId newWasmHash newVersion note) { w with
        store := { w.store with own := { w.store.own with
          propCnt := some (w.store.own.propCnt.getD 0 + 1)
          proposals := w.store.own.proposals.insert (w.store.own.propCnt.getD 0 + 1)
            ⟨w.store.own.propCnt.getD 0 + 1, contractId, newWasmHash, newVersion, note,
              caller, false, env.timestamp, 0⟩
          pending := w.store.own.pending.insert contractId (w.store.own.propCnt.getD 0 + 1) } }
        events := events }
  | executeUpgrade {hooks : Hooks X} {caller : Address} {id : ℕ} (events : List Event)
      (p : UpgradeProposal) (e : RegistryEntry) (others : X)
      (hrole : (caller, Role.upgrader) ∈ w.shared.roles) (hsigned : env.signed caller = true)
      (hp : w.store.own.proposals.lookup id = some p) (hopen : p.executed = false)
      (he : w.store.own.entries.lookup p.contractId = some e)
      (hhooks : hooks.Pass e.migrationHook e.current.version p.newVersion w.store.others others) :
      Done env w (.executeUpgrade hooks caller id) { w with
        store := ⟨w.store.own.upgrade env.timestamp caller id p e, others⟩
        events := events }
  | cancelProposal {caller : Address} {id : ℕ} (p : UpgradeProposal)
      (hp : w.store.own.proposals.lookup id = some p) (hopen : p.executed = false)
      (hcaller : p.proposer = caller ∨ (caller, Role.admin) ∈ w.shared.roles) :
      Done env w (.cancelProposal caller id) { w with
        store := { w.store with own := { w.store.own with
          pending := w.store.own.pending.erase p.contractId
          proposals := w.store.own.proposals.erase id } } }

@[simp] theorem requireAdminRole_ok {env : Env me} {caller : Address}
    {w w' : World (Linked Store X)} {u : Unit} : requireAdminRole env caller w = .ok u w' ↔
      (caller, Role.admin) ∈ w.shared.roles ∧ env.signed caller = true ∧ w' = w := by
  simp [requireAdminRole]

@[simp] theorem requireUpgraderRole_ok {env : Env me} {caller : Address}
    {w w' : World (Linked Store X)} {u : Unit} : requireUpgraderRole env caller w = .ok u w' ↔
      (caller, Role.upgrader) ∈ w.shared.roles ∧ env.signed caller = true ∧ w' = w := by
  simp [requireUpgraderRole]

theorem init_done {env : Env me} {admin : Address} {w w' : World (Linked Store X)} {u : Unit}
    (h : init env admin w = .ok u w') : Done env w (.init admin) w' := by
  simp [init] at h
  obtain rfl := h
  exact .init _

theorem registerContract_done {env : Env me} {caller contractId : Address} {name : Symbol}
    {version : ℕ} {wasmHash : Bytes} {w w' : World (Linked Store X)} {u : Unit}
    (h : registerContract env caller contractId name version wasmHash w = .ok u w') :
    Done env w (.registerContract caller contractId name version wasmHash) w' := by
  simp [registerContract] at h
  obtain ⟨⟨hrole, hsigned⟩, hversion, hnew, hroom, rfl⟩ := h
  exact .registerContract _ hrole hsigned (by omega) hnew (by omega)

theorem setMigrationHook_done {env : Env me} {caller contractId hookAddr : Address}
    {w w' : World (Linked Store X)} {u : Unit}
    (h : setMigrationHook env caller contractId hookAddr w = .ok u w') :
    Done env w (.setMigrationHook caller contractId hookAddr) w' := by
  simp [setMigrationHook] at h
  obtain ⟨⟨hrole, hsigned⟩, e, he, rfl⟩ := h
  exact .setMigrationHook _ e hrole hsigned he

theorem proposeUpgrade_done {env : Env me} {caller contractId : Address} {newWasmHash : Bytes}
    {newVersion id : ℕ} {note : String} {w w' : World (Linked Store X)}
    (h : proposeUpgrade env caller contractId newWasmHash newVersion note w = .ok id w') :
    Done env w (.proposeUpgrade caller contractId newWasmHash newVersion note) w' := by
  simp [proposeUpgrade] at h
  obtain ⟨⟨hrole, hsigned⟩, e, he, hversion, hhash, hnone, hroom, -, rfl⟩ := h
  exact .proposeUpgrade _ e hrole hsigned he hversion hhash hnone (by omega)

theorem proposeUpgrade_id {env : Env me} {caller contractId : Address} {newWasmHash : Bytes}
    {newVersion id : ℕ} {note : String} {w w' : World (Linked Store X)}
    (h : proposeUpgrade env caller contractId newWasmHash newVersion note w = .ok id w') :
    id = w.store.own.propCnt.getD 0 + 1 := by
  simp [proposeUpgrade] at h
  obtain ⟨-, e, -, -, -, -, -, hid, -⟩ := h
  exact hid

theorem withHook_ok {hook : Option Address}
    {call : Address → Invocation (Linked Store X) UpgradeError Unit} {w w' : World (Linked Store X)}
    {u : Unit} : withHook hook call w = .ok u w' ↔
      hook = none ∧ w' = w ∨ ∃ addr, hook = some addr ∧ call addr w = .ok u w' := by
  cases hook <;> simp [withHook]

/-- A hook that is called lets the upgrade through, and what it does stands. -/
theorem executePreUpgradeHook_ok {hooks : Hooks X} {addr : Address} {oldVersion newVersion : ℕ}
    {w w' : World (Linked Store X)} {u : Unit}
    (h : executePreUpgradeHook hooks addr oldVersion newVersion w = .ok u w') :
    ∃ x, hooks.preUpg addr oldVersion newVersion w.store.others = (.value true, x) ∧
      w' = { w with store := { w.store with others := x } } := by
  simp only [executePreUpgradeHook, bind_ok, tryInvoke_ok, failIf_ok, ne_eq, not_not] at h
  obtain ⟨_, _, ⟨rfl, rfl⟩, hvalue, rfl⟩ := h
  exact ⟨_, leftBy_value hvalue, rfl⟩

theorem executePostUpgradeHook_ok {hooks : Hooks X} {addr : Address} {oldVersion newVersion : ℕ}
    {w w' : World (Linked Store X)} {u : Unit}
    (h : executePostUpgradeHook hooks addr oldVersion newVersion w = .ok u w') :
    ∃ x, hooks.pstUpg addr oldVersion newVersion w.store.others = (.value (), x) ∧
      w' = { w with store := { w.store with others := x } } := by
  simp only [executePostUpgradeHook, bind_ok, tryInvoke_ok, failIf_ok, ne_eq, not_not] at h
  obtain ⟨_, _, ⟨rfl, rfl⟩, hvalue, rfl⟩ := h
  exact ⟨_, leftBy_value hvalue, rfl⟩

theorem executeUpgrade_done {env : Env me} {hooks : Hooks X} {caller : Address} {id : ℕ}
    {w w' : World (Linked Store X)} {u : Unit}
    (h : executeUpgrade env hooks caller id w = .ok u w') :
    Done env w (.executeUpgrade hooks caller id) w' := by
  simp [executeUpgrade] at h
  obtain ⟨⟨hrole, hsigned⟩, p, hp, hopen, e, he, _, w₁, hpre, _, w₂, hpost, rfl⟩ := h
  rcases withHook_ok.mp hpre with ⟨hnone, rfl⟩ | ⟨addr, hhook, hpre⟩
  · rcases withHook_ok.mp hpost with ⟨-, rfl⟩ | ⟨addr, hhook, -⟩
    · refine .executeUpgrade _ p e w₁.store.others hrole hsigned hp hopen he ?_
      rw [hnone]
      rfl
    · rw [hnone] at hhook
      cases hhook
  · rcases withHook_ok.mp hpost with ⟨hnone, -⟩ | ⟨addr', hhook', hpost⟩
    · rw [hnone] at hhook
      cases hhook
    · obtain rfl : addr = addr' := Option.some.inj (hhook.symm.trans hhook')
      obtain ⟨x₁, hx₁, rfl⟩ := executePreUpgradeHook_ok hpre
      obtain ⟨x₂, hx₂, rfl⟩ := executePostUpgradeHook_ok hpost
      refine .executeUpgrade _ p e x₂ hrole hsigned hp hopen he ?_
      rw [hhook]
      exact ⟨x₁, hx₁, hx₂⟩

theorem cancelProposal_done {env : Env me} {caller : Address} {id : ℕ}
    {w w' : World (Linked Store X)} {u : Unit} (h : cancelProposal caller id w = .ok u w') :
    Done env w (.cancelProposal caller id) w' := by
  simp only [cancelProposal, bind_ok, readOwn_ok, okOr_ok, failIf_ok, hasRole_ok, writeOwn_ok,
    Bool.not_eq_true] at h
  obtain ⟨_, _, ⟨rfl, rfl⟩, p, _, ⟨hp, rfl⟩, _, _, ⟨hopen, rfl⟩, _, _, ⟨rfl, rfl⟩, _, _,
    ⟨hcaller, rfl⟩, _, _, rfl, rfl⟩ := h
  refine .cancelProposal p hp hopen ?_
  by_cases hproposer : p.proposer = caller
  · exact .inl hproposer
  · refine .inr ?_
    simpa [hproposer] using hcaller

theorem exec_returns (env : Env me) (c : Entry X) (w : World (Linked Store X)) :
    (¬ Returns env w c ∧ exec env c w = w) ∨ (Returns env w c ∧ Done env w c (exec env c w)) := by
  cases c with
  | init => exact commit_returns fun _ _ => init_done
  | registerContract => exact commit_returns fun _ _ => registerContract_done
  | setMigrationHook => exact commit_returns fun _ _ => setMigrationHook_done
  | proposeUpgrade => exact commit_returns fun _ _ => proposeUpgrade_done
  | executeUpgrade => exact commit_returns fun _ _ => executeUpgrade_done
  | cancelProposal => exact commit_returns fun _ _ => cancelProposal_done

/-- A call leaves the state alone, or it succeeds and does what `Done` says. -/
theorem exec_cases (env : Env me) (c : Entry X) (w : World (Linked Store X)) :
    exec env c w = w ∨ Done env w c (exec env c w) :=
  (exec_returns env c w).imp And.right And.right

/-- A step is a call that returns and does what `Done` says, or it is none and touches no
    storage. -/
theorem step_cases (s : Step me (Entry X)) (w : World (Linked Store X)) :
    (∃ env c, s = .call env c ∧ Returns env w c ∧ Done env w c (step s w)) ∨
      ((∀ env c, s = .call env c → ¬ Returns env w c) ∧ (step s w).store = w.store ∧
        (step s w).shared = w.shared) :=
  Step.cases_returns exec_returns s w

/-- What a call that returns keeps of the storage, every step keeps. -/
theorem step_keeps {P : Store → Prop} {w : World (Linked Store X)} {s : Step me (Entry X)}
    (hdone : ∀ env c, s = .call env c → Done env w c (step s w) → P (step s w).store.own)
    (h : P w.store.own) : P (step s w).store.own := by
  rcases step_cases s w with ⟨env, c, hs, -, hreturned⟩ | ⟨-, hstore, -⟩
  · exact hdone env c hs hreturned
  · rw [hstore]
    exact h

end Trellis.Upgrade
