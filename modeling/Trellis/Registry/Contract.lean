import Trellis.Lib.Table
import Trellis.Shared.Auth
import Trellis.Shared.Events

/-!
# Registry contract

Model of contracts/registry-contract/src/lib.rs: the address, the version and the version history of
every named contract, and metadata entries that can be made immutable.

Results:
* `exec_cases`: a call leaves the state alone, or it succeeds; `Done` says what it has checked then
  and which state it leaves.
-/

namespace Trellis.Registry

open Exec

/-- `ContractRegistration` (contracts/registry-contract/src/lib.rs:17–20). -/
structure ContractRegistration where
  address : Address
  version : ℕ
  deriving DecidableEq, Repr

/-- `MetadataEntry` (contracts/registry-contract/src/lib.rs:25–36). -/
structure MetadataEntry where
  uri : Bytes
  hash : Bytes
  immutable : Bool
  updatedAt : ℕ
  schemaVersion : ℕ
  deriving DecidableEq, Repr

/-- The maps under the storage keys `KEY_CONTRACTS`, `KEY_METADATA` and `KEY_HISTORY`; every reader
    takes an absent map for an empty one. -/
structure Store where
  contracts : Table Symbol ContractRegistration
  metadata : Table Symbol MetadataEntry
  history : Table Symbol (List ℕ)

/-- The storage of a fresh contract. -/
def Store.empty : Store where
  contracts := ∅
  metadata := ∅
  history := ∅

/-- The versions recorded for `name`. -/
def Store.versions (s : Store) (name : Symbol) : List ℕ := (s.history.lookup name).getD []

/-- The entry under `name` is marked immutable. -/
def Store.isFrozen (s : Store) (name : Symbol) : Bool :=
  (s.metadata.lookup name).elim false MetadataEntry.immutable

/-- Model of `get_contract` (contracts/registry-contract/src/lib.rs:132–140). -/
def Store.getContract (s : Store) (name : Symbol) : Except Error (Address × ℕ) :=
  match s.contracts.lookup name with
  | some registration => .ok (registration.address, registration.version)
  | none => .error .notFound

/-- Model of `get_version_history` (contracts/registry-contract/src/lib.rs:143–150). -/
def Store.getVersionHistory (s : Store) (name : Symbol) : Except Error (List ℕ) :=
  match s.history.lookup name with
  | some versions => .ok versions
  | none => .error .notFound

/-- Model of `get_metadata` (contracts/registry-contract/src/lib.rs:213–220). -/
def Store.getMetadata (s : Store) (name : Symbol) : Except Error MetadataEntry :=
  match s.metadata.lookup name with
  | some entry => .ok entry
  | none => .error .metadataNotFound

variable {me : Address}

/-! ## Entry points -/

/-- Model of `initialize` (contracts/registry-contract/src/lib.rs:55–64). It checks no caller and no
    earlier initialisation. -/
def init (env : Env me) (admin : Address) : Invocation Store Error Unit := do
  setAdmin admin
  emitModuleInitialized "registry" 1 admin env.timestamp

/-- The block of `set_contract` that records the version
    (contracts/registry-contract/src/lib.rs:98–118): the last version is compared first, and only
    then the whole history. -/
def recordVersion (name : Symbol) (version : ℕ) : Invocation Store Error Unit := do
  let versions ← read fun s => s.versions name
  onlyIf (¬ (¬ versions = [] ∧ versions.getLastD 0 = version)) do
    onlyIf (version ∉ versions) do
      write fun s => { s with history := s.history.insert name (versions ++ [version]) }

/-- Model of `set_contract` (contracts/registry-contract/src/lib.rs:74–129). -/
def setContract (env : Env me) (caller : Address) (name : Symbol) (address : Address)
    (version : ℕ) : Invocation Store Error Unit := do
  requireAdmin env caller
  write fun s => { s with contracts := s.contracts.insert name ⟨address, version⟩ }
  recordVersion name version
  emitActionExecuted "registry" "set_ctr" caller true env.timestamp

/-- Model of `set_metadata` (contracts/registry-contract/src/lib.rs:163–210). -/
def setMetadata (env : Env me) (caller : Address) (name : Symbol) (uri hash : Bytes)
    (immutable : Bool) (schemaVersion : ℕ) : Invocation Store Error Unit := do
  requireAdmin env caller
  let frozen ← read fun s => s.isFrozen name
  failIf (frozen = true) .immutableEntry
  failIf (hash.length ≠ 32) .invalidHash
  failIf (uri = []) .invalidArgument
  write fun s => { s with
    metadata := s.metadata.insert name ⟨uri, hash, immutable, env.timestamp, schemaVersion⟩ }

/-- A call of an entry point that can write. -/
inductive Entry where
  | init (admin : Address)
  | setContract (caller : Address) (name : Symbol) (address : Address) (version : ℕ)
  | setMetadata (caller : Address) (name : Symbol) (uri hash : Bytes) (immutable : Bool)
      (schemaVersion : ℕ)

/-- The state after a call: committed on `Ok`, rolled back otherwise. -/
def exec (env : Env me) : Entry → World Store → World Store
  | .init admin => (init env admin).commit
  | .setContract caller name address version => (setContract env caller name address version).commit
  | .setMetadata caller name uri hash immutable schemaVersion =>
    (setMetadata env caller name uri hash immutable schemaVersion).commit

/-- The call returns `Ok`. -/
def Returns (env : Env me) (w : World Store) : Entry → Prop
  | .init admin => (init env admin).Succeeds w
  | .setContract caller name address version =>
      (setContract env caller name address version).Succeeds w
  | .setMetadata caller name uri hash immutable schemaVersion =>
    (setMetadata env caller name uri hash immutable schemaVersion).Succeeds w

/-- A step of the chain as the contract sees it. -/
def step : Step me Entry → World Store → World Store := Step.apply exec

/-- A fresh contract on a chain with these token balances. -/
def deployed (tokens : TokenLedger) : World Store := World.deployed Store.empty tokens

/-! ## What the entry points do -/

/-- The version is appended to the history of `name` unless it is there. -/
def Store.addVersion (s : Store) (name : Symbol) (version : ℕ) : Store :=
  if version ∈ s.versions name then s
  else { s with history := s.history.insert name (s.versions name ++ [version]) }

/-- What a successful call has checked, and the state it leaves. -/
inductive Done (env : Env me) (w : World Store) : Entry → World Store → Prop where
  | init {admin : Address} (events : List Event) :
      Done env w (.init admin)
        { w with shared := { w.shared with admin := some admin }, events := events }
  | setContract {caller : Address} {name : Symbol} {address : Address} {version : ℕ}
      (events : List Event) (hadmin : w.shared.admin = some caller)
      (hsigned : env.signed caller = true) :
      Done env w (.setContract caller name address version) { w with
        store := Store.addVersion { w.store with
          contracts := w.store.contracts.insert name ⟨address, version⟩ } name version
        events := events }
  | setMetadata {caller : Address} {name : Symbol} {uri hash : Bytes} {immutable : Bool}
      {schemaVersion : ℕ} (hadmin : w.shared.admin = some caller)
      (hsigned : env.signed caller = true) (hopen : w.store.isFrozen name = false)
      (hhash : hash.length = 32) (huri : uri ≠ []) :
      Done env w (.setMetadata caller name uri hash immutable schemaVersion) { w with
        store := { w.store with
          metadata := w.store.metadata.insert name
            ⟨uri, hash, immutable, env.timestamp, schemaVersion⟩ } }

theorem init_done {env : Env me} {admin : Address} {w w' : World Store} {u : Unit}
    (h : init env admin w = .ok u w') : Done env w (.init admin) w' := by
  simp [init] at h
  obtain rfl := h
  exact .init _

theorem mem_of_getLastD {versions : List ℕ} (hne : versions ≠ []) :
    versions.getLastD 0 ∈ versions := by
  rw [List.getLastD_eq_getLast?, List.getLast?_eq_some_getLast hne]
  exact List.getLast_mem hne

/-- The comparison with the last version makes no difference. -/
theorem recordVersion_ok {name : Symbol} {version : ℕ} {w w' : World Store} {u : Unit}
    (h : recordVersion name version w = .ok u w') :
    w' = { w with store := w.store.addVersion name version } := by
  simp only [recordVersion, bind_ok, read_ok, onlyIf_ok, write_ok] at h
  obtain ⟨_, _, ⟨rfl, rfl⟩, ⟨-, ⟨hnew, rfl⟩ | ⟨hold, rfl⟩⟩ | ⟨hskip, rfl⟩⟩ := h
  · rw [Store.addVersion, if_neg hnew]
  · rw [Store.addVersion, if_pos (not_not.mp hold)]
  · obtain ⟨hne, hlast⟩ := not_not.mp hskip
    have hmem := mem_of_getLastD hne
    rw [hlast] at hmem
    rw [Store.addVersion, if_pos hmem]

theorem setContract_done {env : Env me} {caller : Address} {name : Symbol} {address : Address}
    {version : ℕ} {w w' : World Store} {u : Unit}
    (h : setContract env caller name address version w = .ok u w') :
    Done env w (.setContract caller name address version) w' := by
  simp [setContract] at h
  obtain ⟨⟨hadmin, hsigned⟩, _, w₁, hrecord, rfl⟩ := h
  obtain rfl := recordVersion_ok hrecord
  exact .setContract _ hadmin hsigned

theorem setMetadata_done {env : Env me} {caller : Address} {name : Symbol} {uri hash : Bytes}
    {immutable : Bool} {schemaVersion : ℕ} {w w' : World Store} {u : Unit}
    (h : setMetadata env caller name uri hash immutable schemaVersion w = .ok u w') :
    Done env w (.setMetadata caller name uri hash immutable schemaVersion) w' := by
  simp [setMetadata] at h
  obtain ⟨⟨hadmin, hsigned⟩, hopen, hhash, huri, rfl⟩ := h
  exact .setMetadata hadmin hsigned hopen hhash huri

theorem exec_returns (env : Env me) (c : Entry) (w : World Store) :
    (¬ Returns env w c ∧ exec env c w = w) ∨ (Returns env w c ∧ Done env w c (exec env c w)) := by
  cases c with
  | init => exact commit_returns fun _ _ => init_done
  | setContract => exact commit_returns fun _ _ => setContract_done
  | setMetadata => exact commit_returns fun _ _ => setMetadata_done

/-- A call leaves the state alone, or it succeeds and does what `Done` says. -/
theorem exec_cases (env : Env me) (c : Entry) (w : World Store) :
    exec env c w = w ∨ Done env w c (exec env c w) :=
  (exec_returns env c w).imp And.right And.right

theorem step_cases (s : Step me Entry) (w : World Store) :
    (∃ env c, s = .call env c ∧ Returns env w c ∧ Done env w c (step s w)) ∨
      ((∀ env c, s = .call env c → ¬ Returns env w c) ∧ (step s w).store = w.store ∧
        (step s w).shared = w.shared) :=
  Step.cases_returns exec_returns s w

end Trellis.Registry
