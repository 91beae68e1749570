import Trellis.Shared.Auth
import Trellis.Shared.Events

/-!
# Aid contract

Model of contracts/aid-contract/src/lib.rs with its storage (storage.rs) and types (types.rs). A
donor escrows tokens for a recipient, who can claim them up to the expiry ledger; after it they go
back to the donor.

The participant indexes of storage.rs are part of the storage, but no entry point writes them.
`set_paused` writes the pause flag twice under the same key; the model writes it twice too.

Results:
* `exec_cases`, `step_cases`: what each call checks and does.
* `exec_move`: what a call can do to the records, the configured token and the balances, for all
  entry points.
* `claimAid_succeeds`, `refundAid_succeeds`: when the two exits are open.
-/

namespace Trellis.Aid

open Exec

/-! ## Data -/

/-- `AidError` (contracts/aid-contract/src/lib.rs:32–42). -/
inductive AidError where
  | unauthorized
  | notFound
  | alreadyClaimed
  | expired
  | paused
  | notExpiredYet
  | alreadyRefunded
  deriving DecidableEq, Repr

/-- `error as u32`. -/
def AidError.code : AidError → ℕ
  | unauthorized => 100
  | notFound => 101
  | alreadyClaimed => 102
  | expired => 103
  | paused => 104
  | notExpiredYet => 105
  | alreadyRefunded => 106

/-- `AidStatus` (contracts/aid-contract/src/types.rs:16–23). -/
inductive AidStatus where
  | pending
  | settled
  | refunded
  deriving DecidableEq, Repr

/-- `AidRecord` (contracts/aid-contract/src/types.rs:29–38). -/
structure AidRecord where
  id : ℕ
  donor : Address
  recipient : Address
  token : Address
  amount : ℤ
  expiryLedger : ℕ
  status : AidStatus
  deriving DecidableEq, Repr

/-- The storage keys of the contract: `DataKey` (contracts/aid-contract/src/storage.rs:33–50) and
    `KEY_AIDS`. -/
structure Store where
  aids : Table ℕ AidRecord
  aidCounter : Option ℕ
  token : Option Address
  treasury : Option Address
  defaultExpiry : Option ℕ
  initialized : Option Bool
  keyAids : Option (Table ℕ AidRecord)
  donorIndex : Table Address (List ℕ)
  recipientIndex : Table Address (List ℕ)

/-- The storage of a fresh contract. -/
def Store.empty : Store where
  aids := ∅
  aidCounter := none
  token := none
  treasury := none
  defaultExpiry := none
  initialized := none
  keyAids := none
  donorIndex := ∅
  recipientIndex := ∅

/-- Model of `is_initialized` (contracts/aid-contract/src/storage.rs:183–185). -/
def Store.isInitialized (s : Store) : Bool := s.initialized.getD false

/-- Model of `get_aid_counter` (contracts/aid-contract/src/storage.rs:93–95). -/
def Store.getAidCounter (s : Store) : ℕ := s.aidCounter.getD 0

variable {me : Address}

/-! ## Entry points -/

/-- Model of `initialize` (contracts/aid-contract/src/lib.rs:65–95). -/
def init (env : Env me) (admin treasury token : Address) (defaultExpirySecs : ℕ) :
    Invocation Store Error Unit := do
  let initialized ← read Store.isInitialized
  failIf (initialized = true) .alreadyInitialized
  requireAuth env admin
  setAdmin admin
  write fun s => { s with treasury := some treasury }
  write fun s => { s with token := some token }
  write fun s => { s with defaultExpiry := some defaultExpirySecs }
  write fun s => { s with initialized := some true }
  emitModuleInitialized "aid" 1 admin env.timestamp

/-- Model of `update_config` (contracts/aid-contract/src/lib.rs:131–155). -/
def updateConfig (env : Env me) (admin : Address) (treasury : Option Address)
    (defaultExpirySecs : Option ℕ) : Invocation Store Error Unit := do
  let currentAdmin ← getAdmin
  failIf (admin ≠ currentAdmin) .unauthorized
  requireAuth env admin
  write fun s => { s with treasury := treasury.or s.treasury }
  write fun s => { s with defaultExpiry := defaultExpirySecs.or s.defaultExpiry }

/-- Model of `create_aid` (contracts/aid-contract/src/lib.rs:169–246). -/
def createAid (env : Env me) (donor recipient : Address) (amount : ℤ) (expiryLedger : ℕ) :
    Invocation Store Error ℕ := do
  requireAuth env donor
  trapIf (amount ≤ 0) (.code Error.invalidAmount.code)
  trapIf (expiryLedger ≤ env.sequence) (.code AidError.notExpiredYet.code)
  let aidId ← read Store.getAidCounter
  let stored ← read fun s => s.aids.lookup aidId
  trapIf (stored.isSome = true) (.code Error.invalidArgument.code)
  -- the counter is a `u64` that wraps around
  write fun s => { s with aidCounter := some ((aidId + 1) % 2 ^ 64) }
  let configured ← read Store.token
  let token ← expect configured .missing
  let record : AidRecord := ⟨aidId, donor, recipient, token, amount, expiryLedger, .pending⟩
  write fun s => { s with aids := s.aids.insert aidId record }
  write fun s => { s with keyAids := some ((s.keyAids.getD ∅).insert aidId record) }
  emitAidCreated aidId donor recipient amount env.sequence expiryLedger
  emit aidCreated [.u64 aidId, .address donor, .address recipient, .i128 amount, .u32 expiryLedger]
  emitActionExecuted "aid" "create" me true env.timestamp
  transfer env token donor me amount
  pure aidId

/-- Model of `claim_aid` (contracts/aid-contract/src/lib.rs:260–300). -/
def claimAid (env : Env me) (aidId : ℕ) (recipient : Address) : Invocation Store AidError Unit := do
  let paused ← isPaused
  failIf (paused = true) .paused
  requireAuth env recipient
  let stored ← read fun s => s.aids.lookup aidId
  let record ← okOr stored .notFound
  failIf (record.status = .settled ∨ record.status = .refunded) .alreadyClaimed
  failIf (env.sequence > record.expiryLedger) .expired
  failIf (recipient ≠ record.recipient) .unauthorized
  write fun s => { s with aids := s.aids.insert aidId { record with status := .settled } }
  transfer env record.token me record.recipient record.amount
  emit aidClaimed [.u64 aidId]
  emit aidSettled [.u64 aidId]
  emitActionExecuted "aid" "claim_aid" me true env.timestamp

/-- Model of `refund_aid` (contracts/aid-contract/src/lib.rs:315–348): anyone may call it. -/
def refundAid (env : Env me) (aidId : ℕ) : Invocation Store AidError Unit := do
  let stored ← read fun s => s.aids.lookup aidId
  let record ← okOr stored .notFound
  failIf (record.status = .settled) .alreadyClaimed
  failIf (record.status = .refunded) .alreadyRefunded
  failIf (env.sequence ≤ record.expiryLedger) .notExpiredYet
  write fun s => { s with aids := s.aids.insert aidId { record with status := .refunded } }
  transfer env record.token me record.donor record.amount
  emit aidRefunded [.u64 aidId]
  emitActionExecuted "aid" "refund" me true env.timestamp

/-- Model of `set_paused` (contracts/aid-contract/src/lib.rs:359–378). -/
def setPaused (env : Env me) (admin : Address) (paused : Bool) : Invocation Store Error Unit := do
  let contractAdmin ← getAdmin
  trapIf (admin ≠ contractAdmin) (.code Error.unauthorized.code)
  requireAuth env admin
  writeShared fun s => { s with paused := some paused }
  emitPermissionChanged "aid" "paused" admin paused env.timestamp
  setPausedFlag paused

/-- A call of an entry point that can write. -/
inductive Entry where
  | init (admin treasury token : Address) (defaultExpirySecs : ℕ)
  | updateConfig (admin : Address) (treasury : Option Address) (defaultExpirySecs : Option ℕ)
  | createAid (donor recipient : Address) (amount : ℤ) (expiryLedger : ℕ)
  | claimAid (aidId : ℕ) (recipient : Address)
  | refundAid (aidId : ℕ)
  | setPaused (admin : Address) (paused : Bool)

/-- The state after a call: committed on `Ok`, rolled back otherwise. -/
def exec (env : Env me) : Entry → World Store → World Store
  | .init admin treasury token secs => (init env admin treasury token secs).commit
  | .updateConfig admin treasury secs => (updateConfig env admin treasury secs).commit
  | .createAid donor recipient amount expiry => (createAid env donor recipient amount expiry).commit
  | .claimAid aidId recipient => (claimAid env aidId recipient).commit
  | .refundAid aidId => (refundAid env aidId).commit
  | .setPaused admin paused => (setPaused env admin paused).commit

/-- A step of the chain as the contract sees it. -/
def step : Step me Entry → World Store → World Store := Step.apply exec

theorem store_outside (env : Env me) (x : TokenTransfer) (w : World Store) :
    (step (.outside env x) w).store = w.store :=
  store_outsideTransfer env x w

/-! ## What the entry points do -/

theorem pending_of_not {s : AidStatus} (h₁ : ¬ s = .settled) (h₂ : ¬ s = .refunded) :
    s = .pending := by
  cases s
  · rfl
  · exact absurd rfl h₁
  · exact absurd rfl h₂

/-- What a successful call has checked, and the state it leaves; the events are those it emits. -/
inductive Done (env : Env me) (w : World Store) : Entry → World Store → Prop where
  | init {admin treasury token : Address} {secs : ℕ} (events : List Event)
      (hnot : w.store.isInitialized = false) (hsigned : env.signed admin = true) :
      Done env w (.init admin treasury token secs) { w with
        shared := { w.shared with admin := some admin }
        store := { w.store with
          treasury := some treasury
          token := some token
          defaultExpiry := some secs
          initialized := some true }
        events := w.events ++ events }
  | updateConfig {admin : Address} {treasury : Option Address} {secs : Option ℕ}
      (hadmin : w.shared.admin = some admin) (hsigned : env.signed admin = true) :
      Done env w (.updateConfig admin treasury secs) { w with
        store := { w.store with
          treasury := treasury.or w.store.treasury
          defaultExpiry := secs.or w.store.defaultExpiry } }
  | createAid {donor recipient : Address} {amount : ℤ} {expiry : ℕ} (r : AidRecord)
      (events : List Event)
      (hr : r = ⟨w.store.getAidCounter, donor, recipient, r.token, amount, expiry, .pending⟩)
      (hsigned : env.signed donor = true) (hpos : 0 < amount) (hexpiry : env.sequence < expiry)
      (hnew : w.store.aids.lookup r.id = none) (hconf : w.store.token = some r.token)
      (hallows : env.Allows w.tokens ⟨r.token, donor, me, amount⟩) :
      Done env w (.createAid donor recipient amount expiry) { w with
        store := { w.store with
          aids := w.store.aids.insert r.id r
          aidCounter := some ((r.id + 1) % 2 ^ 64)
          keyAids := some ((w.store.keyAids.getD ∅).insert r.id r) }
        tokens := w.tokens.move ⟨r.token, donor, me, amount⟩
        events := w.events ++ events }
  | claimAid {id : ℕ} (r : AidRecord) (events : List Event)
      (hactive : w.shared.paused.getD false = false) (hsigned : env.signed r.recipient = true)
      (hr : w.store.aids.lookup id = some r) (hpending : r.status = .pending)
      (hdue : env.sequence ≤ r.expiryLedger)
      (hallows : env.Allows w.tokens ⟨r.token, me, r.recipient, r.amount⟩) :
      Done env w (.claimAid id r.recipient) { w with
        store := { w.store with aids := w.store.aids.insert id { r with status := .settled } }
        tokens := w.tokens.move ⟨r.token, me, r.recipient, r.amount⟩
        events := w.events ++ events }
  | refundAid {id : ℕ} (r : AidRecord) (events : List Event)
      (hr : w.store.aids.lookup id = some r) (hpending : r.status = .pending)
      (hdue : r.expiryLedger < env.sequence)
      (hallows : env.Allows w.tokens ⟨r.token, me, r.donor, r.amount⟩) :
      Done env w (.refundAid id) { w with
        store := { w.store with aids := w.store.aids.insert id { r with status := .refunded } }
        tokens := w.tokens.move ⟨r.token, me, r.donor, r.amount⟩
        events := w.events ++ events }
  | setPaused {admin : Address} {paused : Bool} (events : List Event)
      (hadmin : w.shared.admin = some admin) (hsigned : env.signed admin = true) :
      Done env w (.setPaused admin paused) { w with
        shared := { w.shared with paused := some paused }
        events := w.events ++ events }

theorem init_done {env : Env me} {admin treasury token : Address} {secs : ℕ} {w w' : World Store}
    {u : Unit} (h : init env admin treasury token secs w = .ok u w') :
    Done env w (.init admin treasury token secs) w' := by
  simp [init] at h
  obtain ⟨hnot, hsigned, rfl⟩ := h
  exact .init _ hnot hsigned

theorem updateConfig_done {env : Env me} {admin : Address} {treasury : Option Address}
    {secs : Option ℕ} {w w' : World Store} {u : Unit}
    (h : updateConfig env admin treasury secs w = .ok u w') :
    Done env w (.updateConfig admin treasury secs) w' := by
  simp [updateConfig] at h
  obtain ⟨hadmin, hsigned, rfl⟩ := h
  exact .updateConfig hadmin hsigned

theorem createAid_done {env : Env me} {donor recipient : Address} {amount : ℤ} {expiry id : ℕ}
    {w w' : World Store} (h : createAid env donor recipient amount expiry w = .ok id w') :
    Done env w (.createAid donor recipient amount expiry) w' := by
  simp [createAid] at h
  obtain ⟨hsigned, hpos, hexpiry, hnew, token, hconf, ⟨hallows, rfl⟩, rfl⟩ := h
  exact .createAid ⟨_, donor, recipient, token, amount, expiry, .pending⟩ _ rfl hsigned hpos hexpiry
    hnew hconf hallows

theorem claimAid_done {env : Env me} {id : ℕ} {recipient : Address} {w w' : World Store} {u : Unit}
    (h : claimAid env id recipient w = .ok u w') : Done env w (.claimAid id recipient) w' := by
  simp [claimAid] at h
  obtain ⟨hactive, hsigned, r, hr, ⟨hns, hnr⟩, hdue, rfl, hallows, rfl⟩ := h
  exact .claimAid r _ hactive hsigned hr (pending_of_not hns hnr) hdue hallows

theorem refundAid_done {env : Env me} {id : ℕ} {w w' : World Store} {u : Unit}
    (h : refundAid env id w = .ok u w') : Done env w (.refundAid id) w' := by
  simp [refundAid] at h
  obtain ⟨r, hr, hns, hnr, hdue, hallows, rfl⟩ := h
  exact .refundAid r _ hr (pending_of_not hns hnr) hdue hallows

theorem setPaused_done {env : Env me} {admin : Address} {paused : Bool} {w w' : World Store}
    {u : Unit} (h : setPaused env admin paused w = .ok u w') :
    Done env w (.setPaused admin paused) w' := by
  simp [setPaused] at h
  obtain ⟨hadmin, hsigned, rfl⟩ := h
  exact .setPaused _ hadmin hsigned

/-- A call leaves the state alone, or it succeeds and does what `Done` says. -/
theorem exec_cases (env : Env me) (c : Entry) (w : World Store) :
    exec env c w = w ∨ Done env w c (exec env c w) := by
  cases c with
  | init => exact commit_imp fun _ _ => init_done
  | updateConfig => exact commit_imp fun _ _ => updateConfig_done
  | createAid => exact commit_imp fun _ _ => createAid_done
  | claimAid => exact commit_imp fun _ _ => claimAid_done
  | refundAid => exact commit_imp fun _ _ => refundAid_done
  | setPaused => exact commit_imp fun _ _ => setPaused_done

/-- A step is a transfer made by others, or leaves the state alone, or is a call that does what
    `Done` says. -/
theorem step_cases (s : Step me Entry) (w : World Store) :
    (∃ (env : Env me) (x : TokenTransfer), step s w = outsideTransfer env x w) ∨ step s w = w ∨
      ∃ env c w', s = .call env c ∧ step s w = w' ∧ Done env w c w' :=
  Step.cases exec_cases s w

/-- What a call can do to the records, the configured token and the balances. -/
inductive Move (env : Env me) (w w' : World Store) : Prop where
  | quiet (haids : w'.store.aids = w.store.aids) (htoken : w'.store.token = w.store.token)
      (hinit : w'.store.initialized = w.store.initialized) (htokens : w'.tokens = w.tokens)
  | configured (hnot : w.store.isInitialized = false) (hinit : w'.store.isInitialized = true)
      (haids : w'.store.aids = w.store.aids) (htokens : w'.tokens = w.tokens)
  | created (r : AidRecord) (hpending : r.status = .pending) (hpos : 0 < r.amount)
      (hdonor : env.signed r.donor = true) (hnew : w.store.aids.lookup r.id = none)
      (hconf : w.store.token = some r.token) (haids : w'.store.aids = w.store.aids.insert r.id r)
      (htoken : w'.store.token = w.store.token) (hinit : w'.store.initialized = w.store.initialized)
      (htokens : w'.tokens = w.tokens.move ⟨r.token, r.donor, me, r.amount⟩)
  | settled (id : ℕ) (r : AidRecord) (hr : w.store.aids.lookup id = some r)
      (hpending : r.status = .pending) (hdue : env.sequence ≤ r.expiryLedger)
      (hrecipient : env.signed r.recipient = true)
      (haids : w'.store.aids = w.store.aids.insert id { r with status := .settled })
      (htoken : w'.store.token = w.store.token) (hinit : w'.store.initialized = w.store.initialized)
      (htokens : w'.tokens = w.tokens.move ⟨r.token, me, r.recipient, r.amount⟩)
  | refunded (id : ℕ) (r : AidRecord) (hr : w.store.aids.lookup id = some r)
      (hpending : r.status = .pending) (hdue : r.expiryLedger < env.sequence)
      (haids : w'.store.aids = w.store.aids.insert id { r with status := .refunded })
      (htoken : w'.store.token = w.store.token) (hinit : w'.store.initialized = w.store.initialized)
      (htokens : w'.tokens = w.tokens.move ⟨r.token, me, r.donor, r.amount⟩)

theorem Move.refl (env : Env me) (w : World Store) : Move env w w := .quiet rfl rfl rfl rfl

theorem Done.move {env : Env me} {c : Entry} {w w' : World Store} (h : Done env w c w') :
    Move env w w' := by
  cases h with
  | init events hnot hsigned => exact .configured hnot rfl rfl rfl
  | updateConfig hadmin hsigned => exact .quiet rfl rfl rfl rfl
  | createAid r events hr hsigned hpos hexpiry hnew hconf hallows =>
    have hdonor := congrArg AidRecord.donor hr
    have hamount := congrArg AidRecord.amount hr
    refine .created r (congrArg AidRecord.status hr) ?_ ?_ hnew hconf rfl rfl rfl ?_
    · rwa [hamount]
    · rwa [hdonor]
    · rw [hdonor, hamount]
  | claimAid r events hactive hsigned hr hpending hdue hallows =>
    exact .settled _ r hr hpending hdue hsigned rfl rfl rfl rfl
  | refundAid r events hr hpending hdue hallows =>
    exact .refunded _ r hr hpending hdue rfl rfl rfl rfl
  | setPaused events hadmin hsigned => exact .quiet rfl rfl rfl rfl

/-- Every call makes one of these moves; a call that fails makes the quiet one. -/
theorem exec_move (env : Env me) (c : Entry) (w : World Store) : Move env w (exec env c w) := by
  rcases exec_cases env c w with hsame | hdone
  · rw [hsame]
    exact Move.refl env w
  · exact hdone.move

/-- The recipient's exit: while unpaused, up to the expiry ledger, if the token makes the
    payment. -/
theorem claimAid_succeeds {env : Env me} {id : ℕ} {r : AidRecord} {w : World Store}
    (hr : w.store.aids.lookup id = some r) (hpending : r.status = .pending) :
    (claimAid env id r.recipient).Succeeds w ↔
      w.shared.paused.getD false = false ∧ env.signed r.recipient = true ∧
        env.sequence ≤ r.expiryLedger ∧
        env.Allows w.tokens ⟨r.token, me, r.recipient, r.amount⟩ := by
  simp [Exec.Succeeds, claimAid, hr, hpending]

/-- The donor's exit: after the expiry ledger, if the token makes the payment. -/
theorem refundAid_succeeds {env : Env me} {id : ℕ} {r : AidRecord} {w : World Store}
    (hr : w.store.aids.lookup id = some r) (hpending : r.status = .pending) :
    (refundAid env id).Succeeds w ↔
      r.expiryLedger < env.sequence ∧
        env.Allows w.tokens ⟨r.token, me, r.donor, r.amount⟩ := by
  simp [Exec.Succeeds, refundAid, hr, hpending]

end Trellis.Aid
