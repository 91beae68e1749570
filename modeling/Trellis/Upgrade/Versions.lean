import Trellis.Upgrade.Proposals

/-!
# Versions of the registered contracts

A proposal is checked against the registered version and code when it is made, and they are replaced
when it is executed. In between `register_contract` can rewrite the entry of a contract that is
registered already, because it looks at the name only.

Results:
* `AheadBut.step`: the open proposals stay ahead of the registry, but for those whose contract is
  registered again.
* `versions_increase_iff`: no version decreases and every upgrade raises the version and changes the
  code exactly in the runs in which no contract is registered again with a lower version, and a
  proposal that saw its contract registered again is executed only when it is ahead of the new
  entry.
* `version_lowered`: a run in which an upgrade lowers the version and leaves the code as it is.
-/

namespace Trellis.Upgrade

open Exec

variable {me : Address} {X : Type}

/-- What `register_contract` checks. -/
def Registers (env : Env me) (w : World (Linked Store X)) (caller : Address) (name : Symbol)
    (version : ℕ) : Prop :=
  (caller, Role.admin) ∈ w.shared.roles ∧ env.signed caller = true ∧ 1 ≤ version ∧
    w.store.own.byName.lookup name = none ∧ w.store.own.regCnt.getD 0 + 1 < 2 ^ 64

instance (env : Env me) (w : World (Linked Store X)) (caller : Address) (name : Symbol)
    (version : ℕ) : Decidable (Registers env w caller name version) :=
  inferInstanceAs (Decidable (_ ∧ _))

theorem registerContract_succeeds_iff {env : Env me} {caller contractId : Address} {name : Symbol}
    {version : ℕ} {wasmHash : Bytes} {w : World (Linked Store X)} :
    (registerContract env caller contractId name version wasmHash).Succeeds w ↔
      Registers env w caller name version := by
  constructor
  · rintro ⟨u, w', hok⟩
    cases registerContract_done hok with
    | registerContract events hrole hsigned hversion hnew hroom =>
      exact ⟨hrole, hsigned, hversion, hnew, hroom⟩
  · rintro ⟨hrole, hsigned, hversion, hnew, hroom⟩
    refine ⟨(), ?_⟩
    simp [registerContract, hrole, hsigned, hnew]
    omega

/-- The version and the code are ahead of the entry with these. -/
def UpgradeProposal.AheadOf (p : UpgradeProposal) (version : ℕ) (wasmHash : Bytes) : Prop :=
  version < p.newVersion ∧ wasmHash ≠ p.newWasmHash

instance (p : UpgradeProposal) (version : ℕ) (wasmHash : Bytes) :
    Decidable (p.AheadOf version wasmHash) := inferInstanceAs (Decidable (_ ∧ _))

/-! ## The order of the registrations and upgrades -/

/-- A registration that passes its checks, of a contract that is registered already, gives it no
    lower version. -/
def RegistersInOrder (w : World (Linked Store X)) : Step me (Entry X) → Prop
  | .call env (.registerContract caller contractId name version _) =>
    Registers env w caller name version →
      ∀ e ∈ w.store.own.entries.lookup contractId, e.current.version ≤ version
  | _ => True

instance (w : World (Linked Store X)) : (s : Step me (Entry X)) → Decidable (RegistersInOrder w s)
  | .call env (.registerContract caller contractId name version _) =>
    inferInstanceAs (Decidable (Registers env w caller name version →
      ∀ e ∈ w.store.own.entries.lookup contractId, e.current.version ≤ version))
  | .call _ (.init _) => isTrue trivial
  | .call _ (.setMigrationHook _ _ _) => isTrue trivial
  | .call _ (.proposeUpgrade _ _ _ _ _) => isTrue trivial
  | .call _ (.executeUpgrade _ _ _) => isTrue trivial
  | .call _ (.cancelProposal _ _) => isTrue trivial
  | .outside _ _ => isTrue trivial

/-- The pending proposal for the contract that the step registers again. -/
def reregisteredId (w : World (Linked Store X)) : Step me (Entry X) → Option ℕ
  | .call env (.registerContract caller contractId name version _) =>
    if Registers env w caller name version then w.store.own.getPendingProposal contractId else none
  | _ => none

/-- The stored proposal is ahead of the entry of its contract. -/
def StillAhead (s : Store) (id : ℕ) : Prop :=
  ∀ p ∈ s.proposals.lookup id, ∀ e ∈ s.entries.lookup p.contractId,
    p.AheadOf e.current.version e.current.wasmHash

instance (s : Store) (id : ℕ) : Decidable (StillAhead s id) :=
  inferInstanceAs (Decidable (∀ p ∈ s.proposals.lookup id, ∀ e ∈ s.entries.lookup p.contractId,
    p.AheadOf e.current.version e.current.wasmHash))

/-- In the course of the run the contract of the proposal is registered again while it is
    pending. -/
def Reregistered (x : X) (tokens : TokenLedger) (steps : List (Step me (Entry X))) (id : ℕ) :
    Prop :=
  ∃ z ∈ trace step (deployed x tokens) steps, reregisteredId z.1 z.2 = some id

instance (x : X) (tokens : TokenLedger) (steps : List (Step me (Entry X))) (id : ℕ) :
    Decidable (Reregistered x tokens steps id) := inferInstanceAs (Decidable (∃ z ∈ trace _ _ _, _))

/-- The versions of the registrations of a contract do not fall, and a proposal whose contract is
    registered again while it is pending is executed only when it is ahead of the new entry. -/
structure InOrder (x : X) (tokens : TokenLedger) (steps : List (Step me (Entry X))) : Prop where
  registrations : ∀ y ∈ trace step (deployed x tokens) steps, RegistersInOrder y.1 y.2
  executions : ∀ y ∈ trace step (deployed x tokens) steps, ∀ id ∈ executedId y.1 y.2,
    Reregistered x tokens steps id → StillAhead y.1.store.own id

instance (x : X) (tokens : TokenLedger) (steps : List (Step me (Entry X))) :
    Decidable (InOrder x tokens steps) :=
  decidable_of_iff
    ((∀ y ∈ trace step (deployed x tokens) steps, RegistersInOrder y.1 y.2) ∧
      ∀ y ∈ trace step (deployed x tokens) steps, ∀ id ∈ executedId y.1 y.2,
        Reregistered x tokens steps id → StillAhead y.1.store.own id)
    ⟨fun h => ⟨h.1, h.2⟩, fun h => ⟨h.registrations, h.executions⟩⟩

/-! ## The proposals that are ahead -/

/-- The open proposals are ahead of the registered version and code, but for those in `R`. -/
def AheadBut (R : ℕ → Prop) (s : Store) : Prop :=
  ∀ id p, s.proposals.lookup id = some p → p.Open → ¬ R id →
    ∃ e, s.entries.lookup p.contractId = some e ∧ p.AheadOf e.current.version e.current.wasmHash

theorem AheadBut.empty (R : ℕ → Prop) : AheadBut R Store.empty := by
  intro id p hp
  simp [Store.empty] at hp

/-- An open proposal for a contract is the one that is marked as pending. -/
theorem Book.pending_of_open {s : Store} (h : Book s) {id : ℕ} {p : UpgradeProposal}
    (hp : s.proposals.lookup id = some p) (hopen : p.Open) :
    s.getPendingProposal p.contractId = some id :=
  h.marks.lookup hp hopen

/-- An entry is written that the open proposals for its contract outside `R` are ahead of. -/
theorem AheadBut.setEntry {R : ℕ → Prop} {s s' : Store} (h : AheadBut R s) {contractId : Address}
    {e' : RegistryEntry} (hproposals : s'.proposals = s.proposals)
    (hentries : s'.entries = s.entries.insert contractId e')
    (hahead : ∀ id p e, s.proposals.lookup id = some p → p.Open → ¬ R id →
      p.contractId = contractId → s.entries.lookup contractId = some e →
      p.AheadOf e.current.version e.current.wasmHash →
      p.AheadOf e'.current.version e'.current.wasmHash) : AheadBut R s' := by
  intro id p hp hopen hR
  rw [hproposals] at hp
  obtain ⟨e, he, hpe⟩ := h id p hp hopen hR
  rw [hentries, Table.lookup_set]
  by_cases hc : p.contractId = contractId
  · rw [if_pos hc]
    rw [hc] at he
    exact ⟨e', rfl, hahead id p e hp hopen hR hc he hpe⟩
  · rw [if_neg hc]
    exact ⟨e, he, hpe⟩

theorem AheadBut.done {R : ℕ → Prop} {env : Env me} {w w' : World (Linked Store X)} {c : Entry X}
    (hbook : Book w.store.own) (h : AheadBut R w.store.own)
    (hR : ∀ id ∈ reregisteredId w (.call env c), R id) (hdone : Done env w c w') :
    AheadBut R w'.store.own := by
  cases hdone with
  | init => exact h
  | registerContract events hrole hsigned hversion hnew hroom =>
    refine h.setEntry rfl rfl fun id p e hp hopen hnot hc he _ => ?_
    -- the proposal is the pending one of the contract, which is registered again
    have hpending := hbook.pending_of_open hp hopen
    rw [hc] at hpending
    refine absurd (hR id ?_) hnot
    show (if _ then _ else _) = _
    rw [if_pos ⟨hrole, hsigned, hversion, hnew, hroom⟩]
    exact hpending
  | setMigrationHook events e₀ hrole hsigned he₀ =>
    refine h.setEntry rfl rfl fun id p e hp hopen hnot hc he hpe => ?_
    rw [he₀] at he
    obtain rfl := Option.some.inj he
    exact hpe
  | proposeUpgrade events e hrole hsigned he hversion hhash =>
    intro id p hp hopen hnot
    rw [Table.lookup_set] at hp
    split_ifs at hp
    · rw [← Option.some.inj hp]
      exact ⟨e, he, hversion, hhash.symm⟩
    · exact h id p hp hopen hnot
  | @executeUpgrade hooks caller id' events p' e others hrole hsigned hp' hopen' he =>
    intro id p hp hopen hnot
    change (w.store.own.proposals.insert _ _).lookup id = some p at hp
    rw [Table.lookup_set] at hp
    split_ifs at hp with hid
    · -- the executed proposal is open no more
      rw [← Option.some.inj hp] at hopen
      cases hopen
    · obtain ⟨e', he', hpe⟩ := h id p hp hopen hnot
      have hc : p.contractId ≠ p'.contractId :=
        fun hc => hid (hbook.marks.unique hp hopen hp' hopen' hc)
      refine ⟨e', ?_, hpe⟩
      show (w.store.own.entries.insert _ _).lookup _ = some e'
      rw [Table.lookup_set, if_neg hc, he']
  | cancelProposal =>
    intro id p hp hopen hnot
    rw [Table.lookup_unset] at hp
    split_ifs at hp
    exact h id p hp hopen hnot

theorem AheadBut.step {R : ℕ → Prop} {w : World (Linked Store X)} {s : Step me (Entry X)}
    (hbook : Book w.store.own) (h : AheadBut R w.store.own)
    (hR : ∀ id ∈ reregisteredId w s, R id) : AheadBut R (step s w).store.own := by
  refine step_keeps (fun env c hs hdone => ?_) h
  rw [hs] at hR
  exact h.done hbook hR hdone

/-! ## Versions and upgrades -/

/-- The registry entry `e'` has no lower version than `e`. -/
def RegistryEntry.NoLower (e e' : RegistryEntry) : Prop := e.current.version ≤ e'.current.version

theorem RegistryEntry.NoLower.refl (e : RegistryEntry) : e.NoLower e := le_refl e.current.version

theorem noLower_step {w : World (Linked Store X)} {s : Step me (Entry X)}
    (hregisters : RegistersInOrder w s)
    (hexecutes : ∀ id, executedId w s = some id → StillAhead w.store.own id) :
    Table.Evolves RegistryEntry.NoLower w.store.own.entries (step s w).store.own.entries := by
  have hrefl : ∀ e : RegistryEntry, e.NoLower e := RegistryEntry.NoLower.refl
  rcases step_cases s w with ⟨env, c, rfl, hreturns, hdone⟩ | ⟨-, hstore, -⟩
  · generalize step (.call env c) w = w' at hdone ⊢
    cases hdone with
    | init => exact Table.Evolves.refl hrefl _
    | proposeUpgrade => exact Table.Evolves.refl hrefl _
    | cancelProposal => exact Table.Evolves.refl hrefl _
    | @registerContract caller contractId name version wasmHash events hrole hsigned hversion hnew
        hroom =>
      cases he : w.store.own.entries.lookup contractId with
      | none => exact Table.Evolves.set_new hrefl he _
      | some e =>
        have hle := hregisters ⟨hrole, hsigned, hversion, hnew, hroom⟩ e he
        exact Table.Evolves.set_old hrefl he hle
    | setMigrationHook events e hrole hsigned he =>
      exact Table.Evolves.set_old hrefl he (hrefl e)
    | @executeUpgrade hooks caller id events p e others hrole hsigned hp hopen he =>
      have hahead := hexecutes id (executedId_eq_some.mpr ⟨env, hooks, caller, rfl, hreturns⟩)
      exact Table.Evolves.set_old hrefl he (hahead p hp e he).1.le
  · rw [hstore]
    exact Table.Evolves.refl hrefl _

/-- Over steps that register and execute in order no version decreases. -/
theorem noLower_run {w : World (Linked Store X)} {steps : List (Step me (Entry X))}
    (h : ∀ y ∈ trace step w steps, RegistersInOrder y.1 y.2 ∧
      ∀ id, executedId y.1 y.2 = some id → StillAhead y.1.store.own id) :
    Table.Evolves RegistryEntry.NoLower w.store.own.entries
      (run step w steps).store.own.entries :=
  Table.Evolves.run_of_trace (P := fun _ => True)
    (Q := fun w s => RegistersInOrder w s ∧
      ∀ id, executedId w s = some id → StillAhead w.store.own id)
    (fun w => w.store.own.entries) RegistryEntry.NoLower.refl (fun _ _ _ => le_trans)
    (fun _ _ _ _ => trivial) (fun _ _ _ hs => noLower_step hs.1 hs.2) trivial h

theorem getVersion_ok {s : Store} {contractId : Address} {v : ℕ} :
    s.getVersion contractId = .ok v ↔
      ∃ e, s.entries.lookup contractId = some e ∧ e.current.version = v := by
  unfold Store.getVersion
  cases s.entries.lookup contractId <;> simp

theorem getWasmHash_ok {s : Store} {contractId : Address} {wasmHash : Bytes} :
    s.getWasmHash contractId = .ok wasmHash ↔
      ∃ e, s.entries.lookup contractId = some e ∧ e.current.wasmHash = wasmHash := by
  unfold Store.getWasmHash
  cases s.entries.lookup contractId <;> simp

/-- The version of the contract rises between the two states, and its code changes. -/
def Raised (s s' : Store) (contractId : Address) : Prop :=
  ∃ v v' wasmHash wasmHash', s.getVersion contractId = .ok v ∧
    s'.getVersion contractId = .ok v' ∧ v < v' ∧ s.getWasmHash contractId = .ok wasmHash ∧
    s'.getWasmHash contractId = .ok wasmHash' ∧ wasmHash' ≠ wasmHash

/-- Between two entries of the contract the version rises and the code changes. -/
theorem raised_iff {s s' : Store} {contractId : Address} {e e' : RegistryEntry}
    (he : s.entries.lookup contractId = some e) (he' : s'.entries.lookup contractId = some e') :
    Raised s s' contractId ↔
      e.current.version < e'.current.version ∧ e'.current.wasmHash ≠ e.current.wasmHash := by
  constructor
  · rintro ⟨v, v', wasmHash, wasmHash', hv, hv', hlt, hhash, hhash', hne⟩
    obtain ⟨_, h₁, rfl⟩ := getVersion_ok.mp hv
    obtain ⟨_, h₂, rfl⟩ := getVersion_ok.mp hv'
    obtain ⟨_, h₃, rfl⟩ := getWasmHash_ok.mp hhash
    obtain ⟨_, h₄, rfl⟩ := getWasmHash_ok.mp hhash'
    rw [he] at h₁ h₃
    rw [he'] at h₂ h₄
    cases h₁
    cases h₂
    cases h₃
    cases h₄
    exact ⟨hlt, hne⟩
  · rintro ⟨hlt, hne⟩
    exact ⟨_, _, _, _, getVersion_ok.mpr ⟨e, he, rfl⟩, getVersion_ok.mpr ⟨e', he', rfl⟩, hlt,
      getWasmHash_ok.mpr ⟨e, he, rfl⟩, getWasmHash_ok.mpr ⟨e', he', rfl⟩, hne⟩

/-- An upgrade raises the version and changes the code exactly when its proposal is ahead. -/
theorem raised_iff_stillAhead {w : World (Linked Store X)} {s : Step me (Entry X)} {id : ℕ}
    (hid : executedId w s = some id) :
    (∃ p, w.store.own.proposals.lookup id = some p ∧
      Raised w.store.own (step s w).store.own p.contractId) ↔ StillAhead w.store.own id := by
  obtain ⟨env, hooks, caller, rfl, hsucceeds⟩ := executedId_eq_some.mp hid
  have hdone : Done env w (.executeUpgrade hooks caller id)
      (step (.call env (.executeUpgrade hooks caller id)) w) :=
    commit_of_succeeds (fun _ _ => executeUpgrade_done) hsucceeds
  generalize step (.call env (.executeUpgrade hooks caller id)) w = w' at hdone ⊢
  cases hdone with
  | executeUpgrade events p e others hrole hsigned hp hopen he =>
    have hafter : (w.store.own.upgrade env.timestamp caller id p e).entries.lookup p.contractId =
        some { e with current := ⟨p.newVersion, p.newWasmHash, env.timestamp, p.note⟩ } := by
      show (w.store.own.entries.insert _ _).lookup _ = _
      rw [Table.lookup_set, if_pos rfl]
    have hraised : Raised w.store.own (w.store.own.upgrade env.timestamp caller id p e)
        p.contractId ↔ p.AheadOf e.current.version e.current.wasmHash :=
      (raised_iff he hafter).trans (and_congr_right fun _ => ne_comm)
    constructor
    · rintro ⟨q, hq, hq'⟩
      rw [hp] at hq
      obtain rfl := Option.some.inj hq
      intro q hq e' he'
      rw [Option.mem_def, hp] at hq
      obtain rfl := Option.some.inj hq
      rw [Option.mem_def, he] at he'
      obtain rfl := Option.some.inj he'
      exact hraised.mp hq'
    · intro h
      exact ⟨p, hp, hraised.mpr (h p hp e he)⟩

/-- In the course of the run no version decreases, and every upgrade raises the version and changes
    the code. -/
structure VersionsIncrease (x : X) (tokens : TokenLedger) (steps : List (Step me (Entry X))) :
    Prop where
  grow : ∀ pre mid post, steps = pre ++ mid ++ post → ∀ contractId v,
    (reached x tokens pre).store.own.getVersion contractId = .ok v →
    ∃ v', (reached x tokens (pre ++ mid)).store.own.getVersion contractId = .ok v' ∧ v ≤ v'
  raise : ∀ y ∈ trace step (deployed x tokens) steps, ∀ id, executedId y.1 y.2 = some id →
    ∃ p, y.1.store.own.proposals.lookup id = some p ∧
      Raised y.1.store.own (step y.2 y.1).store.own p.contractId

/-- In a run in order every executed proposal is ahead of the entry of its contract. -/
theorem InOrder.stillAhead {x : X} {tokens : TokenLedger} {steps : List (Step me (Entry X))}
    (h : InOrder x tokens steps) {y : World (Linked Store X) × Step me (Entry X)}
    (hy : y ∈ trace step (deployed x tokens) steps) {id : ℕ} (hid : executedId y.1 y.2 = some id) :
    StillAhead y.1.store.own id := by
  by_cases hR : Reregistered x tokens steps id
  · exact h.executions y hy id hid hR
  · -- no registration came between the proposal and its execution
    have hkeep : Book y.1.store.own ∧ AheadBut (Reregistered x tokens steps) y.1.store.own :=
      trace_induct_of_trace
        (P := fun w => Book w.store.own ∧ AheadBut (Reregistered x tokens steps) w.store.own)
        (Q := fun w s => ∀ id ∈ reregisteredId w s, Reregistered x tokens steps id)
        (fun w s hw hs => ⟨hw.1.step s, hw.2.step hw.1 hs⟩) ⟨Book.empty, AheadBut.empty _⟩
        (fun z hz id hzid => ⟨z, hz, hzid⟩) hy
    obtain ⟨env, hooks, caller, -, _, _, hok⟩ := executedId_eq_some.mp hid
    cases executeUpgrade_done hok with
    | executeUpgrade events p e others hrole hsigned hp hopen he =>
      intro q hq e' he'
      obtain rfl := Option.some.inj (hp.symm.trans hq)
      obtain ⟨e'', he'', hahead⟩ := hkeep.2 id p hp hopen hR
      rw [Option.mem_def, he''] at he'
      rwa [← Option.some.inj he']

/-- A registration of a registered contract replaces its version. -/
theorem RegistersInOrder.of_grow {w : World (Linked Store X)} {s : Step me (Entry X)}
    (h : ∀ contractId v, w.store.own.getVersion contractId = .ok v →
      ∃ v', (step s w).store.own.getVersion contractId = .ok v' ∧ v ≤ v') :
    RegistersInOrder w s := by
  cases s with
  | outside => trivial
  | call env c =>
    cases c with
    | init => trivial
    | setMigrationHook => trivial
    | proposeUpgrade => trivial
    | executeUpgrade => trivial
    | cancelProposal => trivial
    | registerContract caller contractId name version wasmHash =>
      intro hregisters e he
      obtain ⟨v', hv', hle⟩ := h contractId _ (getVersion_ok.mpr ⟨e, he, rfl⟩)
      have hdone : Done env w (.registerContract caller contractId name version wasmHash)
          (step (.call env (.registerContract caller contractId name version wasmHash)) w) :=
        commit_of_succeeds (fun _ _ => registerContract_done)
          (registerContract_succeeds_iff.mpr hregisters)
      generalize step (.call env (.registerContract caller contractId name version wasmHash)) w = w'
        at hdone hv'
      obtain ⟨e', he', rfl⟩ := getVersion_ok.mp hv'
      cases hdone with
      | registerContract =>
        change (w.store.own.entries.insert _ _).lookup _ = some e' at he'
        rw [Table.lookup_set, if_pos rfl] at he'
        obtain rfl := Option.some.inj he'
        exact hle

/-- The versions increase exactly in the runs in order. -/
theorem versions_increase_iff (x : X) (tokens : TokenLedger) (steps : List (Step me (Entry X))) :
    VersionsIncrease x tokens steps ↔ InOrder x tokens steps := by
  constructor
  · intro h
    constructor
    · intro y hy
      obtain ⟨pre, post, hsteps, hstate⟩ := mem_trace_iff.mp hy
      refine RegistersInOrder.of_grow fun contractId v hv => ?_
      rw [hstate] at hv ⊢
      have hgrow := h.grow pre [y.2] post (by rw [hsteps, List.append_assoc]; rfl) contractId v hv
      rwa [reached, run_append] at hgrow
    · intro y hy id hid _
      exact (raised_iff_stillAhead hid).mp (h.raise y hy id hid)
  · intro h
    constructor
    · rintro pre mid post rfl contractId v hv
      obtain ⟨e, he, rfl⟩ := getVersion_ok.mp hv
      have horder : ∀ y ∈ trace step (reached x tokens pre) mid, RegistersInOrder y.1 y.2 ∧
          ∀ id, executedId y.1 y.2 = some id → StillAhead y.1.store.own id := by
        intro y hy
        have hy' : y ∈ trace step (deployed x tokens) (pre ++ mid ++ post) := by
          rw [trace_append, trace_append]
          exact List.mem_append_left _ (List.mem_append_right _ hy)
        exact ⟨h.registrations y hy', fun id hid => h.stillAhead hy' hid⟩
      obtain ⟨e', he', hle⟩ := noLower_run horder contractId e he
      refine ⟨_, getVersion_ok.mpr ⟨e', ?_, rfl⟩, hle⟩
      rw [reached, run_append]
      exact he'
    · intro y hy id hid
      exact (raised_iff_stillAhead hid).mpr (h.stillAhead hy hid)

/-! ## Two runs -/

/-- The contract of `proposedRun` is registered again under another name, before its proposal is
    executed or cancelled. -/
def reregisteredRun (version : ℕ) (wasmHash : Bytes) (next : List (Entry Unit)) :
    List (Step ⟨0⟩ (Entry Unit)) :=
  proposedRun ++
    .call (.signedBy ⟨0⟩ 4 4 [⟨1⟩]) (.registerContract ⟨1⟩ ⟨7⟩ "aid2" version wasmHash) ::
      next.map (.call (.signedBy ⟨0⟩ 5 5 [⟨1⟩]))

/-- Registered again in version 5 with the proposed code, the contract is upgraded to version 6
    after the proposal that is not ahead any more was cancelled. -/
theorem versions_increase_cancelled :
    VersionsIncrease () (.ofList []) (reregisteredRun 5 [2]
      [.cancelProposal ⟨1⟩ 1, .proposeUpgrade ⟨1⟩ ⟨7⟩ [3] 6 "", .executeUpgrade noHooks ⟨1⟩ 2]) :=
  (versions_increase_iff () (.ofList []) _).mpr (by decide)

/-- Executed instead, the proposal takes the contract back from version 5 to version 2, and leaves
    its code as it is. -/
theorem version_lowered :
    ¬ VersionsIncrease () (.ofList []) (reregisteredRun 5 [2] [.executeUpgrade noHooks ⟨1⟩ 1]) := by
  intro h
  obtain ⟨v, hv, hle⟩ := h.grow ((reregisteredRun 5 [2] [.executeUpgrade noHooks ⟨1⟩ 1]).take 4)
    ((reregisteredRun 5 [2] [.executeUpgrade noHooks ⟨1⟩ 1]).drop 4) [] rfl ⟨7⟩ 5 (by decide)
  have hafter : (reached () (.ofList [])
      (reregisteredRun 5 [2] [.executeUpgrade noHooks ⟨1⟩ 1])).store.own.getVersion ⟨7⟩ =
        .ok 2 := by
    decide
  obtain rfl : 2 = v := Except.ok.inj (hafter.symm.trans hv)
  omega

end Trellis.Upgrade
