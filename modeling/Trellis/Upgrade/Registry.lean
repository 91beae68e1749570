import Trellis.Upgrade.Versions

/-!
# The indices of the upgrade registry

The registry entries, the contracts by name, the number of registrations and the migration hooks are
kept under separate keys. `register_contract` asks that the name is new, and counts every
registration.

Results:
* `Indexed.step`: whatever the calls, every name leads to an entry, and every entry is stored under
  its contract.
* `consistent_step_iff`: a step keeps the four in line exactly when it registers no registered
  contract.
* `consistent_iff`: in a run they are in line after every step exactly when no step registers a
  registered contract.
* `not_consistent_reregistered`: a run in which a contract is registered under two names.
-/

namespace Trellis.Upgrade

open Exec

variable {me : Address} {X : Type}

/-! ## Queries -/

/-- Model of `get_registry_entry` (contracts/upgradeability/src/lib.rs:281–286). -/
def Store.getRegistryEntry (s : Store) (contractId : Address) : Except UpgradeError RegistryEntry :=
  match s.entries.lookup contractId with
  | some entry => .ok entry
  | none => .error .contractNotRegistered

/-- Model of `get_registry_entry_by_name` (contracts/upgradeability/src/lib.rs:289–296). -/
def Store.getRegistryEntryByName (s : Store) (name : Symbol) : Except UpgradeError RegistryEntry :=
  match s.byName.lookup name with
  | some contractId => s.getRegistryEntry contractId
  | none => .error .contractNotRegistered

/-- Model of `get_registered_count` (contracts/upgradeability/src/lib.rs:299–301). -/
def Store.getRegisteredCount (s : Store) : ℕ := s.regCnt.getD 0

/-- Model of `get_migration_hook` (contracts/upgradeability/src/lib.rs:350–352). -/
def Store.getMigrationHook (s : Store) (contractId : Address) : Option Address :=
  s.hooks.lookup contractId

/-- Model of `is_registered` (contracts/upgradeability/src/lib.rs:658–660). -/
def Store.isRegistered (s : Store) (contractId : Address) : Bool :=
  (s.entries.lookup contractId).isSome

theorem getRegistryEntry_ok {s : Store} {contractId : Address} {e : RegistryEntry} :
    s.getRegistryEntry contractId = .ok e ↔ s.entries.lookup contractId = some e := by
  unfold Store.getRegistryEntry
  cases s.entries.lookup contractId <;> simp

theorem getRegistryEntryByName_ok {s : Store} {name : Symbol} {e : RegistryEntry} :
    s.getRegistryEntryByName name = .ok e ↔
      ∃ contractId, s.byName.lookup name = some contractId ∧
        s.entries.lookup contractId = some e := by
  unfold Store.getRegistryEntryByName
  cases s.byName.lookup name with
  | none => simp
  | some contractId => simp [getRegistryEntry_ok]

theorem isRegistered_iff {s : Store} {contractId : Address} :
    s.isRegistered contractId = true ↔ ∃ e, s.entries.lookup contractId = some e :=
  Option.isSome_iff_exists

theorem not_isRegistered_iff {s : Store} {contractId : Address} :
    s.isRegistered contractId = false ↔ s.entries.lookup contractId = none := by
  unfold Store.isRegistered
  cases s.entries.lookup contractId <;> simp

theorem ncard_isRegistered (s : Store) :
    {contractId | s.isRegistered contractId = true}.ncard = s.entries.keys.card := by
  have hkeys :
      {contractId | s.isRegistered contractId = true} = (s.entries.keys : Set Address) := by
    ext contractId
    show s.isRegistered contractId = true ↔ contractId ∈ s.entries.keys
    rw [isRegistered_iff, Finmap.mem_keys, Finmap.mem_iff]
  rw [hkeys, Set.ncard_coe_finset]

/-! ## What holds whatever the calls -/

/-- How the keys of the registry belong together in every state. -/
structure Indexed (s : Store) : Prop where
  keyed : s.entries.Forall fun contractId e => e.contractId = contractId
  named : s.byName.Forall fun _ contractId => ∃ e, s.entries.lookup contractId = some e
  hooked : s.hooks.Forall fun contractId _ => ∃ e, s.entries.lookup contractId = some e

theorem Indexed.empty : Indexed Store.empty :=
  ⟨Table.Forall.empty _, Table.Forall.empty _, Table.Forall.empty _⟩

theorem exists_entry_set {entries : Table Address RegistryEntry} {contractId c : Address}
    (e : RegistryEntry) (h : ∃ e, entries.lookup c = some e) :
    ∃ e', (entries.insert contractId e).lookup c = some e' := by
  obtain ⟨e', he'⟩ := h
  rw [Table.lookup_set]
  split_ifs with hc
  · exact ⟨e, rfl⟩
  · exact ⟨e', he'⟩

theorem Indexed.done {env : Env me} {w w' : World (Linked Store X)} {c : Entry X}
    (h : Indexed w.store.own) (hdone : Done env w c w') : Indexed w'.store.own := by
  cases hdone with
  | init => exact h
  | proposeUpgrade => exact ⟨h.keyed, h.named, h.hooked⟩
  | cancelProposal => exact ⟨h.keyed, h.named, h.hooked⟩
  | @registerContract caller contractId name version wasmHash events =>
    refine ⟨h.keyed.set rfl, ?_, ?_⟩
    · refine Table.Forall.set ?_ ⟨_, by rw [Table.lookup_set, if_pos rfl]⟩
      exact h.named.imp fun _ _ => exists_entry_set _
    · exact h.hooked.imp fun _ _ => exists_entry_set _
  | @setMigrationHook caller contractId hookAddr events e hrole hsigned he =>
    refine ⟨h.keyed.set (h.keyed contractId e he), ?_, ?_⟩
    · exact h.named.imp fun _ _ => exists_entry_set _
    · refine Table.Forall.set ?_ ⟨_, by rw [Table.lookup_set, if_pos rfl]⟩
      exact h.hooked.imp fun _ _ => exists_entry_set _
  | @executeUpgrade hooks caller id events p e others hrole hsigned hp hopen he =>
    refine ⟨h.keyed.set (h.keyed p.contractId e he), ?_, ?_⟩
    · exact h.named.imp fun _ _ => exists_entry_set _
    · exact h.hooked.imp fun _ _ => exists_entry_set _

theorem Indexed.step {w : World (Linked Store X)} (h : Indexed w.store.own)
    (s : Step me (Entry X)) : Indexed (step s w).store.own :=
  step_keeps (fun _ _ _ hdone => h.done hdone) h

/-! ## Consistency -/

/-- The four indices of the registry agree. -/
structure Consistent (s : Store) : Prop where
  byName (name : Symbol) (e : RegistryEntry) : s.getRegistryEntryByName name = .ok e →
    e.name = name ∧ s.getRegistryEntry e.contractId = .ok e
  count : s.getRegisteredCount = {contractId | s.isRegistered contractId = true}.ncard
  hook (contractId : Address) (e : RegistryEntry) : s.getRegistryEntry contractId = .ok e →
    e.migrationHook = s.getMigrationHook contractId

/-- The step registers no contract that is registered. -/
def FirstTime (w : World (Linked Store X)) : Step me (Entry X) → Prop
  | .call env (.registerContract caller contractId name version _) =>
    Registers env w caller name version → w.store.own.isRegistered contractId = false
  | _ => True

theorem Consistent.empty : Consistent Store.empty := by
  constructor
  · intro name e he
    obtain ⟨contractId, hname, -⟩ := getRegistryEntryByName_ok.mp he
    simp [Store.empty] at hname
  · rw [ncard_isRegistered]
    rfl
  · intro contractId e he
    have hentry := getRegistryEntry_ok.mp he
    simp [Store.empty] at hentry

/-- An entry is rewritten that keeps its name, with the hook that is stored for its contract. -/
theorem Consistent.rewrite {s s' : Store} (h : Consistent s) (hindexed : Indexed s)
    {contractId : Address} {e e' : RegistryEntry} (he : s.entries.lookup contractId = some e)
    (hentries : s'.entries = s.entries.insert contractId e') (hnames : s'.byName = s.byName)
    (hcount : s'.regCnt = s.regCnt) (hcontract : e'.contractId = e.contractId)
    (hname : e'.name = e.name) (hhook : e'.migrationHook = s'.hooks.lookup contractId)
    (hhooks : ∀ c, c ≠ contractId → s'.hooks.lookup c = s.hooks.lookup c) : Consistent s' := by
  constructor
  · intro name e₁ he₁
    obtain ⟨c, hc, hc₁⟩ := getRegistryEntryByName_ok.mp he₁
    rw [hnames] at hc
    rw [getRegistryEntry_ok]
    rw [hentries, Table.lookup_set] at hc₁ ⊢
    split_ifs at hc₁ with hcc
    · obtain rfl := Option.some.inj hc₁
      subst hcc
      have hold := h.byName name e (getRegistryEntryByName_ok.mpr ⟨c, hc, he⟩)
      rw [hname, hcontract, hindexed.keyed c e he, if_pos rfl]
      exact ⟨hold.1, rfl⟩
    · have hold := h.byName name e₁ (getRegistryEntryByName_ok.mpr ⟨c, hc, hc₁⟩)
      rw [hindexed.keyed c e₁ hc₁, if_neg hcc]
      exact ⟨hold.1, hc₁⟩
  · rw [ncard_isRegistered, hentries, Table.keys_set,
      Finset.insert_eq_of_mem (Table.mem_keys_of_lookup he), ← ncard_isRegistered, ← h.count]
    show s'.regCnt.getD 0 = s.regCnt.getD 0
    rw [hcount]
  · intro c e₁ he₁
    rw [getRegistryEntry_ok, hentries, Table.lookup_set] at he₁
    show e₁.migrationHook = s'.hooks.lookup c
    split_ifs at he₁ with hcc
    · rw [← Option.some.inj he₁, hcc, hhook]
    · rw [hhooks c hcc]
      exact h.hook c e₁ (getRegistryEntry_ok.mpr he₁)

/-- A new contract is registered under a new name. -/
theorem Consistent.register {s s' : Store} (h : Consistent s) (hindexed : Indexed s)
    {contractId : Address} {name : Symbol} {e : RegistryEntry}
    (hfresh : s.entries.lookup contractId = none)
    (hentries : s'.entries = s.entries.insert contractId e)
    (hnames : s'.byName = s.byName.insert name contractId) (hhooks : s'.hooks = s.hooks)
    (hcount : s'.regCnt = some (s.regCnt.getD 0 + 1)) (hcontract : e.contractId = contractId)
    (hname : e.name = name) (hhook : e.migrationHook = none) : Consistent s' := by
  constructor
  · intro name' e₁ he₁
    obtain ⟨c, hc, hc₁⟩ := getRegistryEntryByName_ok.mp he₁
    rw [getRegistryEntry_ok]
    rw [hnames, Table.lookup_set] at hc
    rw [hentries, Table.lookup_set] at hc₁ ⊢
    split_ifs at hc with hnn
    · obtain rfl := Option.some.inj hc
      rw [if_pos rfl] at hc₁
      obtain rfl := Option.some.inj hc₁
      rw [if_pos hcontract]
      exact ⟨hname.trans hnn.symm, rfl⟩
    · -- an old name leads to an old contract
      obtain ⟨e₂, he₂⟩ := hindexed.named name' c hc
      have hne : c ≠ contractId := by
        rintro rfl
        rw [hfresh] at he₂
        cases he₂
      rw [if_neg hne] at hc₁
      have hold := h.byName name' e₁ (getRegistryEntryByName_ok.mpr ⟨c, hc, hc₁⟩)
      rw [hindexed.keyed c e₁ hc₁, if_neg hne]
      exact ⟨hold.1, hc₁⟩
  · have hnew : contractId ∉ s.entries.keys := by
      rw [Finmap.mem_keys, ← Finmap.lookup_eq_none]
      exact hfresh
    rw [ncard_isRegistered, hentries, Table.keys_set, Finset.card_insert_of_notMem hnew,
      ← ncard_isRegistered, ← h.count]
    show s'.regCnt.getD 0 = s.regCnt.getD 0 + 1
    rw [hcount, Option.getD_some]
  · intro c e₁ he₁
    rw [getRegistryEntry_ok, hentries, Table.lookup_set] at he₁
    show e₁.migrationHook = s'.hooks.lookup c
    rw [hhooks]
    split_ifs at he₁ with hcc
    · rw [← Option.some.inj he₁, hhook, hcc]
      -- a hook is stored for registered contracts only
      cases hstored : s.hooks.lookup contractId with
      | none => rfl
      | some addr =>
        obtain ⟨e₂, he₂⟩ := hindexed.hooked contractId addr hstored
        rw [hfresh] at he₂
        cases he₂
    · exact h.hook c e₁ (getRegistryEntry_ok.mpr he₁)

/-- A registered contract that is registered again is counted twice. -/
theorem Consistent.not_reregister {s s' : Store} (h : Consistent s) {contractId : Address}
    {e e' : RegistryEntry} (he : s.entries.lookup contractId = some e)
    (hentries : s'.entries = s.entries.insert contractId e')
    (hcount : s'.regCnt = some (s.regCnt.getD 0 + 1)) : ¬ Consistent s' := by
  intro h'
  have hbefore := h.count
  have hafter := h'.count
  rw [ncard_isRegistered] at hbefore hafter
  rw [hentries, Table.keys_set, Finset.insert_eq_of_mem (Table.mem_keys_of_lookup he),
    ← hbefore] at hafter
  have hlast : s'.getRegisteredCount = s.getRegisteredCount + 1 := by
    show s'.regCnt.getD 0 = s.regCnt.getD 0 + 1
    rw [hcount, Option.getD_some]
  omega

/-- A call that returns keeps the indices in line exactly when it registers no registered
    contract. -/
theorem consistent_done_iff {env : Env me} {w w' : World (Linked Store X)} {c : Entry X}
    (hindexed : Indexed w.store.own) (h : Consistent w.store.own) (hdone : Done env w c w') :
    Consistent w'.store.own ↔ FirstTime w (.call env c) := by
  cases hdone with
  | init => exact iff_of_true h trivial
  | proposeUpgrade => exact iff_of_true ⟨h.byName, h.count, h.hook⟩ trivial
  | cancelProposal => exact iff_of_true ⟨h.byName, h.count, h.hook⟩ trivial
  | @registerContract caller contractId name version wasmHash events hrole hsigned hversion hnew
      hroom =>
    have hregisters : Registers env w caller name version :=
      ⟨hrole, hsigned, hversion, hnew, hroom⟩
    constructor
    · intro h' _
      rw [not_isRegistered_iff]
      by_contra hne
      obtain ⟨e, he⟩ := Option.ne_none_iff_exists'.mp hne
      exact h.not_reregister he rfl rfl h'
    · intro hfirst
      have hfresh := not_isRegistered_iff.mp (hfirst hregisters)
      exact h.register hindexed hfresh rfl rfl rfl rfl rfl rfl rfl
  | @setMigrationHook caller contractId hookAddr events e hrole hsigned he =>
    refine iff_of_true (h.rewrite hindexed he rfl rfl rfl rfl rfl ?_ ?_) trivial
    · show some hookAddr = (w.store.own.hooks.insert contractId hookAddr).lookup contractId
      rw [Table.lookup_set, if_pos rfl]
    · intro c hc
      show (w.store.own.hooks.insert contractId hookAddr).lookup c = _
      rw [Table.lookup_set, if_neg hc]
  | @executeUpgrade hooks caller id events p e others hrole hsigned hp hopen he =>
    refine iff_of_true (h.rewrite hindexed he rfl rfl rfl rfl rfl ?_ fun _ _ => rfl) trivial
    exact h.hook p.contractId e (getRegistryEntry_ok.mpr he)

theorem consistent_step_iff {w : World (Linked Store X)} {s : Step me (Entry X)}
    (hindexed : Indexed w.store.own) (h : Consistent w.store.own) :
    Consistent (step s w).store.own ↔ FirstTime w s := by
  rcases step_cases s w with ⟨env, c, rfl, -, hdone⟩ | ⟨hfails, hstore, -⟩
  · exact consistent_done_iff hindexed h hdone
  · rw [hstore]
    refine iff_of_true h ?_
    cases s with
    | outside => trivial
    | call env c =>
      have hnot := hfails env c rfl
      cases c with
      | registerContract caller contractId name version wasmHash =>
        intro hregisters
        exact absurd (registerContract_succeeds_iff.mpr hregisters) hnot
      | init => trivial
      | setMigrationHook => trivial
      | proposeUpgrade => trivial
      | executeUpgrade => trivial
      | cancelProposal => trivial

/-- In a run of a fresh contract the indices agree after every step exactly when no step registers a
    registered contract. -/
theorem consistent_iff (x : X) (tokens : TokenLedger) (steps : List (Step me (Entry X))) :
    (∀ y ∈ trace step (deployed x tokens) steps, Consistent (step y.2 y.1).store.own) ↔
      ∀ y ∈ trace step (deployed x tokens) steps, FirstTime y.1 y.2 := by
  refine trace_forall_iff (P := fun w : World (Linked Store X) => Indexed w.store.own)
    (G := fun w : World (Linked Store X) => Consistent w.store.own) (N := fun _ _ => True) ?_ ?_
    Indexed.empty Consistent.empty fun _ _ => trivial
  · intro w s h _
    exact h.step s
  · intro w s hindexed _ h
    exact consistent_step_iff hindexed h

/-- One contract registered under the names aid and aid2. -/
def twoNames : List (Step ⟨0⟩ (Entry Unit)) :=
  [.call (.signedBy ⟨0⟩ 1 1 [⟨1⟩]) (.init ⟨1⟩),
    .call (.signedBy ⟨0⟩ 2 2 [⟨1⟩]) (.registerContract ⟨1⟩ ⟨7⟩ "aid" 1 [1]),
    .call (.signedBy ⟨0⟩ 3 3 [⟨1⟩]) (.registerContract ⟨1⟩ ⟨7⟩ "aid2" 1 [1])]

/-- Both names lead to the entry of the second, and one contract is counted twice. -/
theorem not_consistent_reregistered :
    ¬ Consistent (reached () (.ofList []) twoNames).store.own := by
  intro h
  have hentry : (reached () (.ofList []) twoNames).store.own.getRegistryEntryByName "aid" =
      .ok ⟨⟨7⟩, "aid2", ⟨1, [1], 3, "initial"⟩, none⟩ := by
    decide
  have hname := (h.byName _ _ hentry).1
  revert hname
  decide

end Trellis.Upgrade
