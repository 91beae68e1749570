import Trellis.Registry.Contract

/-!
# What the registry stores

Each call of `set_contract` and of `set_metadata` reads a whole map, changes it and writes it back.
Read one name at a time, the maps say what the successful calls for that name were.

Results:
* `recordVersion_eq`: with the comparison with the last version first, the history becomes what the
  full scan makes of it.
* `records_step`, `records_reached`: the registration of a name and its history.
* `reads_step`: a step that is no call for the name changes nothing that is read for it.
* `wellFormed_step`, `frozen_step`: what is kept of the metadata.
* `store_law`: these in every reachable state.
-/

namespace Trellis.Registry

open Exec

variable {me : Address}

/-! ## Distinct values in the order of their first occurrences -/

theorem eraseDups_concat {α : Type} [DecidableEq α] (as : List α) (a : α) :
    (as ++ [a]).eraseDups = if a ∈ as.eraseDups then as.eraseDups else as.eraseDups ++ [a] := by
  rw [List.eraseDups_append, List.cons_removeAll, List.nil_removeAll, List.contains_eq_mem]
  by_cases hmem : a ∈ as
  · rw [if_pos (List.mem_eraseDups.mpr hmem)]
    simp [hmem]
  · rw [if_neg fun h => hmem (List.mem_eraseDups.mp h)]
    simp [hmem, List.eraseDups_cons]

theorem nodup_eraseDups {α : Type} [DecidableEq α] (as : List α) : as.eraseDups.Nodup := by
  induction as using List.reverseRecOn with
  | nil => exact List.nodup_nil
  | append_singleton as a ih =>
    rw [eraseDups_concat]
    split_ifs with hmem
    · exact ih
    · exact ih.append (List.nodup_singleton a) (List.disjoint_singleton.mpr hmem)

/-! ## Registrations -/

/-- What a step registers for `name`: the address and the version of a successful `set_contract`. -/
def registered (name : Symbol) (w : World Store) : Step me Entry → Option (Address × ℕ)
  | .call env (.setContract caller name' address version) =>
    if name' = name then
      ((setContract env caller name' address version).value w).map fun _ => (address, version)
    else none
  | _ => none

/-- The block of `set_contract` that records the version does what the scan of the whole history
    does. -/
theorem recordVersion_eq (name : Symbol) (version : ℕ) (w : World Store) :
    recordVersion name version w = .ok () { w with store := w.store.addVersion name version } := by
  cases h : recordVersion name version w with
  | ok u w' => rw [recordVersion_ok h]
  | fail f w' => simp [recordVersion] at h

/-- What is stored for a name for which the registrations `as` were made. -/
structure Records (name : Symbol) (as : List (Address × ℕ)) (s : Store) : Prop where
  contract : s.contracts.lookup name = as.getLast?.map fun a => ⟨a.1, a.2⟩
  history : s.history.lookup name =
    if as = [] then none else some (as.map Prod.snd).eraseDups

theorem records_empty (name : Symbol) : Records name [] Store.empty := by
  constructor
  · exact Finmap.lookup_empty name
  · exact Finmap.lookup_empty name

theorem Records.versions {name : Symbol} {as : List (Address × ℕ)} {s : Store}
    (h : Records name as s) : s.versions name = (as.map Prod.snd).eraseDups := by
  unfold Store.versions
  rw [h.history]
  split_ifs with hnone
  · rw [hnone]
    rfl
  · rfl

theorem lookup_addVersion (s : Store) (name name' : Symbol) (version : ℕ) :
    (s.addVersion name' version).history.lookup name =
      if name = name' ∧ version ∉ s.versions name' then some (s.versions name' ++ [version])
      else s.history.lookup name := by
  unfold Store.addVersion
  by_cases hmem : version ∈ s.versions name'
  · rw [if_pos hmem, if_neg fun h => h.2 hmem]
  · rw [if_neg hmem, Table.lookup_set]
    simp [hmem]

@[simp] theorem contracts_addVersion (s : Store) (name : Symbol) (version : ℕ) :
    (s.addVersion name version).contracts = s.contracts := by
  unfold Store.addVersion
  split_ifs <;> rfl

@[simp] theorem metadata_addVersion (s : Store) (name : Symbol) (version : ℕ) :
    (s.addVersion name version).metadata = s.metadata := by
  unfold Store.addVersion
  split_ifs <;> rfl

/-- The storage after a registration. -/
def Store.register (s : Store) (name : Symbol) (address : Address) (version : ℕ) : Store :=
  Store.addVersion { s with contracts := s.contracts.insert name ⟨address, version⟩ } name version

theorem lookup_contracts_register (s : Store) (name name' : Symbol) (address : Address)
    (version : ℕ) : (s.register name' address version).contracts.lookup name =
      if name = name' then some ⟨address, version⟩ else s.contracts.lookup name := by
  rw [Store.register, contracts_addVersion, Table.lookup_set]

theorem lookup_history_register (s : Store) (name name' : Symbol) (address : Address)
    (version : ℕ) : (s.register name' address version).history.lookup name =
      if name = name' ∧ version ∉ s.versions name' then some (s.versions name' ++ [version])
      else s.history.lookup name :=
  lookup_addVersion _ name name' version

/-- A registration is the last one now, and its version is in the history. -/
theorem Records.register {name : Symbol} {as : List (Address × ℕ)} {s : Store}
    (h : Records name as s) (address : Address) (version : ℕ) :
    Records name (as ++ [(address, version)]) (s.register name address version) := by
  constructor
  · rw [lookup_contracts_register, if_pos rfl, List.getLast?_concat]
    rfl
  · rw [lookup_history_register, h.versions, List.map_append, List.map_singleton, eraseDups_concat,
      if_neg (List.append_ne_nil_of_right_ne_nil _ (List.cons_ne_nil _ _))]
    by_cases hold : version ∈ (as.map Prod.snd).eraseDups
    · have hne : as ≠ [] := by
        rintro rfl
        cases hold
      rw [if_neg fun hnew => hnew.2 hold, if_pos hold, h.history, if_neg hne]
    · rw [if_pos ⟨rfl, hold⟩, if_neg hold]

theorem Records.skip {name name' : Symbol} {as : List (Address × ℕ)} {s : Store}
    (h : Records name as s) (hne : name ≠ name') (address : Address) (version : ℕ) :
    Records name as (s.register name' address version) := by
  constructor
  · rw [lookup_contracts_register, if_neg hne, h.contract]
  · rw [lookup_history_register, if_neg fun hthis => hne hthis.1, h.history]

theorem registered_of_not_returns {name : Symbol} {w : World Store} {s : Step me Entry}
    (hfails : ∀ env c, s = .call env c → ¬ Returns env w c) : registered name w s = none := by
  cases s with
  | outside => rfl
  | call env c =>
    have hnot := hfails env c rfl
    cases c with
    | init => rfl
    | setMetadata => rfl
    | setContract caller name' address version =>
      have hvalue : (setContract env caller name' address version).value w = none :=
        value_eq_none.mpr hnot
      simp [registered, hvalue]

theorem registered_of_succeeds (name : Symbol) {env : Env me} {caller : Address} {name' : Symbol}
    {address : Address} {version : ℕ} {w : World Store}
    (h : (setContract env caller name' address version).Succeeds w) :
    registered name w (.call env (.setContract caller name' address version)) =
      if name' = name then some (address, version) else none := by
  obtain ⟨_, _, hok⟩ := h
  unfold registered
  dsimp only
  rw [value_of_ok hok]
  rfl

/-- A step records what it registers. -/
theorem records_step {name : Symbol} {as : List (Address × ℕ)} {w : World Store}
    (h : Records name as w.store) (s : Step me Entry) :
    Records name (as ++ (registered name w s).toList) (step s w).store := by
  have hnothing : as ++ (none : Option (Address × ℕ)).toList = as := List.append_nil as
  rcases step_cases s w with ⟨env, c, rfl, hreturns, hdone⟩ | ⟨hfails, hstore, -⟩
  · generalize step (.call env c) w = w' at hdone ⊢
    cases hdone with
    | init => exact hnothing.symm ▸ h
    | setMetadata => exact hnothing.symm ▸ ⟨h.contract, h.history⟩
    | @setContract caller name' address version =>
      rw [registered_of_succeeds name hreturns]
      by_cases hname : name' = name
      · subst hname
        rw [if_pos rfl]
        exact h.register address version
      · rw [if_neg hname, hnothing]
        exact h.skip (Ne.symm hname) address version
  · rw [registered_of_not_returns hfails, hnothing, hstore]
    exact h

/-- In every reachable state the registration of a name and its history are those of its successful
    registrations. -/
theorem records_reached (tokens : TokenLedger) (steps : List (Step me Entry)) (name : Symbol) :
    Records name (yields step (registered name) (deployed tokens) steps)
      (run step (deployed tokens) steps).store :=
  yields_induct (N := fun _ _ => True)
    (G := fun as (w : World Store) => Records name as w.store) (fun _ _ s _ h => records_step h s)
    (records_empty name) fun _ _ => trivial

/-! ## Metadata -/

/-- Every stored entry has a hash of 32 bytes and a URI. -/
def WellFormed (s : Store) : Prop :=
  Table.Forall (fun _ entry => entry.hash.length = 32 ∧ entry.uri ≠ []) s.metadata

theorem wellFormed_step {w : World Store} (h : WellFormed w.store) (s : Step me Entry) :
    WellFormed (step s w).store := by
  rcases step_cases s w with ⟨env, c, rfl, -, hdone⟩ | ⟨-, hstore, -⟩
  · generalize step (.call env c) w = w' at hdone ⊢
    cases hdone with
    | init => exact h
    | setContract =>
      show Table.Forall _ (Store.addVersion _ _ _).metadata
      rw [metadata_addVersion]
      exact h
    | setMetadata _ _ _ hhash huri => exact h.set ⟨hhash, huri⟩
  · rw [hstore]
    exact h

/-- An entry that is marked immutable stays. -/
theorem frozen_step {name : Symbol} {entry : MetadataEntry} (hfrozen : entry.immutable = true)
    {w : World Store} (h : w.store.metadata.lookup name = some entry) (s : Step me Entry) :
    (step s w).store.metadata.lookup name = some entry := by
  rcases step_cases s w with ⟨env, c, rfl, -, hdone⟩ | ⟨-, hstore, -⟩
  · generalize step (.call env c) w = w' at hdone ⊢
    cases hdone with
    | init => exact h
    | setContract =>
      show (Store.addVersion _ _ _).metadata.lookup name = some entry
      rw [metadata_addVersion]
      exact h
    | setMetadata _ _ hopen =>
      show (w.store.metadata.insert _ _).lookup name = some entry
      rw [Table.lookup_set, if_neg, h]
      rintro rfl
      rw [Store.isFrozen, h, Option.elim_some, hfrozen] at hopen
      cases hopen
  · rw [hstore]
    exact h

/-! ## Calls for other names -/

/-- The name that a step is a call for. -/
def concerns : Step me Entry → Option Symbol
  | .call _ (.setContract _ name _ _) => some name
  | .call _ (.setMetadata _ name _ _ _ _) => some name
  | _ => none

/-- What is read for a name. -/
def Store.reads (s : Store) (name : Symbol) :
    Except Error (Address × ℕ) × Except Error (List ℕ) × Except Error MetadataEntry :=
  (s.getContract name, s.getVersionHistory name, s.getMetadata name)

theorem reads_congr {s s' : Store} {name : Symbol}
    (hcontract : s'.contracts.lookup name = s.contracts.lookup name)
    (hhistory : s'.history.lookup name = s.history.lookup name)
    (hmetadata : s'.metadata.lookup name = s.metadata.lookup name) :
    s'.reads name = s.reads name := by
  unfold Store.reads Store.getContract Store.getVersionHistory Store.getMetadata
  rw [hcontract, hhistory, hmetadata]

/-- A step that is no call for the name changes nothing that is read for it. -/
theorem reads_step {name : Symbol} {w : World Store} {s : Step me Entry}
    (hs : concerns s ≠ some name) : (step s w).store.reads name = w.store.reads name := by
  rcases step_cases s w with ⟨env, c, rfl, -, hdone⟩ | ⟨-, hstore, -⟩
  · generalize step (.call env c) w = w' at hdone ⊢
    cases hdone with
    | init => rfl
    | @setContract caller name' address version =>
      have hne : name ≠ name' := fun hname => hs (congrArg some hname.symm)
      show (w.store.register name' address version).reads name = _
      refine reads_congr ?_ ?_ ?_
      · rw [lookup_contracts_register, if_neg hne]
      · rw [lookup_history_register, if_neg fun hthis => hne hthis.1]
      · rw [Store.register, metadata_addVersion]
    | @setMetadata caller name' =>
      have hne : name ≠ name' := fun hname => hs (congrArg some hname.symm)
      refine reads_congr rfl rfl ?_
      rw [Table.lookup_set, if_neg hne]
  · rw [hstore]

/-! ## The law -/

theorem getMetadata_eq_ok {s : Store} {name : Symbol} {entry : MetadataEntry} :
    s.getMetadata name = .ok entry ↔ s.metadata.lookup name = some entry := by
  unfold Store.getMetadata
  cases s.metadata.lookup name with
  | none => simp
  | some entry' => simp

/-- What is read for a name for which the registrations `as` were made, and what becomes of it. -/
structure Lawful (name : Symbol) (as : List (Address × ℕ)) (w : World Store) : Prop where
  contract : w.store.getContract name = as.getLast?.elim (.error .notFound) .ok
  history : w.store.getVersionHistory name =
    if as = [] then .error .notFound else .ok (as.map Prod.snd).eraseDups
  scan (version : ℕ) : recordVersion name version w =
    .ok () { w with store := w.store.addVersion name version }
  current (address : Address) (version : ℕ) : w.store.getContract name = .ok (address, version) →
    ∃ versions, w.store.getVersionHistory name = .ok versions ∧ versions.Nodup ∧ version ∈ versions
  metadata (entry : MetadataEntry) : w.store.getMetadata name = .ok entry →
    entry.hash.length = 32 ∧ entry.uri ≠ []
  frozen (me : Address) (entry : MetadataEntry) (later : List (Step me Entry)) :
    w.store.getMetadata name = .ok entry → entry.immutable = true →
      (run step w later).store.getMetadata name = .ok entry
  others (me : Address) (s : Step me Entry) : concerns s ≠ some name →
    (step s w).store.reads name = w.store.reads name
  failed (me : Address) (env : Env me) (c : Entry) : ¬ Returns env w c → step (.call env c) w = w

theorem lawful_of_records {name : Symbol} {as : List (Address × ℕ)} {w : World Store}
    (h : Records name as w.store) (hmetadata : WellFormed w.store) : Lawful name as w := by
  have hcontract : w.store.getContract name = as.getLast?.elim (.error .notFound) .ok := by
    unfold Store.getContract
    rw [h.contract]
    cases as.getLast? with
    | none => rfl
    | some a => rfl
  have hhistory : w.store.getVersionHistory name =
      if as = [] then .error .notFound else .ok (as.map Prod.snd).eraseDups := by
    unfold Store.getVersionHistory
    rw [h.history]
    split_ifs <;> rfl
  constructor
  · exact hcontract
  · exact hhistory
  · intro version
    exact recordVersion_eq name version w
  · intro address version hcurrent
    rw [hcontract] at hcurrent
    cases hlast : as.getLast? with
    | none =>
      rw [hlast] at hcurrent
      cases hcurrent
    | some a =>
      rw [hlast] at hcurrent
      have ha : a = (address, version) := Except.ok.inj hcurrent
      have hmem : a ∈ as := List.mem_of_getLast? hlast
      refine ⟨(as.map Prod.snd).eraseDups, ?_, nodup_eraseDups _, ?_⟩
      · rw [hhistory, if_neg (List.ne_nil_of_mem hmem)]
      · rw [List.mem_eraseDups]
        exact List.mem_map.mpr ⟨a, hmem, by rw [ha]⟩
  · intro entry hentry
    exact hmetadata name entry (getMetadata_eq_ok.mp hentry)
  · intro me entry later hentry hfrozen
    rw [getMetadata_eq_ok] at hentry ⊢
    exact run_induct (P := fun w : World Store => w.store.metadata.lookup name = some entry)
      (fun w s hw => frozen_step hfrozen hw s) hentry later
  · intro me s hs
    exact reads_step hs
  · intro me env c hfails
    rcases exec_returns env c w with ⟨-, hsame⟩ | ⟨hreturns, -⟩
    · exact hsame
    · exact absurd hreturns hfails

/-- In every reachable state the store law holds for every name, with the registrations that its
    successful calls of `set_contract` have made. -/
theorem store_law (tokens : TokenLedger) (steps : List (Step me Entry)) (name : Symbol) :
    Lawful name (yields step (registered name) (deployed tokens) steps)
      (run step (deployed tokens) steps) := by
  have hfresh : WellFormed (deployed tokens).store := Table.Forall.empty _
  refine lawful_of_records (records_reached tokens steps name) ?_
  exact run_induct (P := fun w : World Store => WellFormed w.store)
    (fun w s h => wellFormed_step h s) hfresh steps

end Trellis.Registry
