import Trellis.Lib.Pages
import Trellis.Upgrade.Versions

/-!
# The upgrade history

`get_upgrade_history` walks backwards from the proposal counter, which all contracts share, and
collects the records that `execute_upgrade` left for one contract.

Results:
* `getUpgradeHistory_eq`: the walk finds the latest of the records in the order of their proposals.
* `change_step`: what a step does to one contract.
* `listed_reached`: the records of a contract are those of the upgrades of the run, in their order.
* `chained_reached`: they form a chain that ends in the registered version, if the contract is
  registered once.
* `upgrade_history`: what `get_upgrade_history` returns after every run.
-/

namespace Trellis.Upgrade

open Exec

variable {me : Address} {X : Type}

/-! ## The query -/

/-- The loop of `get_upgrade_history` (contracts/upgradeability/src/lib.rs:575–582), with `pid` as
    its argument. -/
def historyLoop (find : ℕ → Option UpgradeRecord) (maxResults : ℕ) :
    ℕ → ℕ → List UpgradeRecord → List UpgradeRecord
  | 0, _, records => records
  | pid + 1, found, records =>
    if found < maxResults then
      match find (pid + 1) with
      | some record => historyLoop find maxResults pid (found + 1) (records ++ [record])
      | none => historyLoop find maxResults pid found records
    else records

/-- The record that is stored for a contract and a proposal. -/
def Store.recordAt (s : Store) (contractId : Address) (pid : ℕ) : Option UpgradeRecord :=
  s.history.lookup (contractId, pid)

/-- Model of `get_upgrade_history` (contracts/upgradeability/src/lib.rs:557–585). -/
def Store.getUpgradeHistory (s : Store) (contractId : Address) (maxResults : ℕ) :
    List UpgradeRecord :=
  match s.entries.lookup contractId with
  | none => []
  | some _ => historyLoop (s.recordAt contractId) maxResults (s.propCnt.getD 0) 0 []

/-- The records of a contract, in the order of their proposals. -/
def Store.records (s : Store) (contractId : Address) : List UpgradeRecord :=
  (List.range' 1 (s.propCnt.getD 0)).filterMap (s.recordAt contractId)

/-- The loop fills a page with the values of the ids from `pid` down to 1. -/
theorem historyLoop_eq (find : ℕ → Option UpgradeRecord) (maxResults pid index : ℕ)
    (records : List UpgradeRecord) :
    historyLoop find maxResults pid records.length records =
      (fillPage find maxResults (List.range' 1 pid).reverse index records).2 := by
  induction pid generalizing index records with
  | zero => rfl
  | succ pid ih =>
    have hids : (List.range' 1 (pid + 1)).reverse = (pid + 1) :: (List.range' 1 pid).reverse := by
      rw [List.range'_concat, List.reverse_append, Nat.one_mul, Nat.add_comm 1 pid]
      rfl
    rw [hids, historyLoop, fillPage]
    split_ifs
    · cases find (pid + 1) with
      | none =>
        rw [Option.toList_none, List.append_nil]
        exact ih (index + 1) records
      | some record =>
        have hrest := ih (index + 1) (records ++ [record])
        rw [List.length_append, List.length_singleton] at hrest
        exact hrest
    · rfl

/-- The walk finds the latest records, the latest first. -/
theorem getUpgradeHistory_eq {s : Store} {contractId : Address} {e : RegistryEntry}
    (he : s.entries.lookup contractId = some e) (maxResults : ℕ) :
    s.getUpgradeHistory contractId maxResults = (s.records contractId).reverse.take maxResults := by
  have hloop := historyLoop_eq (s.recordAt contractId) maxResults (s.propCnt.getD 0) 0 []
  rw [fillPage_items _ _ (Nat.zero_le _), List.filterMap_reverse] at hloop
  unfold Store.getUpgradeHistory
  rw [he]
  exact hloop

/-! ## What a step does to one contract -/

/-- The record of the upgrade of the contract that a step carries out: with the version and the code
    that are registered before it, those of its proposal, and its caller. -/
def upgradeRecord (contractId : Address) (w : World (Linked Store X)) :
    Step me (Entry X) → Option UpgradeRecord
  | .call env (.executeUpgrade hooks caller proposalId) => do
    let _ ← (executeUpgrade env hooks caller proposalId).value w
    let p ← w.store.own.proposals.lookup proposalId
    let e ← w.store.own.entries.lookup p.contractId
    if p.contractId = contractId then
      some ⟨p.contractId, e.current.version, p.newVersion, e.current.wasmHash,
        p.newWasmHash, caller, env.timestamp, p.note⟩
    else none
  | _ => none

/-- The name under which a step registers the contract. -/
def registeredAs (contractId : Address) (w : World (Linked Store X)) :
    Step me (Entry X) → Option Symbol
  | .call env (.registerContract caller c name version wasmHash) =>
    if c = contractId then
      ((registerContract env caller c name version wasmHash).value w).map fun _ => name
    else none
  | _ => none

/-- The proposal is stored under this id, open, and for this contract. -/
def Store.OpenFor (s : Store) (contractId : Address) (id : ℕ) (p : UpgradeProposal) : Prop :=
  s.proposals.lookup id = some p ∧ p.Open ∧ p.contractId = contractId

/-- What is registered as the current version of the contract. -/
def Store.current (s : Store) (contractId : Address) : Option VersionInfo :=
  (s.entries.lookup contractId).map RegistryEntry.current

/-- What a step does to a contract: it carries out one of its open proposals, which is its only one,
    or it adds no record. Then it may open a proposal that is ahead of the current version, and it
    leaves this version alone unless it registers the contract. -/
inductive Change (contractId : Address) (w : World (Linked Store X)) (s : Step me (Entry X))
    (w' : World (Linked Store X)) : Prop where
  | kept (hrecord : upgradeRecord contractId w s = none)
      (hcnt : w.store.own.propCnt.getD 0 ≤ w'.store.own.propCnt.getD 0)
      (hhistory : w'.store.own.recordAt contractId = w.store.own.recordAt contractId)
      (hopen : ∀ id p, w'.store.own.OpenFor contractId id p → w.store.own.OpenFor contractId id p ∨
        (id = w.store.own.propCnt.getD 0 + 1 ∧
          ∃ v, w.store.own.current contractId = some v ∧ p.AheadOf v.version v.wasmHash))
      (hcurrent : w'.store.own.current contractId = w.store.own.current contractId ∨
        ∃ name v, registeredAs contractId w s = some name ∧
          w'.store.own.current contractId = some v)
  | upgraded (id : ℕ) (p : UpgradeProposal) (v v' : VersionInfo) (record : UpgradeRecord)
      (hrecord : upgradeRecord contractId w s = some record)
      (hp : w.store.own.OpenFor contractId id p)
      (hv : w.store.own.current contractId = some v)
      (hv' : w'.store.own.current contractId = some v')
      (hold : record.oldVersion = v.version ∧ record.oldWasmHash = v.wasmHash)
      (hnew : record.newVersion = p.newVersion ∧ record.newWasmHash = p.newWasmHash)
      (hnow : record.newVersion = v'.version ∧ record.newWasmHash = v'.wasmHash)
      (hcnt : w'.store.own.propCnt.getD 0 = w.store.own.propCnt.getD 0)
      (hhistory : w'.store.own.recordAt contractId =
        Function.update (w.store.own.recordAt contractId) id (some record))
      (hclosed : ∀ id p, ¬ w'.store.own.OpenFor contractId id p)

theorem current_set {s s' : Store} {c contractId : Address} {e : RegistryEntry}
    (hentries : s'.entries = s.entries.insert c e) :
    s'.current contractId = if contractId = c then some e.current else s.current contractId := by
  unfold Store.current
  rw [hentries, Table.lookup_set]
  split_ifs <;> rfl

theorem openFor_set {s s' : Store} {id id' : ℕ} {p p' : UpgradeProposal} {contractId : Address}
    (hproposals : s'.proposals = s.proposals.insert id' p') (h : s'.OpenFor contractId id p) :
    (s.OpenFor contractId id p ∧ id ≠ id') ∨ (id = id' ∧ p = p') := by
  obtain ⟨hp, hopen, hcontract⟩ := h
  rw [hproposals, Table.lookup_set] at hp
  split_ifs at hp with hid
  · exact .inr ⟨hid, (Option.some.inj hp).symm⟩
  · exact .inl ⟨⟨hp, hopen, hcontract⟩, hid⟩

theorem change_executed {env : Env me} {hooks : Hooks X} {caller : Address} {id : ℕ}
    {w w' : World (Linked Store X)} {p : UpgradeProposal} {e : RegistryEntry}
    (hbook : Book w.store.own) (hreturns : (executeUpgrade env hooks caller id).Succeeds w)
    (hp : w.store.own.proposals.lookup id = some p) (hopen : p.Open)
    (he : w.store.own.entries.lookup p.contractId = some e)
    (hstore : w'.store.own = w.store.own.upgrade env.timestamp caller id p e)
    (contractId : Address) :
    Change contractId w (.call env (.executeUpgrade hooks caller id)) w' := by
  obtain ⟨u, w₁, hok⟩ := hreturns
  have hvalue : (executeUpgrade env hooks caller id).value w = some u := value_of_ok hok
  have hentries : w'.store.own.entries = w.store.own.entries.insert p.contractId { e with
      current := ⟨p.newVersion, p.newWasmHash, env.timestamp, p.note⟩ } := by
    rw [hstore]
    rfl
  have hproposals : w'.store.own.proposals = w.store.own.proposals.insert id { p with
      executed := true, executedAt := env.timestamp } := by
    rw [hstore]
    rfl
  have hhistory : ∀ k, w'.store.own.recordAt contractId k =
      if (contractId, k) = (p.contractId, id) then
        some ⟨p.contractId, e.current.version, p.newVersion,
        e.current.wasmHash, p.newWasmHash, caller, env.timestamp, p.note⟩
      else w.store.own.recordAt contractId k := by
    intro k
    unfold Store.recordAt
    rw [hstore]
    exact Table.lookup_set _ _ _ _
  -- the executed proposal is open no more
  have hother : ∀ id' p', w'.store.own.OpenFor contractId id' p' →
      w.store.own.OpenFor contractId id' p' ∧ id' ≠ id := by
    intro id' p' h
    rcases openFor_set hproposals h with hbefore | ⟨-, hp'⟩
    · exact hbefore
    · have hopen' := h.2.1
      rw [hp'] at hopen'
      cases hopen'
  by_cases hc : p.contractId = contractId
  · subst hc
    refine .upgraded id p e.current ⟨p.newVersion, p.newWasmHash, env.timestamp, p.note⟩
      ⟨p.contractId, e.current.version, p.newVersion, e.current.wasmHash, p.newWasmHash, caller,
        env.timestamp, p.note⟩ ?_ ⟨hp, hopen, rfl⟩ ?_ ?_ ⟨rfl, rfl⟩ ⟨rfl, rfl⟩ ⟨rfl, rfl⟩ ?_ ?_ ?_
    · simp [upgradeRecord, hvalue, hp, he]
    · unfold Store.current
      rw [he]
      rfl
    · rw [current_set hentries, if_pos rfl]
    · rw [hstore]
      rfl
    · funext k
      rw [hhistory k, Function.update_apply]
      simp
    · intro id' p' h
      obtain ⟨⟨hp', hopen', hcontract'⟩, hne⟩ := hother id' p' h
      exact hne (hbook.marks.unique hp' hopen' hp hopen hcontract')
  · refine .kept ?_ ?_ ?_ (fun id' p' h => .inl (hother id' p' h).1) (.inl ?_)
    · simp [upgradeRecord, hvalue, hp, he, hc]
    · rw [hstore]
      exact le_rfl
    · funext k
      rw [hhistory k, if_neg]
      intro hkey
      exact hc (congrArg Prod.fst hkey).symm
    · rw [current_set hentries, if_neg (Ne.symm hc)]

/-- What a call that returns does to a contract. -/
theorem change_done {env : Env me} {c : Entry X} {w w' : World (Linked Store X)}
    (hbook : Book w.store.own) (hreturns : Returns env w c) (hdone : Done env w c w')
    (contractId : Address) :
    Change contractId w (.call env c) w' := by
  cases hdone with
  | init => exact .kept rfl le_rfl rfl (fun _ _ h => .inl h) (.inl rfl)
  | @registerContract caller c name version wasmHash =>
    refine .kept rfl le_rfl rfl (fun _ _ h => .inl h) ?_
    by_cases hc : c = contractId
    · obtain ⟨u, w₁, hok⟩ := hreturns
      have hvalue : (registerContract env caller c name version wasmHash).value w = some u :=
        value_of_ok hok
      refine .inr ⟨name, _, ?_, by rw [current_set rfl, if_pos hc.symm]⟩
      show (if c = contractId then _ else none) = some name
      rw [if_pos hc, hvalue]
      rfl
    · refine .inl ?_
      rw [current_set rfl, if_neg (Ne.symm hc)]
  | @setMigrationHook caller c hookAddr events e hrole hsigned he =>
    refine .kept rfl le_rfl rfl (fun _ _ h => .inl h) (.inl ?_)
    rw [current_set rfl]
    split_ifs with hc
    · unfold Store.current
      rw [hc, he]
      rfl
    · rfl
  | @proposeUpgrade caller c newWasmHash newVersion note events e hrole hsigned he
      hversion hhash hnone hroom =>
    refine .kept rfl (Nat.le_succ _) rfl (fun id p h => ?_) (.inl rfl)
    rcases openFor_set rfl h with ⟨hbefore, -⟩ | ⟨hid, hp⟩
    · exact .inl hbefore
    · refine .inr ⟨hid, e.current, ?_, ?_⟩
      · have hcontract := h.2.2
        rw [hp] at hcontract
        change c = contractId at hcontract
        unfold Store.current
        rw [← hcontract, he]
        rfl
      · rw [hp]
        exact ⟨hversion, hhash.symm⟩
  | executeUpgrade events p e others hrole hsigned hp hopen he =>
    exact change_executed hbook hreturns hp hopen he rfl contractId
  | cancelProposal p hp hopen =>
    refine .kept rfl le_rfl rfl (fun id' p' h => .inl ?_) (.inl rfl)
    obtain ⟨hp', hopen', hcontract'⟩ := h
    rw [Table.lookup_unset] at hp'
    split_ifs at hp'
    exact ⟨hp', hopen', hcontract'⟩

theorem upgradeRecord_of_not_returns {contractId : Address} {w : World (Linked Store X)}
    {s : Step me (Entry X)} (h : ∀ env c, s = .call env c → ¬ Returns env w c) :
    upgradeRecord contractId w s = none := by
  unfold upgradeRecord
  split
  · rename_i env hooks caller proposalId
    have hfails : ¬ (executeUpgrade env hooks caller proposalId).Succeeds w := h _ _ rfl
    rw [value_eq_none.mpr hfails]
    rfl
  · rfl

/-- Every step makes one of these changes to every contract. -/
theorem change_step {w : World (Linked Store X)} (hbook : Book w.store.own) (s : Step me (Entry X))
    (contractId : Address) : Change contractId w s (step s w) := by
  rcases step_cases s w with ⟨env, c, rfl, hreturns, hdone⟩ | ⟨hfails, hstore, -⟩
  · exact change_done hbook hreturns hdone contractId
  · refine .kept (upgradeRecord_of_not_returns hfails) ?_ ?_ (fun id p h => .inl ?_) (.inl ?_)
    · rw [hstore]
    · rw [hstore]
    · rw [hstore] at h
      exact h
    · rw [hstore]

/-! ## The records of a run -/

theorem Book.recordAt_beyond {s : Store} (h : Book s) (contractId : Address) {k : ℕ}
    (hk : s.propCnt.getD 0 < k) : s.recordAt contractId k = none := by
  by_contra hne
  obtain ⟨record, hrecord⟩ := Option.ne_none_iff_exists'.mp hne
  obtain ⟨p, hp, -⟩ := h.history (contractId, k) record hrecord
  have hle := (h.ids k p hp).2.2
  omega

/-- The records of the contract are these, the open proposals come after all of them, and there are
    none before the contract is registered. -/
structure Listed (contractId : Address) (records : List UpgradeRecord) (s : Store) : Prop where
  book : Book s
  listed : s.records contractId = records
  last (id : ℕ) (p : UpgradeProposal) : s.OpenFor contractId id p →
    ∀ k, id ≤ k → s.recordAt contractId k = none
  fresh : s.current contractId = none → records = []

theorem Listed.step {contractId : Address} {records : List UpgradeRecord}
    {w : World (Linked Store X)} (h : Listed contractId records w.store.own)
    (s : Step me (Entry X)) :
    Listed contractId (records ++ (upgradeRecord contractId w s).toList) (step s w).store.own := by
  have hbook := h.book.step s
  have hchange := change_step h.book s contractId
  generalize Upgrade.step s w = w' at hbook hchange ⊢
  cases hchange with
  | kept hrecord hcnt hhistory hopen hcurrent =>
    rw [hrecord, Option.toList_none, List.append_nil]
    refine ⟨hbook, ?_, fun id p hp k hk => ?_, fun hnone => ?_⟩
    · rw [← h.listed]
      unfold Store.records
      rw [hhistory]
      exact filterMap_range'_of_none hcnt fun k hk => h.book.recordAt_beyond contractId hk
    · rw [hhistory]
      rcases hopen id p hp with hbefore | ⟨hid, -⟩
      · exact h.last id p hbefore k hk
      · exact h.book.recordAt_beyond contractId (by omega)
    · rcases hcurrent with hsame | ⟨name, v, -, hv⟩
      · exact h.fresh (hsame ▸ hnone)
      · rw [hv] at hnone
        cases hnone
  | upgraded id p v v' record hrecord hp hv hv' hold hnew hnow hcnt hhistory hclosed =>
    rw [hrecord, Option.toList_some]
    refine ⟨hbook, ?_, fun id' p' hp' => absurd hp' (hclosed id' p'), fun hnone => ?_⟩
    · -- the record of the open proposal is the latest
      obtain ⟨-, hpos, hle⟩ := h.book.ids id p hp.1
      obtain ⟨k, rfl⟩ := Nat.exists_eq_add_of_le' hpos
      rw [← h.listed]
      unfold Store.records
      rw [hhistory, hcnt]
      exact filterMap_range'_update hle (h.last (k + 1) p hp) record
    · rw [hv'] at hnone
      cases hnone

theorem not_openFor_empty {contractId : Address} {id : ℕ} {p : UpgradeProposal} :
    ¬ Store.empty.OpenFor contractId id p := by
  intro hp
  have hlookup := hp.1
  simp [Store.empty] at hlookup

/-- The records of the upgrades of the contract that the run carries out, in order. -/
def upgradesOf (x : X) (tokens : TokenLedger) (steps : List (Step me (Entry X)))
    (contractId : Address) : List UpgradeRecord :=
  yields step (upgradeRecord contractId) (deployed x tokens) steps

theorem listed_reached (x : X) (tokens : TokenLedger) (steps : List (Step me (Entry X)))
    (contractId : Address) :
    Listed contractId (upgradesOf x tokens steps contractId)
      (reached x tokens steps).store.own := by
  have hstart : Listed contractId [] (deployed x tokens).store.own :=
    ⟨Book.empty, rfl, fun id p hp => absurd hp not_openFor_empty, fun _ => rfl⟩
  exact yields_induct (N := fun _ _ => True)
    (G := fun records (w : World (Linked Store X)) => Listed contractId records w.store.own)
    (fun _ _ s _ h => h.step s) hstart fun _ _ => trivial

/-! ## The chain of the records -/

/-- The newer record starts from the version and the code that the older one ends in. -/
def UpgradeRecord.Continues (newer older : UpgradeRecord) : Prop :=
  older.newVersion = newer.oldVersion ∧ older.newWasmHash = newer.oldWasmHash

/-- The records form a chain that ends in the current version, and the open proposals are ahead of
    it. -/
structure Chained (contractId : Address) (records : List UpgradeRecord) (s : Store) : Prop where
  book : Book s
  linked : records.IsChain fun older newer => newer.Continues older
  raised : ∀ record ∈ records, record.oldVersion < record.newVersion
  newest : ∀ record ∈ records.getLast?, ∃ v, s.current contractId = some v ∧
    record.newVersion = v.version ∧ record.newWasmHash = v.wasmHash
  ahead (id : ℕ) (p : UpgradeProposal) : s.OpenFor contractId id p →
    ∃ v, s.current contractId = some v ∧ p.AheadOf v.version v.wasmHash

/-- Before the contract is registered, it has no records and no open proposals. -/
theorem Chained.of_fresh {contractId : Address} {records : List UpgradeRecord} {s : Store}
    (h : Chained contractId records s) (hfresh : s.current contractId = none) :
    records = [] ∧ ∀ id p, ¬ s.OpenFor contractId id p := by
  constructor
  · rw [← List.getLast?_eq_none_iff]
    by_contra hne
    obtain ⟨record, hlast⟩ := Option.ne_none_iff_exists'.mp hne
    obtain ⟨v, hv, -⟩ := h.newest record hlast
    rw [hfresh] at hv
    cases hv
  · intro id p hp
    obtain ⟨v, hv, -⟩ := h.ahead id p hp
    rw [hfresh] at hv
    cases hv

/-- A step that registers no contract again keeps the chain. -/
theorem Chained.step {contractId : Address} {records : List UpgradeRecord}
    {w : World (Linked Store X)} (h : Chained contractId records w.store.own)
    {s : Step me (Entry X)}
    (honce : ∀ name, registeredAs contractId w s = some name →
      w.store.own.current contractId = none) :
    Chained contractId (records ++ (upgradeRecord contractId w s).toList) (step s w).store.own := by
  have hbook := h.book.step s
  have hchange := change_step h.book s contractId
  generalize Upgrade.step s w = w' at hbook hchange ⊢
  cases hchange with
  | kept hrecord hcnt hhistory hopen hcurrent =>
    rw [hrecord, Option.toList_none, List.append_nil]
    rcases hcurrent with hsame | ⟨name, v, hname, -⟩
    · refine ⟨hbook, h.linked, h.raised, ?_, fun id p hp => ?_⟩
      · rw [hsame]
        exact h.newest
      · rw [hsame]
        rcases hopen id p hp with hbefore | ⟨-, hahead⟩
        · exact h.ahead id p hbefore
        · exact hahead
    · -- the first registration of the contract
      have hfresh := honce name hname
      obtain ⟨hnone, hnot⟩ := h.of_fresh hfresh
      subst hnone
      refine ⟨hbook, h.linked, h.raised,
        fun record hlast => absurd hlast (by simp), fun id p hp => ?_⟩
      rcases hopen id p hp with hbefore | ⟨-, v, hv, -⟩
      · exact absurd hbefore (hnot id p)
      · rw [hfresh] at hv
        cases hv
  | upgraded id p v v' record hrecord hp hv hv' hold hnew hnow hcnt hhistory hclosed =>
    rw [hrecord, Option.toList_some]
    refine ⟨hbook, ?_, ?_, ?_, fun id' p' hp' => absurd hp' (hclosed id' p')⟩
    · refine List.isChain_append.mpr ⟨h.linked, List.IsChain.singleton record,
        fun older hlast newer hnewer => ?_⟩
      obtain rfl := Option.some.inj hnewer
      obtain ⟨v₁, hv₁, hversion, hhash⟩ := h.newest older hlast
      obtain rfl := Option.some.inj (hv.symm.trans hv₁)
      exact ⟨hversion.trans hold.1.symm, hhash.trans hold.2.symm⟩
    · intro r hr
      rcases List.mem_append.mp hr with hr | hr
      · exact h.raised r hr
      · obtain rfl := List.mem_singleton.mp hr
        -- the proposal is still ahead of the version that it replaces
        obtain ⟨v₁, hv₁, hlt, -⟩ := h.ahead id p hp
        obtain rfl := Option.some.inj (hv.symm.trans hv₁)
        rw [hold.1, hnew.1]
        exact hlt
    · intro r hr
      rw [List.getLast?_append, List.getLast?_singleton] at hr
      obtain rfl := Option.some.inj hr
      exact ⟨v', hv', hnow⟩

/-- The names under which the run registers the contract, in order. -/
def registrationsOf (x : X) (tokens : TokenLedger) (steps : List (Step me (Entry X)))
    (contractId : Address) : List Symbol :=
  yields step (registeredAs contractId) (deployed x tokens) steps

theorem current_of_not_registered {x : X} {tokens : TokenLedger} {steps : List (Step me (Entry X))}
    {contractId : Address} (hnone : registrationsOf x tokens steps contractId = []) :
    (reached x tokens steps).store.own.current contractId = none := by
  have hrun : Book (reached x tokens steps).store.own ∧
      (registrationsOf x tokens steps contractId = [] →
        (reached x tokens steps).store.own.current contractId = none) := by
    refine yields_induct (N := fun _ _ => True) (G := fun names (w : World (Linked Store X)) =>
      Book w.store.own ∧ (names = [] → w.store.own.current contractId = none))
      (fun names w s _ h => ⟨h.1.step s, fun hempty => ?_⟩) ⟨Book.empty, fun _ => rfl⟩
      fun _ _ => trivial
    obtain ⟨hnames, hout⟩ := List.append_eq_nil_iff.mp hempty
    have hbefore := h.2 hnames
    cases change_step h.1 s contractId with
    | kept hrecord hcnt hhistory hopen hcurrent =>
      rcases hcurrent with hsame | ⟨name, v, hname, -⟩
      · rw [hsame]
        exact hbefore
      · rw [hname] at hout
        cases hout
    | upgraded id p v v' record hrecord hp hv =>
      rw [hbefore] at hv
      cases hv
  exact hrun.2 hnone

/-- In a run that registers the contract at most once, it is registered when it has no current
    version. -/
theorem current_of_once {x : X} {tokens : TokenLedger} {steps : List (Step me (Entry X))}
    {contractId : Address} (honce : (registrationsOf x tokens steps contractId).length ≤ 1) :
    ∀ y ∈ trace step (deployed x tokens) steps, ∀ name,
      registeredAs contractId y.1 y.2 = some name →
      y.1.store.own.current contractId = none := by
  intro y hy name hname
  obtain ⟨pre, post, rfl, hstate⟩ := mem_trace_iff.mp hy
  rw [hstate] at hname ⊢
  apply current_of_not_registered
  unfold registrationsOf at honce
  rw [yields_append, yields_cons, hname, Option.toList_some, List.length_append, List.length_append,
    List.length_singleton] at honce
  refine List.eq_nil_of_length_eq_zero ?_
  unfold registrationsOf
  omega

theorem chained_reached {x : X} {tokens : TokenLedger} {steps : List (Step me (Entry X))}
    {contractId : Address} (honce : (registrationsOf x tokens steps contractId).length ≤ 1) :
    Chained contractId (upgradesOf x tokens steps contractId)
      (reached x tokens steps).store.own := by
  have hstart : Chained contractId [] (deployed x tokens).store.own :=
    ⟨Book.empty, List.IsChain.nil, by simp, by simp, fun id p hp => absurd hp not_openFor_empty⟩
  exact yields_induct
    (N := fun w s => ∀ name, registeredAs contractId w s = some name →
      w.store.own.current contractId = none)
    (G := fun records (w : World (Linked Store X)) => Chained contractId records w.store.own)
    (fun _ _ _ hfirst h => h.step hfirst) hstart (current_of_once honce)

/-! ## What the query returns -/

/-- The queries return this version and this code for the contract. -/
def Store.HasVersion (s : Store) (contractId : Address) (version : ℕ) (wasmHash : Bytes) : Prop :=
  s.getVersion contractId = .ok version ∧ s.getWasmHash contractId = .ok wasmHash

instance (s : Store) (contractId : Address) (version : ℕ) (wasmHash : Bytes) :
    Decidable (s.HasVersion contractId version wasmHash) := inferInstanceAs (Decidable (_ ∧ _))

theorem hasVersion_of_current {s : Store} {contractId : Address} {v : VersionInfo}
    (hv : s.current contractId = some v) : s.HasVersion contractId v.version v.wasmHash := by
  obtain ⟨e, he, rfl⟩ := Option.map_eq_some_iff.mp hv
  exact ⟨getVersion_ok.mpr ⟨e, he, rfl⟩, getWasmHash_ok.mpr ⟨e, he, rfl⟩⟩

/-- The history of a contract after a run. -/
structure UpgradeHistory (x : X) (tokens : TokenLedger) (steps : List (Step me (Entry X)))
    (contractId : Address) : Prop where
  /-- The query returns the latest upgrades of the run, the latest first, as many as it is asked
      for. -/
  recent (maxResults : ℕ) :
    (reached x tokens steps).store.own.getUpgradeHistory contractId maxResults =
      (upgradesOf x tokens steps contractId).reverse.take maxResults
  /-- The record of an upgrade has the registered version and code before and after it. -/
  versions : ∀ y ∈ trace step (deployed x tokens) steps, ∀ record,
    upgradeRecord contractId y.1 y.2 = some record →
    y.1.store.own.HasVersion contractId record.oldVersion record.oldWasmHash ∧
      (step y.2 y.1).store.own.HasVersion contractId record.newVersion record.newWasmHash
  /-- If the contract is registered once, the records form a chain of rising versions that ends in
      the current one. -/
  linked : (registrationsOf x tokens steps contractId).length ≤ 1 → ∀ maxResults,
    ((reached x tokens steps).store.own.getUpgradeHistory contractId maxResults).IsChain
      UpgradeRecord.Continues
  raised : (registrationsOf x tokens steps contractId).length ≤ 1 → ∀ maxResults,
    ∀ record ∈ (reached x tokens steps).store.own.getUpgradeHistory contractId maxResults,
      record.oldVersion < record.newVersion
  newest : (registrationsOf x tokens steps contractId).length ≤ 1 → ∀ maxResults,
    ∀ record ∈ ((reached x tokens steps).store.own.getUpgradeHistory contractId maxResults).head?,
      (reached x tokens steps).store.own.HasVersion contractId record.newVersion record.newWasmHash

theorem getUpgradeHistory_reached (x : X) (tokens : TokenLedger) (steps : List (Step me (Entry X)))
    (contractId : Address) (maxResults : ℕ) :
    (reached x tokens steps).store.own.getUpgradeHistory contractId maxResults =
      (upgradesOf x tokens steps contractId).reverse.take maxResults := by
  have hlisted := listed_reached x tokens steps contractId
  cases he : (reached x tokens steps).store.own.entries.lookup contractId with
  | some e => rw [getUpgradeHistory_eq he, hlisted.listed]
  | none =>
    have hnone : (reached x tokens steps).store.own.current contractId = none := by
      unfold Store.current
      rw [he]
      rfl
    unfold Store.getUpgradeHistory
    rw [he, hlisted.fresh hnone, List.reverse_nil, List.take_nil]

/-- The history of every contract after every run of a fresh contract. -/
theorem upgrade_history (x : X) (tokens : TokenLedger) (steps : List (Step me (Entry X)))
    (contractId : Address) : UpgradeHistory x tokens steps contractId := by
  have hrecent := getUpgradeHistory_reached x tokens steps contractId
  refine ⟨hrecent, fun y hy record hrecord => ?_, fun honce maxResults => ?_,
    fun honce maxResults => ?_, fun honce maxResults => ?_⟩
  · cases change_step (book_of_mem_trace hy) y.2 contractId with
    | kept hnone =>
      rw [hrecord] at hnone
      cases hnone
    | upgraded id p v v' record' hrecord' hp hv hv' hold hnew hnow =>
      obtain rfl := Option.some.inj (hrecord.symm.trans hrecord')
      rw [hold.1, hold.2, hnow.1, hnow.2]
      exact ⟨hasVersion_of_current hv, hasVersion_of_current hv'⟩
  · rw [hrecent]
    exact (List.isChain_reverse.mpr (chained_reached honce).linked).take maxResults
  · rw [hrecent]
    intro record hmem
    exact (chained_reached honce).raised record (List.mem_reverse.mp (List.mem_of_mem_take hmem))
  · rw [hrecent]
    intro record hhead
    rw [List.head?_take, List.head?_reverse] at hhead
    split_ifs at hhead with hzero
    · cases hhead
    have hlast : record ∈ (upgradesOf x tokens steps contractId).getLast? := hhead
    obtain ⟨v, hv, hversion, hhash⟩ := (chained_reached honce).newest record hlast
    rw [hversion, hhash]
    exact hasVersion_of_current hv

/-- The contract of `proposedRun` is upgraded to version 2; a proposal for version 3 is cancelled,
    and another contract upgraded, before it is upgraded to version 4. -/
def upgradedRun : List (Step ⟨0⟩ (Entry Unit)) :=
  proposedRun ++
    [.call (.signedBy ⟨0⟩ 4 4 [⟨1⟩]) (.executeUpgrade noHooks ⟨1⟩ 1),
      .call (.signedBy ⟨0⟩ 5 5 [⟨1⟩]) (.proposeUpgrade ⟨1⟩ ⟨7⟩ [3] 3 "v3"),
      .call (.signedBy ⟨0⟩ 6 6 [⟨1⟩]) (.cancelProposal ⟨1⟩ 2),
      .call (.signedBy ⟨0⟩ 7 7 [⟨1⟩]) (.registerContract ⟨1⟩ ⟨8⟩ "pay" 1 [1]),
      .call (.signedBy ⟨0⟩ 8 8 [⟨1⟩]) (.proposeUpgrade ⟨1⟩ ⟨8⟩ [5] 2 "pay v2"),
      .call (.signedBy ⟨0⟩ 9 9 [⟨1⟩]) (.executeUpgrade noHooks ⟨1⟩ 3),
      .call (.signedBy ⟨0⟩ 10 10 [⟨1⟩]) (.proposeUpgrade ⟨1⟩ ⟨7⟩ [4] 4 "v4"),
      .call (.signedBy ⟨0⟩ 11 11 [⟨1⟩]) (.executeUpgrade noHooks ⟨1⟩ 4)]

/-- Its history is linked, and ends in version 4. -/
theorem upgrade_history_upgraded :
    [(⟨⟨7⟩, 2, 4, [2], [4], ⟨1⟩, 11, "v4"⟩ : UpgradeRecord),
      ⟨⟨7⟩, 1, 2, [1], [2], ⟨1⟩, 4, "v2"⟩].IsChain
        UpgradeRecord.Continues ∧
      (reached () (.ofList []) upgradedRun).store.own.HasVersion ⟨7⟩ 4 [4] := by
  have hhistory : (reached () (.ofList []) upgradedRun).store.own.getUpgradeHistory ⟨7⟩ 5 =
      [⟨⟨7⟩, 2, 4, [2], [4], ⟨1⟩, 11, "v4"⟩, ⟨⟨7⟩, 1, 2, [1], [2], ⟨1⟩, 4, "v2"⟩] := by
    decide
  have honce : (registrationsOf () (.ofList []) upgradedRun ⟨7⟩).length ≤ 1 := by decide
  have hrun := upgrade_history () (.ofList []) upgradedRun ⟨7⟩
  have hlinked := hrun.linked honce 5
  have hnewest := hrun.newest honce 5 ⟨⟨7⟩, 2, 4, [2], [4], ⟨1⟩, 11, "v4"⟩
  rw [hhistory] at hlinked hnewest
  exact ⟨hlinked, hnewest rfl⟩

end Trellis.Upgrade
