import Trellis.Governance.Proposals

/-!
# The parameter catalog of the governance contract

Three entry points write the catalog: `initialize` seeds it, `set_param` writes one value for the
admin, and `execute` writes the value of an approved proposal, which is validated then and not when
it is proposed.

Results:
* `bounded_reached`: every stored value lies within the bounds of its key.
* `readable_run`: no step removes a key.
* `sameWrite`: `set_param` and the execution of an approved proposal accept the same values and
  write the same.
* `parameters`: the three together, for every run.
-/

namespace Trellis.Governance

open Exec

variable {me : Address}

/-! ## Values within their bounds -/

/-- Every stored value lies within the bounds of its key. -/
def Bounded (w : World Store) : Prop := w.store.params.Forall ValidParam

theorem valid_defaults : ∀ kv ∈ defaultParams, ValidParam kv.1 kv.2 := by
  intro kv hkv
  simp only [defaultParams, List.mem_cons, List.not_mem_nil, or_false] at hkv
  rcases hkv with rfl | rfl | rfl | rfl | rfl | rfl | rfl
  all_goals exact ⟨_, rfl, by decide, by decide⟩

theorem Bounded.done {env : Env me} {c : Entry} {w w' : World Store} (h : Bounded w)
    (hdone : Done env w c w') : Bounded w' := by
  cases hdone with
  | init => exact Table.Forall.setAll h valid_defaults
  | execute events p hrole hsigned hp hpending hthreshold hvalid =>
    show (p.action.effect w).store.params.Forall ValidParam
    cases haction : p.action with
    | setParameter key value =>
      rw [haction] at hvalid
      exact Table.Forall.set h hvalid
    | _ => exact h
  | setParam events hadmin hsigned hvalid => exact Table.Forall.set h hvalid
  | _ => exact h

theorem Bounded.step {w : World Store} (h : Bounded w) (s : Step me Entry) :
    Bounded (step s w) := by
  refine step_induct h (fun env x => ?_) (fun env c w' hdone => h.done hdone) s
  unfold Bounded
  rw [store_outsideTransfer]
  exact h

theorem bounded_reached (tokens : TokenLedger) (steps : List (Step me Entry)) :
    Bounded (reached tokens steps) := by
  refine run_induct (P := Bounded) (fun w s h => h.step s) ?_ steps
  exact Table.Forall.empty _

/-! ## Keys that stay -/

/-- The key has a stored value. -/
def Readable (key : ParameterKey) (w : World Store) : Prop :=
  (w.store.params.lookup key).isSome = true

theorem Readable.done {key : ParameterKey} {env : Env me} {c : Entry} {w w' : World Store}
    (h : Readable key w) (hdone : Done env w c w') : Readable key w' := by
  cases hdone with
  | init => exact Table.isSome_lookup_setAll (.inl h)
  | execute events p =>
    show ((p.action.effect w).store.params.lookup key).isSome = true
    cases p.action with
    | setParameter key' value => exact Table.isSome_lookup_set h key' value
    | _ => exact h
  | setParam => exact Table.isSome_lookup_set h _ _
  | _ => exact h

theorem Readable.step {key : ParameterKey} {w : World Store} (h : Readable key w)
    (s : Step me Entry) : Readable key (step s w) := by
  refine step_induct h (fun env x => ?_) (fun env c w' hdone => h.done hdone) s
  unfold Readable
  rw [store_outsideTransfer]
  exact h

/-- What is readable stays so. -/
theorem readable_run {key : ParameterKey} {w : World Store} (h : Readable key w)
    (steps : List (Step me Entry)) : Readable key (run step w steps) :=
  run_induct (P := Readable key) (fun _ s h => h.step s) h steps

theorem readable_init {env : Env me} {admin : Address} {threshold : ℕ} {adminSet : List Address}
    {w : World Store} (h : (init env admin threshold adminSet).Succeeds w) {key : ParameterKey}
    (hkey : key ∈ defaultParams.map Prod.fst) :
    Readable key (step (.call env (.init admin threshold adminSet)) w) := by
  have hdone : Done env w (.init admin threshold adminSet)
      (step (.call env (.init admin threshold adminSet)) w) := step_of_returns h
  generalize step (.call env (.init admin threshold adminSet)) w = w' at hdone
  cases hdone with
  | init => exact Table.isSome_lookup_setAll (.inr hkey)

theorem getParam_eq_ok {s : Store} {key : ParameterKey} {value : ℤ} :
    s.getParam key = .ok value ↔ s.params.lookup key = some value := by
  unfold Store.getParam
  cases s.params.lookup key <;> simp

theorem Readable.getParam {key : ParameterKey} {w : World Store} (h : Readable key w) :
    ∃ value, w.store.getParam key = .ok value := by
  obtain ⟨value, hvalue⟩ := Option.isSome_iff_exists.mp h
  exact ⟨value, getParam_eq_ok.mpr hvalue⟩

/-! ## The two write paths -/

/-- In `w`, the direct write and the execution of the proposal `p` come to the same. -/
structure SameWrite (env : Env me) (caller : Address) (env' : Env me) (executor : Address)
    (w : World Store) (id : ℕ) (p : Proposal) (key : ParameterKey) (value : ℤ) : Prop where
  /-- Both succeed for the values within the bounds. -/
  accepted : ValidParam key value →
    (setParam env caller key value).Succeeds w ∧ (execute env' executor id).Succeeds w
  /-- Both return the same error for the others. -/
  rejected : ¬ ValidParam key value →
    setParam env caller key value w = .fail (.err .invalidArgument) w ∧
      execute env' executor id w = .fail (.err .invalidArgument) w
  /-- They leave the same catalog. -/
  catalog : (step (.call env (.setParam caller key value)) w).store.params =
    (step (.call env' (.execute executor id)) w).store.params
  /-- An execution that fails leaves the proposal pending and the catalog as it was. -/
  failed : ¬ (execute env' executor id).Succeeds w →
    (step (.call env' (.execute executor id)) w).store.proposals.lookup id = some p ∧
      p.status = .pending ∧ (step (.call env' (.execute executor id)) w).store.params =
        w.store.params

theorem setParam_succeeds {env : Env me} {caller : Address} {key : ParameterKey} {value : ℤ}
    {w : World Store} (hadmin : w.shared.admin = some caller) (hsigned : env.signed caller = true)
    (hvalid : ValidParam key value) : (setParam env caller key value).Succeeds w := by
  simp [Exec.Succeeds, setParam, requireGovernance, writeParam, hadmin, hsigned, hvalid]

/-- The direct write and the execution of an approved proposal for the same value come to the
    same. -/
theorem sameWrite {w : World Store} {env env' : Env me} {caller executor : Address} {id : ℕ}
    {p : Proposal} {key : ParameterKey} {value : ℤ} (hadmin : w.shared.admin = some caller)
    (hsigned : env.signed caller = true) (hacts : Acts env' w executor)
    (hp : w.store.proposals.lookup id = some p) (hpending : p.status = .pending)
    (hthreshold : w.store.getThreshold ≤ p.approvalCount)
    (haction : p.action = .setParameter key value) :
    SameWrite env caller env' executor w id p key value := by
  have hfails : ¬ ValidParam key value →
      setParam env caller key value w = .fail (.err .invalidArgument) w ∧
        execute env' executor id w = .fail (.err .invalidArgument) w := by
    intro hvalid
    have hend := validateParam_fail (w := w) hvalid
    constructor
    · simp [setParam, requireGovernance, hadmin, hsigned, hend]
    · simp [execute, requireAdminRole, hacts.1, hacts.2, hp, hpending, haction, executeAction, hend]
      omega
  have haccepted : ValidParam key value →
      (setParam env caller key value).Succeeds w ∧ (execute env' executor id).Succeeds w := by
    intro hvalid
    have hvalid' : p.action.Valid := by
      rw [haction]
      exact hvalid
    exact ⟨setParam_succeeds hadmin hsigned hvalid,
      execute_succeeds hacts hp hpending hthreshold hvalid'⟩
  refine ⟨haccepted, hfails, ?_, fun hfail => ?_⟩
  · by_cases hvalid : ValidParam key value
    · have hset : Done env w (.setParam caller key value) _ := step_of_returns (haccepted hvalid).1
      have hexec : Done env' w (.execute executor id) _ := step_of_returns (haccepted hvalid).2
      generalize step (.call env (.setParam caller key value)) w = w₁ at hset
      generalize step (.call env' (.execute executor id)) w = w₂ at hexec
      cases hset with
      | setParam events =>
        cases hexec with
        | execute events' p' hrole hsigned' hp' =>
          obtain rfl := Option.some.inj (hp'.symm.trans hp)
          show _ = (p'.action.effect w).store.params
          rw [haction]
          rfl
    · have hset : step (.call env (.setParam caller key value)) w = w :=
        commit_of_fails (by simp [Exec.Succeeds, (hfails hvalid).1])
      have hexec : step (.call env' (.execute executor id)) w = w :=
        commit_of_fails (by simp [Exec.Succeeds, (hfails hvalid).2])
      rw [hset, hexec]
  · have hexec : step (.call env' (.execute executor id)) w = w := commit_of_fails hfail
    rw [hexec]
    exact ⟨hp, hpending, rfl⟩

/-! ## Every run -/

/-- The catalog at the end of a run. -/
structure Catalog (tokens : TokenLedger) (steps : List (Step me Entry)) : Prop where
  /-- Every value that is read lies within the bounds of its key. -/
  bounded (key : ParameterKey) (value : ℤ) : (reached tokens steps).store.getParam key = .ok value →
    ∃ bounds, boundsFor key = some bounds ∧ bounds.min ≤ value ∧ value ≤ bounds.max
  /-- No tier outside `1, …, 10` has one. -/
  tiers (tier : ℕ) (value : ℤ) :
    (reached tokens steps).store.getParam (.referralTierBps tier) = .ok value → 1 ≤ tier ∧ tier ≤ 10
  /-- The keys that an `initialize` of the run has seeded are readable. -/
  seeded (pre post : List (Step me Entry)) (env : Env me) (admin : Address) (threshold : ℕ)
    (adminSet : List Address) : steps = pre ++ .call env (.init admin threshold adminSet) :: post →
    (init env admin threshold adminSet).Succeeds (reached tokens pre) →
    ∀ key ∈ defaultParams.map Prod.fst, ∃ value,
      (reached tokens steps).store.getParam key = .ok value

/-- Over every run, repeated `initialize` calls included, the catalog stays within the bounds and
    keeps the seeded keys; and in every state at all, `set_param` by the admin and the execution of
    an approved proposal for the same value by a holder of `Role.admin` come to the same. -/
theorem parameters (tokens : TokenLedger) (steps : List (Step me Entry)) :
    Catalog tokens steps ∧
      ∀ (w : World Store) (env env' : Env me) (caller executor : Address) (id : ℕ) (p : Proposal)
        (key : ParameterKey) (value : ℤ), w.shared.admin = some caller → env.signed caller = true →
        Acts env' w executor → w.store.proposals.lookup id = some p → p.status = .pending →
        w.store.getThreshold ≤ p.approvalCount → p.action = .setParameter key value →
        SameWrite env caller env' executor w id p key value := by
  have hbounded : ∀ key value, (reached tokens steps).store.getParam key = .ok value →
      ValidParam key value :=
    fun key value hvalue => bounded_reached tokens steps key value (getParam_eq_ok.mp hvalue)
  refine ⟨⟨hbounded, fun tier value hvalue => ?_, ?_⟩, ?_⟩
  · obtain ⟨bounds, hbounds, -⟩ := hbounded _ value hvalue
    simp only [boundsFor] at hbounds
    split_ifs at hbounds with htier
    omega
  · rintro pre post env admin threshold adminSet rfl hinit key hkey
    have hreadable := readable_run (readable_init hinit hkey) post
    unfold reached
    rw [run_append]
    exact hreadable.getParam
  · intro w env env' caller executor id p key value hadmin hsigned hacts hp hpending
      hthreshold haction
    exact sameWrite hadmin hsigned hacts hp hpending hthreshold haction

/-- The two admins approve a cap on the number of tiers, beside which `⟨1⟩` also sets the
    parameters. -/
def capRun (value : ℤ) : List (Step ⟨0⟩ Entry) :=
  [.call (.signedBy ⟨0⟩ 1 1 []) (.init ⟨1⟩ 2 [⟨1⟩, ⟨2⟩]),
    .call (.signedBy ⟨0⟩ 2 2 [⟨1⟩]) (.propose ⟨1⟩ (.setParameter .referralMaxTiers value)),
    .call (.signedBy ⟨0⟩ 3 3 [⟨1⟩]) (.approve ⟨1⟩ 1),
    .call (.signedBy ⟨0⟩ 4 4 [⟨2⟩]) (.approve ⟨2⟩ 1),
    .call (.signedBy ⟨0⟩ 5 5 [⟨1⟩]) (.setParam ⟨1⟩ .aidDefaultExpiry 3600)]

/-- A cap of 5 is accepted both ways, a cap of 11 neither way. -/
theorem parameters_cap :
    (∃ bounds, boundsFor .aidDefaultExpiry = some bounds ∧ bounds.min ≤ 3600 ∧ 3600 ≤ bounds.max) ∧
    (execute (Env.signedBy ⟨0⟩ 6 6 [⟨2⟩]) ⟨2⟩ 1).Succeeds (reached (.ofList []) (capRun 5)) ∧
    setParam (Env.signedBy ⟨0⟩ 6 6 [⟨1⟩]) ⟨1⟩ .referralMaxTiers 11
      (reached (.ofList []) (capRun 11)) =
        .fail (.err .invalidArgument) (reached (.ofList []) (capRun 11)) := by
  have hsame : ∀ value, SameWrite (Env.signedBy ⟨0⟩ 6 6 [⟨1⟩]) ⟨1⟩ (Env.signedBy ⟨0⟩ 6 6 [⟨2⟩]) ⟨2⟩
      (reached (.ofList []) (capRun value)) 1
      ⟨1, ⟨1⟩, .setParameter .referralMaxTiers value, 2, .pending, 2⟩ .referralMaxTiers value := by
    intro value
    have hroles : (reached (.ofList []) (capRun value)).shared.roles =
        grantAdmins ∅ [⟨1⟩, ⟨2⟩] := rfl
    have hacts : Acts (Env.signedBy ⟨0⟩ 6 6 [⟨2⟩]) (reached (.ofList []) (capRun value)) ⟨2⟩ :=
      ⟨by rw [hroles]; decide, rfl⟩
    exact (parameters (.ofList []) (capRun value)).2 _ _ _ _ _ 1 _ _ value rfl rfl hacts rfl rfl
      (le_refl 2) rfl
  have hexpiry := (parameters (.ofList []) (capRun 5)).1.bounded .aidDefaultExpiry 3600 rfl
  refine ⟨hexpiry, ((hsame 5).accepted ⟨_, rfl, by decide, by decide⟩).2,
    ((hsame 11).rejected ?_).1⟩
  rintro ⟨bounds, hbounds, -, hmax⟩
  obtain rfl := Option.some.inj hbounds
  exact absurd hmax (by decide)

end Trellis.Governance
