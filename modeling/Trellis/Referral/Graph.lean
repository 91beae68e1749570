import Trellis.Lib.Climb
import Trellis.Lib.Run
import Trellis.Referral.Contract

/-!
# The graph of referrers

A wallet points to its referrer. `would_create_cycle` looks for the wallet among the new referrer
and the nine wallets above it, so it misses a cycle that closes further up.

Results:
* `wouldCreateCycle_iff`: what the check looks at.
* `graph_cases`: a call leaves the graph alone, or adds one edge that the check lets through.
* `acyclic_iff_shallow`: the graph has no cycle after every step of a run exactly when no accepted
  call gives a wallet a referrer that has the wallet ten or more hops above it.
* `no_double_commission`: cycles of ten wallets or fewer are never closed, so the wallets that an
  accrual visits differ.
-/

namespace Trellis.Referral

open Exec

variable {me : Address} {X : Type}

/-! ## The check -/

/-- Past a wallet that it does not look for, the check goes on at the referrer. -/
theorem climbsTo_succ {s : Store} {referredWallet : Address} {depth : ℕ} {current : Address}
    (hne : current ≠ referredWallet) :
    s.climbsTo referredWallet (depth + 1) current = true ↔
      ∃ next, s.readReferrer current = some next ∧ s.climbsTo referredWallet depth next = true := by
  rw [Store.climbsTo, if_neg hne]
  cases s.readReferrer current with
  | none => simp
  | some next => simp

theorem climbsTo_iff {s : Store} {referredWallet : Address} {depth : ℕ} {current : Address} :
    s.climbsTo referredWallet depth current = true ↔
      ∃ k < depth, climb s.readReferrer k current = some referredWallet := by
  induction depth generalizing current with
  | zero => simp [Store.climbsTo]
  | succ depth ih =>
    by_cases hfound : current = referredWallet
    · rw [Store.climbsTo, if_pos hfound]
      exact iff_of_true rfl ⟨0, Nat.succ_pos depth, congrArg some hfound⟩
    · rw [climbsTo_succ hfound]
      constructor
      · rintro ⟨next, hnext, hrest⟩
        obtain ⟨k, hk, hclimb⟩ := ih.mp hrest
        refine ⟨k + 1, Nat.succ_lt_succ hk, ?_⟩
        rw [climb_succ, hnext]
        exact hclimb
      · rintro ⟨k, hk, hclimb⟩
        cases k with
        | zero => exact absurd (Option.some.inj hclimb) hfound
        | succ k =>
          obtain ⟨next, hnext, hrest⟩ := Option.bind_eq_some_iff.mp hclimb
          exact ⟨next, hnext, ih.mpr ⟨k, Nat.lt_of_succ_lt_succ hk, hrest⟩⟩

/-- The check finds the wallet at the referrer or at most nine hops above it. -/
theorem wouldCreateCycle_iff {s : Store} {referredWallet referrer : Address} :
    s.wouldCreateCycle referredWallet referrer = true ↔
      ∃ k < maxSupportedTiers, climb s.readReferrer k referrer = some referredWallet :=
  climbsTo_iff

theorem climb_ne_of_not_cycle {s : Store} {referredWallet referrer : Address}
    (h : s.wouldCreateCycle referredWallet referrer = false) :
    ∀ k < maxSupportedTiers, climb s.readReferrer k referrer ≠ some referredWallet := by
  intro k hk hclimb
  rw [wouldCreateCycle_iff.mpr ⟨k, hk, hclimb⟩] at h
  cases h

/-! ## New edges -/

/-- The call gives the wallet the referrer, if the cycle check lets it: the admin signs
    `set_referrer`, or the wallet, which has no referrer yet, signs `register` with a referrer that
    has one. -/
def Places (env : Env me) (w : World (Linked Store X)) (wallet referrer : Address) :
    Entry X → Prop
  | .setReferrer caller referredWallet referrer' => wallet = referredWallet ∧ referrer = referrer' ∧
      w.shared.admin = some caller ∧ env.signed caller = true
  | .register wallet' referrer' => wallet = wallet' ∧ referrer = referrer' ∧
      env.signed wallet = true ∧ w.store.own.readReferrer wallet = none ∧
      (w.store.own.readReferrer referrer).isSome = true
  | _ => False

instance (env : Env me) (w : World (Linked Store X)) (wallet referrer : Address) (c : Entry X) :
    Decidable (Places env w wallet referrer c) := by
  unfold Places
  split <;> infer_instance

theorem readReferrer_set {s s' : Store} {wallet referrer : Address}
    (h : s'.referrers = s.referrers.insert wallet referrer) :
    s'.readReferrer = Function.update s.readReferrer wallet (some referrer) := by
  funext a
  unfold Store.readReferrer
  rw [h, Table.lookup_set, Function.update_apply]

theorem readReferrer_of_credited {baseAmount rewardCap : ℤ} {xs : List (Address × ℤ)}
    {w w' : World (Linked Store X)} (h : Each (Credited baseAmount rewardCap) xs w w') :
    w'.store.own.readReferrer = w.store.own.readReferrer := by
  obtain ⟨accrued, lifetimeAccrued, events, rfl⟩ := frame_of_credited h
  rfl

/-- A call leaves the graph alone, or it adds the edge that it places and the check lets through. -/
theorem graph_done {env : Env me} {w w' : World (Linked Store X)} {c : Entry X}
    (h : Done env w c w') :
    ((∀ a b, ¬ Places env w a b c) ∧ w'.store.own.readReferrer = w.store.own.readReferrer) ∨
      ∃ wallet referrer, (∀ a b, Places env w a b c ↔ a = wallet ∧ b = referrer) ∧
        w.store.own.wouldCreateCycle wallet referrer = false ∧
        w'.store.own.readReferrer =
          Function.update w.store.own.readReferrer wallet (some referrer) := by
  cases h with
  | @setReferrer caller referredWallet referrer events hadmin hsigned hne hcycle =>
    refine .inr ⟨referredWallet, referrer, fun a b => ?_, hcycle, readReferrer_set rfl⟩
    simp [Places, hadmin, hsigned]
  | @register wallet referrer events hsigned hne hnew hknown hcycle =>
    refine .inr ⟨wallet, referrer, fun a b => ⟨fun hplaced => ⟨hplaced.1, hplaced.2.1⟩, ?_⟩, hcycle,
      readReferrer_set rfl⟩
    rintro ⟨rfl, rfl⟩
    exact ⟨rfl, rfl, hsigned, hnew, hknown⟩
  | accrue w' maxTiers rewardCap rates hadmin hsigned hpos hmaxTiers hcap hrates heach =>
    exact .inl ⟨fun a b => id, readReferrer_of_credited heach⟩
  | init => exact .inl ⟨fun a b => id, rfl⟩
  | setTreasury => exact .inl ⟨fun a b => id, rfl⟩
  | setRegistry => exact .inl ⟨fun a b => id, rfl⟩
  | setTierConfig => exact .inl ⟨fun a b => id, rfl⟩
  | claimNothing => exact .inl ⟨fun a b => id, rfl⟩
  | claimRewards => exact .inl ⟨fun a b => id, rfl⟩

/-- A call that places an edge returns when the check lets it through. -/
theorem returns_of_places {env : Env me} {w : World (Linked Store X)} {c : Entry X}
    {wallet referrer : Address} (h : Places env w wallet referrer c)
    (hcycle : w.store.own.wouldCreateCycle wallet referrer = false) : Returns env w c := by
  have hne : wallet ≠ referrer := by
    rintro rfl
    exact climb_ne_of_not_cycle hcycle 0 (by decide) rfl
  cases c with
  | setReferrer caller referredWallet referrer' =>
    obtain ⟨rfl, rfl, hadmin, hsigned⟩ := h
    simp [Returns, Exec.Succeeds, setReferrer, hadmin, hsigned, hne, hcycle]
  | register wallet' referrer' =>
    obtain ⟨rfl, rfl, hsigned, hnew, hknown⟩ := h
    have hsome := Option.isSome_iff_ne_none.mp hknown
    simp [Returns, Exec.Succeeds, register, hsigned, hne, hnew, hsome, hcycle]
  | _ => cases h

/-! ## Cycles -/

/-- The graph of referrers. -/
def graph (w : World (Linked Store X)) : Address → Option Address := w.store.own.readReferrer

/-- The step is a call that gives the wallet the referrer, if the cycle check lets it. -/
def Adds (w : World (Linked Store X)) (wallet referrer : Address) : Step me (Entry X) → Prop
  | .call env c => Places env w wallet referrer c
  | .outside _ _ => False

/-- A step leaves the graph alone, or it adds an edge that the check lets through. -/
theorem graph_cases (w : World (Linked Store X)) (s : Step me (Entry X)) :
    (graph (step s w) = graph w ∧
      ∀ a b, Adds w a b s → ∃ k < maxSupportedTiers, climb (graph w) k b = some a) ∨
    ∃ wallet referrer, (∀ a b, Adds w a b s ↔ a = wallet ∧ b = referrer) ∧
      (∀ k < maxSupportedTiers, climb (graph w) k referrer ≠ some wallet) ∧
      graph (step s w) = Function.update (graph w) wallet (some referrer) := by
  rcases step_cases s w with ⟨env, c, rfl, -, hdone⟩ | ⟨hfails, hstore, -⟩
  · rcases graph_done hdone with ⟨hnone, hsame⟩ | ⟨wallet, referrer, hplaces, hcycle, hnew⟩
    · exact .inl ⟨hsame, fun a b hplaced => absurd hplaced (hnone a b)⟩
    · exact .inr ⟨wallet, referrer, hplaces, climb_ne_of_not_cycle hcycle, hnew⟩
  · refine .inl ⟨by rw [graph, hstore]; rfl, fun a b hadds => ?_⟩
    cases s with
    | outside env x => exact absurd hadds id
    | call env c =>
      refine wouldCreateCycle_iff.mp ?_
      by_contra hcycle
      exact hfails env c rfl (returns_of_places hadds (Bool.eq_false_iff.mpr hcycle))

/-- The step gives no wallet a referrer that has the wallet ten or more hops above it. -/
def Shallow (w : World (Linked Store X)) (s : Step me (Entry X)) : Prop :=
  ∀ wallet referrer, Adds w wallet referrer s →
    ∀ k ≥ maxSupportedTiers, climb (graph w) k referrer ≠ some wallet

/-- A step keeps the graph without cycles exactly when it is shallow. -/
theorem acyclic_step_iff {w : World (Linked Store X)} (h : Acyclic (graph w))
    (s : Step me (Entry X)) : Acyclic (graph (step s w)) ↔ Shallow w s := by
  rcases graph_cases w s with ⟨hsame, hnear⟩ | ⟨wallet, referrer, hadds, hfar, hnew⟩
  · rw [hsame]
    refine iff_of_true h fun a b hab k hk hclimb => ?_
    -- the wallet is found near the referrer, so it is not above it a second time
    obtain ⟨k', hk', hclimb'⟩ := hnear a b hab
    have heq := h.eq_of_climb (by omega) hclimb' hclimb
    omega
  · rw [hnew, acyclic_update_iff h]
    constructor
    · rintro hnone a b hab k -
      obtain ⟨rfl, rfl⟩ := (hadds a b).mp hab
      exact hnone k
    · intro hshallow k
      rcases Nat.lt_or_ge k maxSupportedTiers with hk | hk
      · exact hfar k hk
      · exact hshallow wallet referrer ((hadds wallet referrer).mpr ⟨rfl, rfl⟩) k hk

/-- The state of a fresh contract after the steps. -/
def reached (x : X) (tokens : TokenLedger) (steps : List (Step me (Entry X))) :
    World (Linked Store X) :=
  run step (deployed x tokens) steps

theorem acyclic_deployed (x : X) (tokens : TokenLedger) : Acyclic (graph (deployed x tokens)) := by
  intro a k hk
  obtain ⟨k, rfl⟩ := Nat.exists_eq_succ_of_ne_zero hk.ne'
  have hnone : graph (deployed x tokens) a = none := Finmap.lookup_empty a
  rw [climb_succ, hnone]
  simp

/-- No state of a run has a wallet above itself exactly when every step of the run is shallow. -/
theorem acyclic_iff_shallow (x : X) (tokens : TokenLedger) (steps : List (Step me (Entry X))) :
    (∀ y ∈ trace step (deployed x tokens) steps, Acyclic (graph (step y.2 y.1))) ↔
      ∀ y ∈ trace step (deployed x tokens) steps, Shallow y.1 y.2 :=
  trace_forall_iff (P := fun _ => True) (N := fun _ _ => True) (G := fun w => Acyclic (graph w))
    (Q := Shallow) (fun _ _ _ _ => trivial) (fun _ s _ _ h => acyclic_step_iff h s) trivial
    (acyclic_deployed x tokens) fun _ _ => trivial

/-- The admin `⟨1⟩` puts the wallets `⟨11⟩` to `⟨20⟩` in a row below `⟨10⟩`. -/
def rowRun : List (Step ⟨0⟩ (Entry Unit)) :=
  .call (.signedBy ⟨0⟩ 1 1 [⟨1⟩]) (.init ⟨1⟩) :: (List.range 10).map fun i =>
    .call (.signedBy ⟨0⟩ 2 2 [⟨1⟩]) (.setReferrer ⟨1⟩ ⟨11 + i⟩ ⟨10 + i⟩)

/-- The wallet `⟨10⟩`, which has no referrer, registers below `⟨20⟩`. -/
def closingStep : Step ⟨0⟩ (Entry Unit) := .call (.signedBy ⟨0⟩ 3 3 [⟨10⟩]) (.register ⟨10⟩ ⟨20⟩)

/-- The wallet is the eleventh above itself. -/
theorem cycle_closed :
    ¬ ∀ y ∈ trace step (deployed () (.ofList [])) (rowRun ++ [closingStep]),
      Acyclic (graph (step y.2 y.1)) := by
  intro h
  have hmem : (reached () (.ofList []) rowRun, closingStep) ∈
      trace step (deployed () (.ofList [])) (rowRun ++ [closingStep]) :=
    mem_trace_iff.mpr ⟨rowRun, [], rfl, rfl⟩
  have hcycle : climb (graph (step closingStep (reached () (.ofList []) rowRun))) 11 ⟨10⟩ =
      some ⟨10⟩ := by
    decide
  exact h _ hmem ⟨10⟩ 11 (by decide) hcycle

/-! ## The wallets of an accrual -/

/-- No cycle is as short as an accrual is long. -/
structure Spread (w : World (Linked Store X)) : Prop where
  noCycle : NoCycle (graph w) maxSupportedTiers
  maxTiers : ∀ n, w.store.own.maxTiers = some n → n ≤ maxSupportedTiers

theorem maxTiers_done {env : Env me} {w w' : World (Linked Store X)} {c : Entry X}
    (hdone : Done env w c w') (h : ∀ n, w.store.own.maxTiers = some n → n ≤ maxSupportedTiers) :
    ∀ n, w'.store.own.maxTiers = some n → n ≤ maxSupportedTiers := by
  cases hdone with
  | init =>
    rintro n ⟨⟩
    decide
  | setTierConfig events hadmin hsigned hvalid =>
    rintro n ⟨⟩
    exact hvalid.le
  | accrue w' maxTiers rewardCap rates hadmin hsigned hpos hmaxTiers hcap hrates heach =>
    rw [(config_of_credited heach).1]
    exact h
  | _ => exact h

theorem Spread.step {w : World (Linked Store X)} (h : Spread w) (s : Step me (Entry X)) :
    Spread (step s w) := by
  constructor
  · rcases graph_cases w s with ⟨hsame, -⟩ | ⟨wallet, referrer, -, hfar, hnew⟩
    · rw [hsame]
      exact h.noCycle
    · rw [hnew]
      exact h.noCycle.update hfar
  · rcases step_cases s w with ⟨env, c, -, -, hdone⟩ | ⟨-, hstore, -⟩
    · exact maxTiers_done hdone h.maxTiers
    · rw [hstore]
      exact h.maxTiers

theorem spread_reached (x : X) (tokens : TokenLedger) (steps : List (Step me (Entry X))) :
    Spread (reached x tokens steps) := by
  refine run_induct (P := Spread) (fun _ s h => h.step s) ⟨?_, ?_⟩ steps
  · exact (acyclic_deployed x tokens).noCycle _
  · rintro n ⟨⟩

/-- The tiers of an accrual are the points above the wallet. -/
theorem path_eq_tiersUp (s : Store) (rates : List ℤ) (wallet : Address) :
    path s.readReferrer rates.length wallet = wallet :: (s.tiersUp rates wallet).map Prod.fst := by
  induction rates generalizing wallet with
  | nil => rfl
  | cons bps rest ih =>
    rw [List.length_cons, path, Store.tiersUp]
    cases hreferrer : s.readReferrer wallet with
    | none => rfl
    | some referrer =>
      show wallet :: path _ _ _ = _
      rw [ih]
      rfl

/-- Each referrer of the tiers is credited with what its cap leaves of the commission of that tier,
    and nobody else is credited. -/
def CreditedOnce (baseAmount rewardCap : ℤ) (tiers : List (Address × ℤ)) (s s' : Store) : Prop :=
  (∀ a, a ∉ tiers.map Prod.fst → s'.readAccrued a = s.readAccrued a ∧
    s'.readLifetimeAccrued a = s.readLifetimeAccrued a) ∧
  ∀ x ∈ tiers, ∃ commission, Math.bpsOf baseAmount x.2 = some commission ∧
    s'.readAccrued x.1 = s.readAccrued x.1 + s.credited rewardCap x.1 commission ∧
    s'.readLifetimeAccrued x.1 = s.readLifetimeAccrued x.1 + s.credited rewardCap x.1 commission

theorem creditedOnce_of_nodup {baseAmount rewardCap : ℤ} {tiers : List (Address × ℤ)}
    {w w' : World (Linked Store X)} (h : Each (Credited baseAmount rewardCap) tiers w w')
    (hnodup : (tiers.map Prod.fst).Nodup) :
    CreditedOnce baseAmount rewardCap tiers w.store.own w'.store.own := by
  induction h with
  | nil => exact ⟨fun a _ => ⟨rfl, rfl⟩, by simp⟩
  | @cons x xs w w₁ w₂ hx _ ih =>
    obtain ⟨commission, events, hcommission, rfl⟩ := hx
    rw [List.map_cons, List.nodup_cons] at hnodup
    obtain ⟨hother, hall⟩ := ih hnodup.2
    have hsame : ∀ a, a ≠ x.1 → (w.store.own.credit rewardCap x.1 commission).readAccrued a =
          w.store.own.readAccrued a ∧
        (w.store.own.credit rewardCap x.1 commission).readLifetimeAccrued a =
          w.store.own.readLifetimeAccrued a := by
      intro a ha
      rw [readAccrued_credit, readLifetimeAccrued_credit, if_neg ha, add_zero, add_zero]
      exact ⟨rfl, rfl⟩
    constructor
    · intro a ha
      rw [List.map_cons, List.mem_cons, not_or] at ha
      rw [(hother a ha.2).1, (hother a ha.2).2]
      exact hsame a ha.1
    · intro y hy
      rcases List.mem_cons.mp hy with rfl | hy
      · refine ⟨commission, hcommission, ?_⟩
        rw [(hother y.1 hnodup.1).1, (hother y.1 hnodup.1).2, readAccrued_credit,
          readLifetimeAccrued_credit, if_pos rfl]
        exact ⟨rfl, rfl⟩
      · have hne : y.1 ≠ x.1 := by
          intro heq
          exact hnodup.1 (heq ▸ List.mem_map_of_mem hy)
        obtain ⟨commission', hcommission', haccrued, hlifetime⟩ := hall y hy
        refine ⟨commission', hcommission', ?_⟩
        rw [haccrued, hlifetime]
        dsimp only
        unfold Store.credited
        rw [(hsame y.1 hne).1, (hsame y.1 hne).2]
        exact ⟨rfl, rfl⟩

theorem length_of_rates {s : Store} {remaining tier : ℕ} {rates : List ℤ}
    (h : s.rates remaining tier = some rates) : rates.length = remaining := by
  induction remaining generalizing tier rates with
  | zero =>
    obtain rfl := Option.some.inj h
    rfl
  | succ remaining ih =>
    obtain ⟨bps, -, hrest⟩ := Option.bind_eq_some_iff.mp h
    obtain ⟨rest, htail, rfl⟩ := Option.map_eq_some_iff.mp hrest
    rw [List.length_cons, ih htail]

/-- In every accrual from a reachable state the wallet and the referrers above it that are visited
    differ, and each of these referrers, and nobody else, is credited with the commission of one
    tier. -/
theorem no_double_commission (x : X) (tokens : TokenLedger) (steps : List (Step me (Entry X)))
    (env : Env me) (caller referredWallet : Address) (baseAmount total : ℤ)
    (h : (accrue env caller referredWallet baseAmount).value (reached x tokens steps) =
      some total) :
    ∃ maxTiers rewardCap rates, (reached x tokens steps).store.own.maxTiers = some maxTiers ∧
      (reached x tokens steps).store.own.rewardCap = some rewardCap ∧
      (reached x tokens steps).store.own.rates maxTiers 1 = some rates ∧
      (path (graph (reached x tokens steps)) maxTiers referredWallet).Nodup ∧
      path (graph (reached x tokens steps)) maxTiers referredWallet = referredWallet ::
        ((reached x tokens steps).store.own.tiersUp rates referredWallet).map Prod.fst ∧
      CreditedOnce baseAmount rewardCap
        ((reached x tokens steps).store.own.tiersUp rates referredWallet)
        (reached x tokens steps).store.own
        ((accrue env caller referredWallet baseAmount).commit
          (reached x tokens steps)).store.own := by
  have hdone := accrue_done (value_eq_some.mp h)
  have hspread := spread_reached x tokens steps
  generalize (accrue env caller referredWallet baseAmount).commit (reached x tokens steps) = w'
    at hdone ⊢
  generalize reached x tokens steps = w at hdone hspread ⊢
  cases hdone with
  | accrue w' maxTiers rewardCap rates hadmin hsigned hpos hmaxTiers hcap hrates heach =>
    have hpath : path (graph w) maxTiers referredWallet = referredWallet ::
        (w.store.own.tiersUp rates referredWallet).map Prod.fst := by
      rw [← length_of_rates hrates]
      exact path_eq_tiersUp w.store.own rates referredWallet
    have hnodup : (path (graph w) maxTiers referredWallet).Nodup :=
      (hspread.noCycle.mono (hspread.maxTiers maxTiers hmaxTiers)).nodup_path referredWallet
    have htiers := hnodup
    rw [hpath, List.nodup_cons] at htiers
    exact ⟨maxTiers, rewardCap, rates, hmaxTiers, hcap, hrates, hnodup, hpath,
      creditedOnce_of_nodup heach htiers.2⟩

/-- Two tiers are configured, and `⟨12⟩` is below `⟨11⟩`, who is below `⟨10⟩`. -/
def tierRun : List (Step ⟨0⟩ (Entry Unit)) :=
  [.call (.signedBy ⟨0⟩ 1 1 [⟨1⟩]) (.init ⟨1⟩),
    .call (.signedBy ⟨0⟩ 2 2 [⟨1⟩]) (.setTierConfig ⟨1⟩ [1000, 500] 2 10000),
    .call (.signedBy ⟨0⟩ 3 3 [⟨1⟩]) (.setReferrer ⟨1⟩ ⟨11⟩ ⟨10⟩),
    .call (.signedBy ⟨0⟩ 4 4 [⟨12⟩]) (.register ⟨12⟩ ⟨11⟩)]

/-- An accrual of 1000 for `⟨12⟩` credits 100 and 50. -/
theorem no_double_commission_tiers :
    ∃ maxTiers, (reached () (.ofList []) tierRun).store.own.maxTiers = some maxTiers ∧
      (path (graph (reached () (.ofList []) tierRun)) maxTiers ⟨12⟩).Nodup := by
  obtain ⟨maxTiers, rewardCap, rates, hmaxTiers, -, -, hnodup, -⟩ := no_double_commission ()
    (.ofList []) tierRun (.signedBy ⟨0⟩ 5 5 [⟨1⟩]) ⟨1⟩ ⟨12⟩ 1000 150 (by decide)
  exact ⟨maxTiers, hmaxTiers, hnodup⟩

end Trellis.Referral
