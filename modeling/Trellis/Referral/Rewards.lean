import Trellis.Lib.Run
import Trellis.Referral.Contract
import Trellis.Treasury.Contract

/-!
# Commissions

A commission raises the accrued and the lifetime balance of a referrer by the same amount; a claim
pays the accrued balance out through the treasury and sets it to zero.

Results:
* `booked_step`: what a step does to the two balances of a referrer.
* `commissionBook_reached`: the lifetime balance is what is accrued and what was claimed, it never
  falls, and it is within the largest cap configured so far.
* `treasuryPays`: a claim takes from the rewards of the treasury contract exactly what it returns.
* `commissions_conserved`: both over the runs of the contract and those it calls.
-/

namespace Trellis.Referral

open Exec

variable {me : Address} {X : Type}

/-! ## Runs of the contract and those it calls -/

/-- A step of the chain as the contract and those it calls see it. -/
inductive SuiteStep (me : Address) (X : Type) where
  | referral (s : Step me (Entry X))
  | others (f : X → X)

/-- The state after a step; the other contracts do as they please between the calls. -/
def suiteStep : SuiteStep me X → World (Linked Store X) → World (Linked Store X)
  | .referral s, w => step s w
  | .others f, w => { w with store := { w.store with others := f w.store.others } }

/-- The state that a fresh contract beside other contracts in the state `x` reaches by the steps. -/
def suiteReached (x : X) (tokens : TokenLedger) (steps : List (SuiteStep me X)) :
    World (Linked Store X) :=
  run suiteStep (deployed x tokens) steps

/-- What a claim of the referrer returns. -/
def claimed (referrer : Address) (w : World (Linked Store X)) : SuiteStep me X → Option ℤ
  | .referral (.call env (.claimRewards callees claimant)) =>
    if claimant = referrer then (claimRewards env callees claimant).value w else none
  | _ => none

/-- The cap that a call configures. -/
def configuredCap (w : World (Linked Store X)) : SuiteStep me X → Option ℤ
  | .referral (.call env (.init admin)) => ((init env admin).value w).map fun _ => 0
  | .referral (.call env (.setTierConfig caller tierBps maxTiers rewardCap)) =>
    ((setTierConfig env caller tierBps maxTiers rewardCap).value w).map fun _ => rewardCap
  | _ => none

/-- The amounts that the claims of the referrer have returned in a run. -/
def claims (referrer : Address) (x : X) (tokens : TokenLedger) (steps : List (SuiteStep me X)) :
    List ℤ :=
  yields suiteStep (claimed referrer) (deployed x tokens) steps

/-- The caps that were configured in a run. -/
def caps (x : X) (tokens : TokenLedger) (steps : List (SuiteStep me X)) : List ℤ :=
  yields suiteStep configuredCap (deployed x tokens) steps

/-! ## One step -/

/-- The referrer gains `gained` and is paid `paid` on the way from `w` to `w'`. -/
structure Booked (referrer : Address) (gained paid : ℤ) (w w' : World (Linked Store X)) : Prop where
  gained_nonneg : 0 ≤ gained
  accrued : w'.store.own.readAccrued referrer = w.store.own.readAccrued referrer + gained - paid
  lifetime : w'.store.own.readLifetimeAccrued referrer =
    w.store.own.readLifetimeAccrued referrer + gained
  capped : gained = 0 ∨ ∃ cap, w.store.own.rewardCap = some cap ∧
    w'.store.own.readLifetimeAccrued referrer ≤ cap
  paid_all : paid = 0 ∨ paid = w.store.own.readAccrued referrer

/-- Nothing is booked when the two balances stay. -/
theorem Booked.same {referrer : Address} {w w' : World (Linked Store X)}
    (haccrued : w'.store.own.readAccrued referrer = w.store.own.readAccrued referrer)
    (hlifetime : w'.store.own.readLifetimeAccrued referrer =
      w.store.own.readLifetimeAccrued referrer) : Booked referrer 0 0 w w' where
  gained_nonneg := le_rfl
  accrued := by rw [haccrued, add_zero, sub_zero]
  lifetime := by rw [hlifetime, add_zero]
  capped := .inl rfl
  paid_all := .inl rfl

/-- One gain after another. -/
theorem Booked.trans {referrer : Address} {gained gained' : ℤ} {w w' w'' : World (Linked Store X)}
    (h : Booked referrer gained 0 w w') (h' : Booked referrer gained' 0 w' w'')
    (hcap : w'.store.own.rewardCap = w.store.own.rewardCap) :
    Booked referrer (gained + gained') 0 w w'' where
  gained_nonneg := add_nonneg h.gained_nonneg h'.gained_nonneg
  accrued := by
    rw [h'.accrued, h.accrued]
    ring
  lifetime := by rw [h'.lifetime, h.lifetime, add_assoc]
  capped := by
    rcases h'.capped with hzero | ⟨cap, hsome, hle⟩
    · rw [h'.lifetime, hzero, add_zero, add_zero]
      exact h.capped
    · rw [hcap] at hsome
      exact .inr ⟨cap, hsome, hle⟩
  paid_all := .inl rfl

/-- A commission is booked on the referrer of its tier. -/
theorem booked_credited {baseAmount rewardCap : ℤ} {x : Address × ℤ} {w w' : World (Linked Store X)}
    (h : Credited baseAmount rewardCap x w w') (hcap : w.store.own.rewardCap = some rewardCap)
    (referrer : Address) : ∃ gained, Booked referrer gained 0 w w' := by
  obtain ⟨commission, events, -, rfl⟩ := h
  obtain ⟨hnonneg, hbound⟩ := credited_bounds w.store.own rewardCap x.1 commission
  by_cases hx : referrer = x.1
  · subst hx
    refine ⟨w.store.own.credited rewardCap x.1 commission, hnonneg, ?_, ?_, ?_, .inl rfl⟩
    · rw [readAccrued_credit, if_pos rfl, sub_zero]
    · rw [readLifetimeAccrued_credit, if_pos rfl]
    · refine hbound.imp_right fun hle => ⟨rewardCap, hcap, ?_⟩
      rw [readLifetimeAccrued_credit, if_pos rfl]
      exact hle
  · refine ⟨0, .same ?_ ?_⟩
    · rw [readAccrued_credit, if_neg hx, add_zero]
    · rw [readLifetimeAccrued_credit, if_neg hx, add_zero]

/-- The commissions of an accrual are booked one after another. -/
theorem booked_accrual {baseAmount rewardCap : ℤ} {tiers : List (Address × ℤ)}
    {w w' : World (Linked Store X)} (h : Each (Credited baseAmount rewardCap) tiers w w')
    (hcap : w.store.own.rewardCap = some rewardCap) (referrer : Address) :
    ∃ gained, Booked referrer gained 0 w w' := by
  induction h with
  | nil => exact ⟨0, .same rfl rfl⟩
  | cons hx _ ih =>
    obtain ⟨gained, hfirst⟩ := booked_credited hx hcap referrer
    have hsame := (config_of_credited (.cons hx (.nil _))).2
    obtain ⟨gained', hrest⟩ := ih (hsame.trans hcap)
    exact ⟨gained + gained', hfirst.trans hrest hsame⟩

/-- A claim that succeeds pays its claimant what was accrued, and nobody else. -/
theorem claimed_of_succeeds {env : Env me} {callees : Callees X} {claimant : Address}
    {w : World (Linked Store X)} (h : (claimRewards env callees claimant).Succeeds w)
    (referrer : Address) :
    (claimed referrer w (.referral (.call env (.claimRewards callees claimant)))).getD 0 =
      if claimant = referrer then w.store.own.readAccrued claimant else 0 := by
  obtain ⟨amount, w', hok⟩ := h
  rw [claimed]
  split_ifs
  · rw [value_of_ok hok]
    exact claimRewards_paid hok
  · rfl

/-- A call other than a claim of the referrer pays it nothing. -/
theorem claimed_of_not_returns {referrer : Address} {w : World (Linked Store X)}
    {s : Step me (Entry X)} (h : ∀ env c, s = .call env c → ¬ Returns env w c) :
    claimed referrer w (.referral s) = none := by
  cases s with
  | outside => rfl
  | call env c =>
    cases c with
    | claimRewards callees claimant =>
      rw [claimed, value_eq_none.mpr (h _ _ rfl), ite_self]
    | _ => rfl

/-- A step books a gain of the referrer, which brings its lifetime balance to the cap at most, and
    pays what the claim of the referrer returns. -/
theorem booked_step (referrer : Address) (w : World (Linked Store X)) (s : SuiteStep me X) :
    ∃ gained, Booked referrer gained ((claimed referrer w s).getD 0) w (suiteStep s w) := by
  cases s with
  | others f => exact ⟨0, .same rfl rfl⟩
  | referral s =>
    rcases step_cases s w with ⟨env, c, rfl, hreturns, hdone⟩ | ⟨hfails, hstore, -⟩
    · show ∃ gained, Booked referrer gained _ w (step _ w)
      generalize step _ w = w' at hdone ⊢
      cases hdone with
      | init | setTreasury | setRegistry | setTierConfig | setReferrer | register =>
        exact ⟨0, .same rfl rfl⟩
      | accrue w' maxTiers rewardCap rates hadmin hsigned hpos hmaxTiers hcap hrates heach =>
        exact booked_accrual heach hcap referrer
      | claimNothing hsigned hzero =>
        rw [claimed_of_succeeds hreturns, hzero, ite_self]
        exact ⟨0, .same rfl rfl⟩
      | @claimRewards callees claimant events treasury x₁ x₂ =>
        rw [claimed_of_succeeds hreturns]
        by_cases hclaimant : claimant = referrer
        · subst hclaimant
          rw [if_pos rfl]
          refine ⟨0, le_rfl, ?_, (add_zero _).symm, .inl rfl, .inr rfl⟩
          show ((w.store.own.accrued.insert claimant 0).lookup claimant).getD 0 = _
          rw [Table.lookup_set, if_pos rfl, Option.getD_some, add_zero, sub_self]
        · rw [if_neg hclaimant]
          refine ⟨0, .same ?_ rfl⟩
          show ((w.store.own.accrued.insert claimant 0).lookup referrer).getD 0 = _
          rw [Table.lookup_set, if_neg (Ne.symm hclaimant)]
          rfl
    · rw [claimed_of_not_returns hfails]
      refine ⟨0, .same ?_ ?_⟩
      · rw [suiteStep, hstore]
      · rw [suiteStep, hstore]

theorem rewardCap_step (w : World (Linked Store X)) (s : SuiteStep me X) :
    (suiteStep s w).store.own.rewardCap = (configuredCap w s).or w.store.own.rewardCap := by
  cases s with
  | others f => rfl
  | referral s =>
    rcases step_cases s w with ⟨env, c, rfl, hreturns, hdone⟩ | ⟨hfails, hstore, -⟩
    · show (step _ w).store.own.rewardCap = _
      generalize step _ w = w' at hdone ⊢
      cases hdone with
      | init | setTierConfig =>
        obtain ⟨u, w₁, hok⟩ := hreturns
        rw [configuredCap, value_of_ok hok]
        rfl
      | accrue w' maxTiers rewardCap rates hadmin hsigned hpos hmaxTiers hcap hrates heach =>
        exact (config_of_credited heach).2
      | setTreasury | setRegistry | setReferrer | register | claimNothing | claimRewards => rfl
    · rw [suiteStep, hstore]
      cases s with
      | outside => rfl
      | call env c =>
        cases c with
        | init admin =>
          rw [configuredCap, value_eq_none.mpr (hfails _ _ rfl)]
          rfl
        | setTierConfig caller tierBps maxTiers rewardCap =>
          rw [configuredCap, value_eq_none.mpr (hfails _ _ rfl)]
          rfl
        | _ => rfl

theorem configuredCap_nonneg {w : World (Linked Store X)} {s : SuiteStep me X} {cap : ℤ}
    (h : configuredCap w s = some cap) : 0 ≤ cap := by
  unfold configuredCap at h
  split at h
  · obtain ⟨-, -, rfl⟩ := Option.map_eq_some_iff.mp h
    exact le_rfl
  · obtain ⟨u, hvalue, rfl⟩ := Option.map_eq_some_iff.mp h
    have hdone := setTierConfig_done (value_eq_some.mp hvalue)
    generalize commit _ w = w' at hdone
    cases hdone with
    | setTierConfig events hadmin hsigned hvalid => exact hvalid.cap.1
  · cases h

/-! ## Runs -/

/-- The balances of a referrer after a run. -/
structure CommissionBook (referrer : Address) (x : X) (tokens : TokenLedger)
    (steps : List (SuiteStep me X)) : Prop where
  accrued_nonneg : 0 ≤ (suiteReached x tokens steps).store.own.readAccrued referrer
  conserved : (suiteReached x tokens steps).store.own.readLifetimeAccrued referrer =
    (suiteReached x tokens steps).store.own.readAccrued referrer +
      (claims referrer x tokens steps).sum
  never_falls : ∀ more, (suiteReached x tokens steps).store.own.readLifetimeAccrued referrer ≤
    (suiteReached x tokens (steps ++ more)).store.own.readLifetimeAccrued referrer
  /-- Before the first cap nothing is accrued; then some cap configured so far is not exceeded. -/
  capped :
    (caps x tokens steps = [] ∧
      (suiteReached x tokens steps).store.own.readLifetimeAccrued referrer = 0) ∨
    ∃ cap ∈ caps x tokens steps,
      (suiteReached x tokens steps).store.own.readLifetimeAccrued referrer ≤ cap
  /-- A claim for which the treasury that it finds does not pay leaves everything as it is. -/
  unpaid : ∀ (env : Env me) (callees : Callees X) (treasury : Address) (x' : X),
    callees.Finds (suiteReached x tokens steps).store.own (suiteReached x tokens steps).store.others
      treasury x' →
    (callees.distributeReward treasury referrer
      ((suiteReached x tokens steps).store.own.readAccrued referrer) x').1 ≠ .value () →
    exec env (.claimRewards callees referrer) (suiteReached x tokens steps) =
      suiteReached x tokens steps

theorem readAccrued_deployed (referrer : Address) (x : X) (tokens : TokenLedger) :
    (deployed x tokens).store.own.readAccrued referrer = 0 := rfl

theorem readLifetimeAccrued_deployed (referrer : Address) (x : X) (tokens : TokenLedger) :
    (deployed x tokens).store.own.readLifetimeAccrued referrer = 0 := rfl

theorem readAccrued_nonneg_step {referrer : Address} {w : World (Linked Store X)}
    (s : SuiteStep me X) (h : 0 ≤ w.store.own.readAccrued referrer) :
    0 ≤ (suiteStep s w).store.own.readAccrued referrer := by
  obtain ⟨gained, hbooked⟩ := booked_step referrer w s
  have hgained := hbooked.gained_nonneg
  rw [hbooked.accrued]
  rcases hbooked.paid_all with hpaid | hpaid <;> omega

/-- What was accrued and is no longer there was claimed. -/
theorem conserved_reached (referrer : Address) (x : X) (tokens : TokenLedger)
    (steps : List (SuiteStep me X)) :
    (suiteReached x tokens steps).store.own.readLifetimeAccrued referrer =
      (suiteReached x tokens steps).store.own.readAccrued referrer +
        (claims referrer x tokens steps).sum := by
  let outgone (w : World (Linked Store X)) : ℤ :=
    w.store.own.readLifetimeAccrued referrer - w.store.own.readAccrued referrer
  have hstep : ∀ (w : World (Linked Store X)) (s : SuiteStep me X),
      outgone (suiteStep s w) = outgone w + (claimed referrer w s).getD 0 := by
    intro w s
    obtain ⟨gained, hbooked⟩ := booked_step referrer w s
    show (suiteStep s w).store.own.readLifetimeAccrued referrer -
      (suiteStep s w).store.own.readAccrued referrer = _
    rw [hbooked.accrued, hbooked.lifetime]
    ring
  have hrun : _ - _ = _ - _ + (claims referrer x tokens steps).sum :=
    run_eq_add_sum outgone hstep (deployed x tokens) steps
  rw [readAccrued_deployed, readLifetimeAccrued_deployed, sub_self, zero_add] at hrun
  exact (sub_eq_iff_eq_add'.mp hrun)

theorem readLifetimeAccrued_le_run (referrer : Address) (w : World (Linked Store X))
    (steps : List (SuiteStep me X)) : w.store.own.readLifetimeAccrued referrer ≤
      (run suiteStep w steps).store.own.readLifetimeAccrued referrer := by
  refine run_related (P := fun _ => True)
    (R := fun v v' : World (Linked Store X) => v.store.own.readLifetimeAccrued referrer ≤
      v'.store.own.readLifetimeAccrued referrer) (fun _ => le_rfl) (fun _ _ _ => le_trans)
    (fun _ _ _ => trivial) ?_ trivial steps
  intro v s _
  obtain ⟨gained, hbooked⟩ := booked_step referrer v s
  rw [hbooked.lifetime]
  exact le_add_of_nonneg_right hbooked.gained_nonneg

/-- The stored cap is one of `caps`, and so is one that the lifetime balance does not exceed. -/
structure Within (referrer : Address) (caps : List ℤ) (w : World (Linked Store X)) : Prop where
  stored : ∀ cap, w.store.own.rewardCap = some cap → cap ∈ caps
  lifetime : w.store.own.readLifetimeAccrued referrer = 0 ∨
    ∃ cap ∈ caps, w.store.own.readLifetimeAccrued referrer ≤ cap

theorem Within.step {referrer : Address} {caps : List ℤ} {w : World (Linked Store X)}
    (h : Within referrer caps w) {s : SuiteStep me X}
    (hcaps : ∀ cap, configuredCap w s = some cap → cap ∈ caps) :
    Within referrer caps (suiteStep s w) := by
  constructor
  · intro cap hcap
    rw [rewardCap_step, Option.or_eq_some_iff] at hcap
    rcases hcap with hnew | ⟨-, hold⟩
    · exact hcaps cap hnew
    · exact h.stored cap hold
  · obtain ⟨gained, hbooked⟩ := booked_step referrer w s
    rcases hbooked.capped with hzero | ⟨cap, hcap, hle⟩
    · rw [hbooked.lifetime, hzero, add_zero]
      exact h.lifetime
    · exact .inr ⟨cap, h.stored cap hcap, hle⟩

theorem capped_reached (referrer : Address) (x : X) (tokens : TokenLedger)
    (steps : List (SuiteStep me X)) :
    (caps x tokens steps = [] ∧
      (suiteReached x tokens steps).store.own.readLifetimeAccrued referrer = 0) ∨
    ∃ cap ∈ caps x tokens steps,
      (suiteReached x tokens steps).store.own.readLifetimeAccrued referrer ≤ cap := by
  have hmem : ∀ y ∈ trace suiteStep (deployed x tokens) steps, ∀ cap,
      configuredCap y.1 y.2 = some cap → cap ∈ caps x tokens steps :=
    fun y hy cap hcap => List.mem_filterMap.mpr ⟨y, hy, hcap⟩
  have hstart : Within referrer (caps x tokens steps) (deployed x tokens) := by
    refine ⟨?_, .inl rfl⟩
    rintro cap ⟨⟩
  have hwithin := run_induct_of_trace (P := Within referrer (caps x tokens steps))
    (fun w s h hcaps => Within.step h hcaps) hstart hmem
  rcases hwithin.lifetime with hzero | hcap
  · cases hcaps : caps x tokens steps with
    | nil => exact .inl ⟨rfl, hzero⟩
    | cons cap rest =>
      have hcap : cap ∈ caps x tokens steps := by
        rw [hcaps]
        exact List.mem_cons_self
      obtain ⟨y, -, hy⟩ := List.mem_filterMap.mp hcap
      refine .inr ⟨cap, List.mem_cons_self, ?_⟩
      rw [suiteReached, hzero]
      exact configuredCap_nonneg hy
  · exact .inr hcap

/-- The treasury that a claim finds is determined. -/
theorem Callees.Finds.unique {callees : Callees X} {s : Store} {x x₁ x₂ : X} {a b : Address}
    (ha : callees.Finds s x a x₁) (hb : callees.Finds s x b x₂) : a = b ∧ x₁ = x₂ := by
  unfold Callees.Finds at ha hb
  cases hregistry : s.registry with
  | none =>
    rw [hregistry] at ha hb
    exact ⟨Option.some.inj (ha.1.symm.trans hb.1), ha.2.trans hb.2.symm⟩
  | some registry =>
    rw [hregistry] at ha hb
    refine ⟨?_, ha.1.trans hb.1.symm⟩
    have hfa := ha.2
    have hfb := hb.2
    cases hfound : (callees.getContract registry "treasury" x).1 with
    | value found =>
      rw [hfound] at hfa hfb
      exact hfa.trans hfb.symm
    | mistyped | error | failed =>
      rw [hfound] at hfa hfb
      exact Option.some.inj (hfa.symm.trans hfb)

theorem claim_unpaid {env : Env me} {callees : Callees X} {referrer treasury : Address} {x' : X}
    {w : World (Linked Store X)} (hfinds : callees.Finds w.store.own w.store.others treasury x')
    (hunpaid : (callees.distributeReward treasury referrer
      (w.store.own.readAccrued referrer) x').1 ≠ .value ()) :
    exec env (.claimRewards callees referrer) w = w := by
  rcases exec_cases env (.claimRewards callees referrer) w with hsame | hdone
  · exact hsame
  · generalize exec env (.claimRewards callees referrer) w = w' at hdone ⊢
    cases hdone with
    | claimNothing => rfl
    | claimRewards events found x₁ x₂ hsigned hne hfound hpaid =>
      obtain ⟨rfl, rfl⟩ := hfinds.unique hfound
      rw [hpaid] at hunpaid
      exact absurd rfl hunpaid

theorem commissionBook_reached (referrer : Address) (x : X) (tokens : TokenLedger)
    (steps : List (SuiteStep me X)) : CommissionBook referrer x tokens steps where
  accrued_nonneg :=
    run_induct (P := fun w : World (Linked Store X) => 0 ≤ w.store.own.readAccrued referrer)
    (fun _ s h => readAccrued_nonneg_step s h) (readAccrued_deployed referrer x tokens).ge steps
  conserved := conserved_reached referrer x tokens steps
  never_falls := by
    intro more
    rw [suiteReached, suiteReached, run_append]
    exact readLifetimeAccrued_le_run referrer _ more
  capped := capped_reached referrer x tokens steps
  unpaid := fun _ _ _ _ hfinds hunpaid => claim_unpaid hfinds hunpaid

/-! ## The treasury contract -/

section

variable {Y : Type}

/-- The callees of which the one at `treasury` is the treasury contract, called by the contract at
    `me`; the others do as `callees` says and leave it alone. -/
def Callees.withTreasury (callees : Callees Y) (env : Env me) (treasury : Address) :
    Callees (World Treasury.Store × Y) where
  getContract registry name x :=
    let result := callees.getContract registry name x.2
    (result.1, (x.1, result.2))
  distributeReward address recipient amount x :=
    if address = treasury then
      let result := asCallee (Treasury.distributeReward (env.invoke treasury) recipient amount) x.1
      (result.1, (result.2, x.2))
    else
      let result := callees.distributeReward address recipient amount x.2
      (result.1, (x.1, result.2))

/-- Looking for the treasury leaves the treasury contract alone. -/
theorem fst_of_finds {callees : Callees Y} {env : Env me} {treasury found : Address} {s : Store}
    {x x' : World Treasury.Store × Y} (h : (callees.withTreasury env treasury).Finds s x found x') :
    x'.1 = x.1 := by
  unfold Callees.Finds at h
  cases hregistry : s.registry with
  | none =>
    rw [hregistry] at h
    rw [h.2]
  | some registry =>
    rw [hregistry] at h
    rw [h.1]
    unfold leftBy
    split_ifs <;> rfl

/-- The treasury contract has paid when its `distribute_reward` has succeeded. -/
theorem withTreasury_paid {callees : Callees Y} {env : Env me} {treasury recipient : Address}
    {amount : ℤ} {x x' : World Treasury.Store × Y}
    (h : (callees.withTreasury env treasury).distributeReward treasury recipient amount x =
      (.value (), x')) :
    Treasury.distributeReward (env.invoke treasury) recipient amount x.1 = .ok () x'.1 := by
  dsimp only [Callees.withTreasury] at h
  rw [if_pos rfl] at h
  obtain ⟨hvalue, rfl⟩ := Prod.mk.inj h
  exact asCallee_value.mp (Prod.ext hvalue rfl)

/-- A payment by another treasury leaves the treasury contract alone. -/
theorem fst_of_elsewhere {callees : Callees Y} {env : Env me} {treasury found recipient : Address}
    {amount : ℤ} {x x' : World Treasury.Store × Y} {result : CallResult Error Unit}
    (hne : found ≠ treasury)
    (h : (callees.withTreasury env treasury).distributeReward found recipient amount x =
      (result, x')) : x'.1 = x.1 := by
  dsimp only [Callees.withTreasury] at h
  rw [if_neg hne] at h
  obtain ⟨-, rfl⟩ := Prod.mk.inj h
  rfl

/-- How the treasury contract pays the claims on the contract at `me` in the state `w`. -/
structure TreasuryPays (env : Env me) (callees : Callees Y) (treasury referrer : Address)
    (w : World (Linked Store (World Treasury.Store × Y))) : Prop where
  /-- A claim that finds this treasury takes from its rewards what it returns, and nothing else. -/
  paid : ∀ amount x',
    (claimRewards env (callees.withTreasury env treasury) referrer).value w = some amount →
    (callees.withTreasury env treasury).Finds w.store.own w.store.others treasury x' →
    ∀ category, ((claimRewards env (callees.withTreasury env treasury) referrer).commit
      w).store.others.1.store.categoryBalance category =
        w.store.others.1.store.categoryBalance category -
          if category = Treasury.rewardsCategory then amount else 0
  /-- A claim that finds another treasury does nothing to this one. -/
  elsewhere : ∀ found x', found ≠ treasury →
    (callees.withTreasury env treasury).Finds w.store.own w.store.others found x' →
    ((claimRewards env (callees.withTreasury env treasury) referrer).commit w).store.others.1 =
      w.store.others.1
  /-- A claim that does not return does nothing at all. -/
  refused : ¬ (claimRewards env (callees.withTreasury env treasury) referrer).Succeeds w →
    (claimRewards env (callees.withTreasury env treasury) referrer).commit w = w
  /-- While the treasury pays this contract, nobody else makes it distribute a reward. -/
  direct : w.store.others.1.store.referralContract = some me → ∀ (env' : Env treasury),
    env'.signed me = false → ∀ recipient amount,
      ¬ (Treasury.distributeReward env' recipient amount).Succeeds w.store.others.1

theorem treasuryPays (env : Env me) (callees : Callees Y) (treasury referrer : Address)
    (w : World (Linked Store (World Treasury.Store × Y))) :
    TreasuryPays env callees treasury referrer w where
  paid := by
    intro amount x' hvalue hfinds category
    have hok := value_eq_some.mp hvalue
    have hamount := claimRewards_paid hok
    have hdone := claimRewards_done hok
    generalize commit _ w = w' at hdone ⊢
    cases hdone with
    | claimNothing hsigned hzero =>
      rw [hamount, hzero, ite_self, sub_zero]
    | claimRewards events found x₁ x₂ hsigned hne hfound hpaid =>
      obtain ⟨rfl, rfl⟩ := hfinds.unique hfound
      show x₂.1.store.categoryBalance category = _
      rw [Treasury.categoryBalance_distributeReward (withTreasury_paid hpaid), hamount,
        fst_of_finds hfound]
  elsewhere := by
    intro found x' hne hfinds
    rcases exec_cases env (.claimRewards (callees.withTreasury env treasury) referrer) w with
      hsame | hdone
    · exact congrArg (fun v => v.store.others.1) hsame
    · show (exec env (.claimRewards (callees.withTreasury env treasury) referrer)
        w).store.others.1 = _
      generalize exec env _ w = w' at hdone ⊢
      cases hdone with
      | claimNothing => rfl
      | claimRewards events found' x₁ x₂ hsigned hpos hfound hpaid =>
        obtain ⟨rfl, rfl⟩ := hfinds.unique hfound
        show x₂.1 = _
        rw [fst_of_elsewhere hne hpaid, fst_of_finds hfound]
  refused := commit_of_fails
  direct := by
    intro hreferral env' hunsigned recipient amount hsucceeds
    obtain ⟨u, v, hok⟩ := hsucceeds
    cases Treasury.distributeReward_done hok with
    | distributeReward referral hpos hbalance hregistered hsigned =>
      obtain rfl := Option.some.inj (hreferral.symm.trans hregistered)
      rw [hunsigned] at hsigned
      cases hsigned

end

/-- The commissions of every referrer are conserved in every run of the contract and those it calls,
    and the treasury contract pays exactly what the claims return. -/
theorem commissions_conserved (tokens : TokenLedger) (referrer : Address) :
    (∀ (X : Type) (x : X) (steps : List (SuiteStep me X)), CommissionBook referrer x tokens steps) ∧
    ∀ (Y : Type) (x : World Treasury.Store × Y)
      (steps : List (SuiteStep me (World Treasury.Store × Y))) (env : Env me) (callees : Callees Y)
      (treasury : Address),
      TreasuryPays env callees treasury referrer (suiteReached x tokens steps) :=
  ⟨fun _ x steps => commissionBook_reached referrer x tokens steps,
    fun _ _ _ env callees treasury => treasuryPays env callees treasury referrer _⟩

/-- A treasury with 1000 in its rewards that pays the contract at `⟨0⟩`. -/
def fundedTreasury : World Treasury.Store :=
  World.deployed ⟨(∅ : Table Symbol ℤ).insert Treasury.rewardsCategory 1000, some 500, some ⟨0⟩⟩
    (.ofList [])

/-- No contract answers. -/
def noCallees : Callees Unit where
  getContract _ _ x := (.failed, x)
  distributeReward _ _ _ x := (.failed, x)

/-- `⟨11⟩` earns 100 by an accrual of 1000 for `⟨12⟩`. -/
def earningRun : List (SuiteStep ⟨0⟩ (World Treasury.Store × Unit)) :=
  [.referral (.call (.signedBy ⟨0⟩ 1 1 [⟨1⟩]) (.init ⟨1⟩)),
    .referral (.call (.signedBy ⟨0⟩ 2 2 [⟨1⟩]) (.setTierConfig ⟨1⟩ [1000] 1 10000)),
    .referral (.call (.signedBy ⟨0⟩ 3 3 [⟨1⟩]) (.setTreasury ⟨1⟩ ⟨7⟩)),
    .referral (.call (.signedBy ⟨0⟩ 4 4 [⟨1⟩]) (.setReferrer ⟨1⟩ ⟨12⟩ ⟨11⟩)),
    .referral (.call (.signedBy ⟨0⟩ 5 5 [⟨1⟩]) (.accrue ⟨1⟩ ⟨12⟩ 1000))]

/-- It claims them from the treasury contract, which had 1000 to pay. -/
example : ((claimRewards (.signedBy ⟨0⟩ 6 6 [⟨11⟩])
      (noCallees.withTreasury (.signedBy ⟨0⟩ 6 6 [⟨11⟩]) ⟨7⟩) ⟨11⟩).value
        (suiteReached (fundedTreasury, ()) (.ofList []) earningRun) = some 100) ∧
    ((claimRewards (.signedBy ⟨0⟩ 6 6 [⟨11⟩])
      (noCallees.withTreasury (.signedBy ⟨0⟩ 6 6 [⟨11⟩]) ⟨7⟩) ⟨11⟩).commit
        (suiteReached (fundedTreasury, ()) (.ofList []) earningRun)
          ).store.others.1.store.categoryBalance Treasury.rewardsCategory = 900 := by
  decide

end Trellis.Referral
