import Trellis.Lib.Pool
import Trellis.Suite.Rewards

/-!
# Claims on the rewards

A claim needs the treasury to know the referral contract, the referral contract to find the
treasury, and the rewards to cover what is due. Once the contracts are connected only the last of
these can fail.

Results:
* `Referral.claimRewards_succeeds`: when a claim goes through, whatever the contracts are that it
  calls.
* `claim_pool`: the claims are payments from one pool.
* `claims_all_paid_iff`: claims of any referrers in any order all go through exactly when the
  rewards cover what is due to them.
-/

namespace Trellis

open Exec

/-! ## When a claim goes through -/

namespace Referral

variable {me : Address} {X : Type}

theorem readTreasury_of_finds {callees : Callees X} {w : World (Linked Store X)}
    {treasury : Address} {x : X} (h : callees.Finds w.store.own w.store.others treasury x) :
    readTreasury callees w = .ok treasury { w with store := { w.store with others := x } } := by
  unfold Callees.Finds at h
  simp only [readTreasury, bind_ok, readOwn_ok]
  refine ⟨w.store.own.registry, w, ⟨rfl, rfl⟩, ?_⟩
  cases hregistry : w.store.own.registry with
  | none =>
    rw [hregistry] at h
    obtain ⟨htreasury, rfl⟩ := h
    exact configuredTreasury_ok.mpr ⟨htreasury, rfl⟩
  | some registry =>
    rw [hregistry] at h
    obtain ⟨rfl, hfound⟩ := h
    simp only [bind_ok, tryInvoke_ok]
    refine ⟨_, _, ⟨rfl, rfl⟩, ?_⟩
    cases hanswer : (callees.getContract registry "treasury" w.store.others).1 with
    | value found =>
      rw [hanswer] at hfound
      exact pure_ok.mpr ⟨hfound, rfl⟩
    | mistyped | error | failed =>
      rw [hanswer] at hfound
      exact configuredTreasury_ok.mpr ⟨hfound, rfl⟩

/-- A claim goes through when nothing is due, or the treasury that it finds pays. -/
theorem claimRewards_succeeds {env : Env me} {callees : Callees X} {referrer : Address}
    {w : World (Linked Store X)} : (claimRewards env callees referrer).Succeeds w ↔
      env.signed referrer = true ∧ (w.store.own.readAccrued referrer = 0 ∨ ∃ treasury x x',
        callees.Finds w.store.own w.store.others treasury x ∧
        callees.distributeReward treasury referrer (w.store.own.readAccrued referrer) x =
          (.value (), x')) := by
  constructor
  · rintro ⟨amount, w', hok⟩
    cases claimRewards_done hok with
    | claimNothing hsigned hzero => exact ⟨hsigned, .inl hzero⟩
    | claimRewards events treasury x₁ x₂ hsigned hne hfinds hpaid =>
      exact ⟨hsigned, .inr ⟨treasury, x₁, x₂, hfinds, hpaid⟩⟩
  · rintro ⟨hsigned, hdue⟩
    simp only [Succeeds, claimRewards, bind_ok, requireAuth_ok, readOwn_ok, ite_ok, pure_ok]
    by_cases hzero : w.store.own.readAccrued referrer = 0
    · exact ⟨0, w, (), w, ⟨hsigned, rfl⟩, _, w, ⟨rfl, rfl⟩, .inl ⟨hzero, rfl, rfl⟩⟩
    · obtain ⟨treasury, x, x', hfinds, hpaid⟩ := hdue.resolve_left hzero
      have hpay :
        callTreasuryDistributeReward callees treasury referrer (w.store.own.readAccrued referrer)
          { w with store := { w.store with others := x } } =
            .ok () { w with store := { w.store with others := x' } } := by
        simp only [callTreasuryDistributeReward, bind_ok, tryInvoke_ok]
        refine ⟨_, _, ⟨rfl, rfl⟩, ?_⟩
        have hleft :
            leftBy (callees.distributeReward treasury referrer (w.store.own.readAccrued referrer))
              x = x' := by
          unfold leftBy
          rw [hpaid]
          rfl
        rw [hpaid, hleft]
        exact pure_ok.mpr ⟨rfl, rfl⟩
      exact ⟨_, _, (), w, ⟨hsigned, rfl⟩, _, w, ⟨rfl, rfl⟩,
        .inr ⟨hzero, treasury, _, readTreasury_of_finds hfinds, (), _, hpay, (), _,
          writeOwn_ok.mpr rfl, (), _, publish_ok.mpr rfl, (), _, publish_ok.mpr rfl, rfl, rfl⟩⟩

end Referral

theorem Treasury.distributeReward_succeeds {me : Address} {env : Env me} {recipient : Address}
    {amount : ℤ} {w : World Treasury.Store} :
    (Treasury.distributeReward env recipient amount).Succeeds w ↔
      0 < amount ∧ amount ≤ w.store.categoryBalance Treasury.rewardsCategory ∧
        ∃ referral, w.store.referralContract = some referral ∧ env.signed referral = true := by
  constructor
  · rintro ⟨u, w', hok⟩
    cases Treasury.distributeReward_done hok with
    | distributeReward referral hpos hbalance hreferral hsigned =>
      exact ⟨hpos, hbalance, referral, hreferral, hsigned⟩
  · rintro ⟨hpos, hbalance, referral, hreferral, hsigned⟩
    simp [Succeeds, Treasury.distributeReward, hpos, hbalance, hreferral, hsigned]

namespace Rewards

variable {site : Site}

/-! ## The pool -/

/-- The rewards of the treasury. -/
abbrev rewardsOf (w : State) : ℤ := (treasuryOf w).store.categoryBalance Treasury.rewardsCategory

/-- Where a claim looks for the treasury: under the entry of the registry if there are both,
    otherwise at the configured address. -/
def foundTreasury (w : State) : Option Address :=
  (w.store.own.registry.bind fun _ =>
    ((registryOf w).store.contracts.lookup "treasury").map fun entry => entry.address).or
      w.store.own.treasury

/-- The treasury pays the referral contract, and the referral contract looks for it in no other
    registry and finds it. -/
structure Connected (site : Site) (w : State) : Prop where
  referral : (treasuryOf w).store.referralContract = some site.referral
  registry : ∀ r, w.store.own.registry = some r → r = site.registry
  found : foundTreasury w = some site.treasury

theorem Connected.finds_here {w : State} (h : Connected site w) (env : TxEnv site)
    (others : Referral.Callees Unit) :
    (callees env others).Finds w.store.own w.store.others site.treasury w.store.others := by
  have hfound := h.found
  unfold foundTreasury at hfound
  unfold Referral.Callees.Finds
  cases hregistry : w.store.own.registry with
  | none =>
    rw [hregistry, Option.bind_none, Option.none_or] at hfound
    exact ⟨hfound, rfl⟩
  | some r =>
    obtain rfl := h.registry r hregistry
    rw [hregistry, Option.bind_some] at hfound
    unfold leftBy
    simp only [getContract_callees, ite_self, true_and]
    cases hentry : w.store.others.2.store.contracts.lookup "treasury" with
    | none =>
      rw [registryOf, hentry, Option.map_none, Option.none_or] at hfound
      exact hfound
    | some entry =>
      rw [registryOf, hentry, Option.map_some, Option.some_or] at hfound
      exact (Option.some.inj hfound).symm

theorem Connected.finds {w : State} (h : Connected site w) : FindsTreasury site w :=
  fun env others _ _ hfinds => hfinds.unique (h.finds_here env others)

/-- The treasury answers a claim as its `distribute_reward` does. -/
theorem distributeReward_callees {env : TxEnv site} {others : Referral.Callees Unit}
    {recipient : Address} {amount : ℤ} {x : World Treasury.Store × World Registry.Store}
    {v : World Treasury.Store}
    (h : Treasury.distributeReward (env.referral.invoke site.treasury) recipient amount x.1 =
      .ok () v) :
    (callees env others).distributeReward site.treasury recipient amount x =
      (.value (), (v, x.2)) := by
  dsimp only [callees, Referral.Callees.withTreasury]
  rw [if_pos rfl, asCallee_value.mpr h]

/-- The call goes through, if it is a claim. -/
def Honoured (w : State) : Act site → Prop
  | .referral env (.claimRewards others referrer) =>
    (Referral.claimRewards env.referral (callees env others) referrer).Succeeds w
  | _ => True

/-- A claim in a transaction, with the answers of the contracts that are none of the three. -/
structure Claim (site : Site) where
  env : TxEnv site
  others : Referral.Callees Unit
  referrer : Address

/-- The call of a claim. -/
def Claim.act (c : Claim site) : Act site := .referral c.env (.claimRewards c.others c.referrer)

/-- A claim goes through exactly when the rewards cover what is due. -/
theorem honoured_iff {w : State} (h : Connected site w) (hkept : Kept w) {c : Claim site}
    (hsigned : c.env.signed c.referrer = true) :
    Honoured w c.act ↔ w.store.own.readAccrued c.referrer ≤ rewardsOf w := by
  show (Referral.claimRewards c.env.referral (callees c.env c.others) c.referrer).Succeeds w ↔ _
  rw [Referral.claimRewards_succeeds]
  constructor
  · rintro ⟨-, hzero | ⟨found, x, x', hfinds, hpaid⟩⟩
    · rw [hzero]
      exact hkept.recorded.nonneg _
    · obtain ⟨rfl, rfl⟩ := h.finds _ _ _ _ hfinds
      exact (Treasury.distributeReward_succeeds.mp ⟨_, _, (paid_callees hpaid).1⟩).2.1
  · intro hle
    refine ⟨hsigned, ?_⟩
    rcases (hkept.accrued c.referrer).eq_or_lt' with hzero | hpos
    · exact .inl hzero
    · have hauth : (c.env.referral.invoke site.treasury).signed site.referral = true := by
        simp [Env.invoke, site.referral_ne_treasury]
      obtain ⟨u, v, hok⟩ :=
        Treasury.distributeReward_succeeds.mpr ⟨hpos, hle, site.referral, h.referral, hauth⟩
      exact .inr ⟨_, _, _, h.finds_here c.env c.others, distributeReward_callees hok⟩

theorem own_of_honoured {w : State} {c : Claim site} (hok : Honoured w c.act) :
    (∀ r, (step c.act w).store.own.readAccrued r =
      if r = c.referrer then 0 else w.store.own.readAccrued r) ∧
    (step c.act w).store.own.treasury = w.store.own.treasury ∧
    (step c.act w).store.own.registry = w.store.own.registry := by
  have hdone : Referral.Done c.env.referral w (.claimRewards (callees c.env c.others) c.referrer)
      (step c.act w) := Exec.commit_of_succeeds (fun _ _ => Referral.claimRewards_done) hok
  generalize step c.act w = w' at hdone ⊢
  cases hdone with
  | claimNothing hsigned hzero =>
    refine ⟨fun r => ?_, rfl, rfl⟩
    split_ifs with hr
    · rw [hr, hzero]
    · rfl
  | claimRewards =>
    refine ⟨fun r => ?_, rfl, rfl⟩
    show ((w.store.own.accrued.insert c.referrer 0).lookup r).getD 0 = _
    rw [Table.lookup_set]
    split_ifs <;> rfl

/-- What a claim that goes through does to the two others. -/
theorem Connected.others_of_honoured {w : State} (h : Connected site w) {c : Claim site}
    (hok : Honoured w c.act) :
    rewardsOf (Rewards.step c.act w) = rewardsOf w - w.store.own.readAccrued c.referrer ∧
    (treasuryOf (Rewards.step c.act w)).store.referralContract =
      (treasuryOf w).store.referralContract ∧
    registryOf (Rewards.step c.act w) = registryOf w := by
  have hpaid : paidClaim w c.act = _ := paidClaim_of_succeeds hok
  rcases referral_cases h.finds c.env (.claimRewards c.others c.referrer) with
    ⟨hothers, hnone⟩ | ⟨r, hsome, hdistributed, hregistry⟩
  · have hzero : w.store.own.readAccrued c.referrer = 0 := by
      by_contra hne
      rw [if_neg hne] at hpaid
      exact Option.some_ne_none _ (hpaid.symm.trans hnone)
    have hsame : (Rewards.step c.act w).store.others = w.store.others := hothers
    rw [hzero, sub_zero, rewardsOf, treasuryOf, registryOf, hsame]
    exact ⟨rfl, rfl, rfl⟩
  · have hclaimant : r = c.referrer := by
      have heq := hpaid.symm.trans hsome
      split_ifs at heq
      exact (congrArg Prod.fst (Option.some.inj heq)).symm
    subst hclaimant
    have hbalance := Treasury.categoryBalance_distributeReward hdistributed Treasury.rewardsCategory
    rw [if_pos rfl] at hbalance
    exact ⟨hbalance, referralContract_distributeReward hdistributed, hregistry⟩

theorem Connected.honoured {w : State} (h : Connected site w) {c : Claim site}
    (hok : Honoured w c.act) : Connected site (step c.act w) := by
  obtain ⟨-, htreasury, hregistry⟩ := own_of_honoured hok
  obtain ⟨-, hreferral, hnames⟩ := h.others_of_honoured hok
  refine ⟨hreferral.trans h.referral, hregistry ▸ h.registry, ?_⟩
  rw [foundTreasury, htreasury, hregistry, hnames]
  exact h.found

/-- The claims are payments from the rewards of the treasury. -/
theorem claim_pool : Pool step (fun w : State => Kept w ∧ Connected site w)
    (fun w r => w.store.own.readAccrued r) rewardsOf Honoured Claim.act Claim.referrer
    (fun c : Claim site => c.env.signed c.referrer = true) where
  nonneg h := h.1.accrued
  covered h := h.1.recorded.nonneg _
  ok_iff h hsigned := honoured_iff h.2 h.1 hsigned
  keeps h hok := ⟨kept_step h.1 _, h.2.honoured hok⟩
  due_step _ hok := (own_of_honoured hok).1
  pool_step h hok := (h.2.others_of_honoured hok).1

/-- In a state that the three contracts reach from deployment on, in which they are connected: a
    list of claims of any referrers, in any order, all go through if and only if the rewards cover
    what is due to these referrers in all; and then nothing is due to them any more, the others have
    what they had, and the rewards have paid just what was due. -/
theorem claims_all_paid_iff (site : Site) (tokens : TokenLedger) (acts : List (Act site))
    {w : State} (hw : run step (deployed tokens) acts = w) (hconnected : Connected site w)
    (claims : List (Claim site))
    (hsigned : ∀ c ∈ claims, c.env.signed c.referrer = true) :
    ((∀ x ∈ trace step w (claims.map Claim.act), Honoured x.1 x.2) ↔
      ∑ r ∈ (claims.map Claim.referrer).toFinset, w.store.own.readAccrued r ≤ rewardsOf w) ∧
    ((∀ x ∈ trace step w (claims.map Claim.act), Honoured x.1 x.2) →
      (∀ r, (run step w (claims.map Claim.act)).store.own.readAccrued r =
        if r ∈ claims.map Claim.referrer then 0 else w.store.own.readAccrued r) ∧
      rewardsOf (run step w (claims.map Claim.act)) =
        rewardsOf w - ∑ r ∈ (claims.map Claim.referrer).toFinset, w.store.own.readAccrued r) := by
  have hkept : Kept w := hw ▸ kept_run tokens acts
  exact ⟨claim_pool.all_ok_iff hsigned ⟨hkept, hconnected⟩,
    fun hall => (claim_pool.run ⟨hkept, hconnected⟩ hall).2⟩

/-- The admin has the registry name another treasury, and then the first one again. -/
def rewiredActs : List (Act sampleSite) :=
  earningActs ++
    [.registry (.signedBy _ 12 ⟨1⟩) (.setContract ⟨1⟩ "treasury" ⟨6⟩ 2),
      .registry (.signedBy _ 13 ⟨1⟩) (.setContract ⟨1⟩ "treasury" ⟨7⟩ 3)]

/-- `⟨10⟩`, `⟨11⟩` and again `⟨10⟩` claim. -/
def sampleClaims : List (Claim sampleSite) :=
  [⟨.signedBy _ 14 ⟨10⟩, noOthers, ⟨10⟩⟩, ⟨.signedBy _ 15 ⟨11⟩, noOthers, ⟨11⟩⟩,
    ⟨.signedBy _ 16 ⟨10⟩, noOthers, ⟨10⟩⟩]

/-- The 1000 in the rewards cover their claims. -/
theorem claims_all_paid_iff_sampled :
    (∀ x ∈ trace step (run step (deployed (.ofList [])) rewiredActs) (sampleClaims.map Claim.act),
      Honoured x.1 x.2) ∧
    rewardsOf (run step (run step (deployed (.ofList [])) rewiredActs)
      (sampleClaims.map Claim.act)) = 850 := by
  have hconnected : Connected sampleSite (run step (deployed (.ofList [])) rewiredActs) := by
    refine ⟨by decide, fun r hr => ?_, by decide⟩
    exact Option.some.inj (hr.symm.trans rfl)
  have hsigned : ∀ c ∈ sampleClaims, c.env.signed c.referrer = true := by decide
  obtain ⟨hiff, hafter⟩ :=
    claims_all_paid_iff sampleSite (.ofList []) rewiredActs rfl hconnected sampleClaims hsigned
  have hall := hiff.mpr (by decide)
  exact ⟨hall, (hafter hall).2.trans (by decide)⟩

end Rewards

end Trellis
