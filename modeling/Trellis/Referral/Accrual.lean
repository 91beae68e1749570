import Trellis.Referral.Graph

/-!
# The accrual

`accrue` walks up the graph for as many tiers as are configured and credits each referrer with its
share of the base amount, cut by what the lifetime cap leaves. The cap can have been lowered below
what a referrer has had, and the table of rates keeps those of tiers that are no longer configured.

Results:
* `creditReferrer_returns`, `accrueLoop_returns`: from balances within the largest cap nothing
  overflows, and the total is the sum of the shares.
* `shares_le`: the shares do not exceed the base amount.
* `balanced_step`, `configured_step`: what a step keeps of the balances and of the configuration.
* `accrue_spec`: what an accrual of the admin does in every reachable state.
-/

namespace Trellis.Referral

open Exec

variable {me : Address} {X : Type}

/-! ## Shares -/

/-- What an accrual brings to a referrer of a tier with this rate. -/
def Store.share (s : Store) (baseAmount rewardCap : ℤ) (x : Address × ℤ) : ℤ :=
  min (baseAmount * x.2 / Math.bpsDenominator) (max 0 (rewardCap - s.readLifetimeAccrued x.1))

theorem credited_eq (s : Store) (rewardCap : ℤ) (referrer : Address) {commission : ℤ}
    (h : 0 ≤ commission) : s.credited rewardCap referrer commission =
      min commission (max 0 (rewardCap - s.readLifetimeAccrued referrer)) := by
  unfold Store.credited
  split_ifs with hnone
  · omega
  · omega

/-- The balances of every referrer are within the largest cap. -/
def Balanced (s : Store) : Prop :=
  ∀ a, 0 ≤ s.readAccrued a ∧ s.readAccrued a ≤ s.readLifetimeAccrued a ∧
    s.readLifetimeAccrued a ≤ maxRewardCap

theorem Balanced.credit {s : Store} (h : Balanced s) {rewardCap : ℤ}
    (hcap : rewardCap ≤ maxRewardCap) (referrer : Address) (commission : ℤ) :
    Balanced (s.credit rewardCap referrer commission) := by
  intro a
  rw [readAccrued_credit, readLifetimeAccrued_credit]
  have hold := h a
  obtain ⟨hnonneg, hbound⟩ := credited_bounds s rewardCap referrer commission
  split_ifs with ha
  · subst ha
    omega
  · omega

/-! ## The loop -/

/-- Crediting a referrer whose balances are within the largest cap does not overflow. -/
theorem creditReferrer_succeeds (referredWallet referrer : Address) (tier : ℕ)
    {commission rewardCap : ℤ} (hpos : 0 < commission) (hcap : rewardCap ≤ maxRewardCap)
    {w : World (Linked Store X)} (h : Balanced w.store.own) :
    (creditReferrer referredWallet referrer tier commission rewardCap).Succeeds w := by
  obtain ⟨hnonneg, hle, hmax⟩ := h referrer
  by_cases hfull : w.store.own.readLifetimeAccrued referrer ≥ rewardCap
  · refine ⟨0, w, ?_⟩
    simp [creditReferrer, hfull]
  · have hfits : ∀ y, 0 ≤ y → y ≤ maxRewardCap → InI128 y := by
      intro y hy hy'
      unfold InI128
      unfold maxRewardCap at hy'
      omega
    have hremaining : Math.safeSub rewardCap (w.store.own.readLifetimeAccrued referrer) =
        some (rewardCap - w.store.own.readLifetimeAccrued referrer) :=
      checkedSub_eq_some.mpr ⟨hfits _ (by omega) (by omega), rfl⟩
    obtain ⟨credited, hcredited, hne, haccrued, hlifetime⟩ : ∃ credited,
        credited = (if commission > rewardCap - w.store.own.readLifetimeAccrued referrer then
          rewardCap - w.store.own.readLifetimeAccrued referrer else commission) ∧ credited ≠ 0 ∧
        Math.safeAdd (w.store.own.readAccrued referrer) credited =
          some (w.store.own.readAccrued referrer + credited) ∧
        Math.safeAdd (w.store.own.readLifetimeAccrued referrer) credited =
          some (w.store.own.readLifetimeAccrued referrer + credited) := by
      refine ⟨_, rfl, ?_, ?_, ?_⟩
      · split_ifs <;> omega
      · refine checkedAdd_eq_some.mpr ⟨hfits _ ?_ ?_, rfl⟩ <;> split_ifs <;> omega
      · refine checkedAdd_eq_some.mpr ⟨hfits _ ?_ ?_, rfl⟩ <;> split_ifs <;> omega
    refine ⟨credited, ?_⟩
    simp [creditReferrer, not_le.mp hfull, hremaining, ← hcredited, hne, haccrued, hlifetime, emit]

theorem creditReferrer_returns (referredWallet referrer : Address) (tier : ℕ)
    {commission rewardCap : ℤ} (hpos : 0 < commission) (hcap : rewardCap ≤ maxRewardCap)
    {w : World (Linked Store X)} (h : Balanced w.store.own) : ∃ events,
    creditReferrer referredWallet referrer tier commission rewardCap w =
      .ok (w.store.own.credited rewardCap referrer commission) { w with
        store := { w.store with own := w.store.own.credit rewardCap referrer commission }
        events := events } := by
  obtain ⟨credited, w', hok⟩ := creditReferrer_succeeds referredWallet referrer tier hpos hcap h
  obtain ⟨rfl, events, rfl⟩ := creditReferrer_ok hpos hok
  exact ⟨events, hok⟩

/-- The commissions of the tiers with these rates. -/
def commissions (baseAmount : ℤ) (rates : List ℤ) : List ℤ :=
  rates.map fun bps => baseAmount * bps / Math.bpsDenominator

/-- The shares of the referrers above the wallet. -/
def Store.shares (s : Store) (baseAmount rewardCap : ℤ) (rates : List ℤ) (wallet : Address) :
    List ℤ :=
  (s.tiersUp rates wallet).map (s.share baseAmount rewardCap)

/-- Rates in bounds, and a base amount to which they can be applied. -/
structure Payable (baseAmount rewardCap : ℤ) (rates : List ℤ) : Prop where
  pos : 0 < baseAmount
  fits : InI128 baseAmount
  cap : rewardCap ≤ maxRewardCap
  bounds : ∀ bps ∈ rates, 0 ≤ bps ∧ bps ≤ Math.bpsDenominator

theorem Payable.commission_nonneg {baseAmount rewardCap : ℤ} {rates : List ℤ}
    (h : Payable baseAmount rewardCap rates) {bps : ℤ} (hbps : bps ∈ rates) :
    0 ≤ baseAmount * bps / Math.bpsDenominator :=
  Int.ediv_nonneg (mul_nonneg h.pos.le (h.bounds bps hbps).1) (by decide)

theorem share_nonneg {s : Store} {baseAmount rewardCap : ℤ} {rates : List ℤ}
    (h : Payable baseAmount rewardCap rates) {x : Address × ℤ} (hx : x.2 ∈ rates) :
    0 ≤ s.share baseAmount rewardCap x :=
  le_min (h.commission_nonneg hx) (le_max_left _ _)

theorem shares_credit {s : Store} {baseAmount rewardCap : ℤ} {referrer : Address} {commission : ℤ}
    {rates : List ℤ} {wallet : Address}
    (hother : referrer ∉ (s.tiersUp rates wallet).map Prod.fst) :
    (s.credit rewardCap referrer commission).shares baseAmount rewardCap rates wallet =
      s.shares baseAmount rewardCap rates wallet := by
  unfold Store.shares
  rw [tiersUp_credit]
  refine List.map_congr_left ?_
  intro x hx
  have hne : x.1 ≠ referrer := by
    rintro rfl
    exact hother (List.mem_map_of_mem hx)
  unfold Store.share
  rw [readLifetimeAccrued_credit, if_neg hne, add_zero]

theorem mem_of_mem_tiersUp {s : Store} {rates : List ℤ} {wallet : Address} {x : Address × ℤ}
    (hx : x ∈ s.tiersUp rates wallet) : x.2 ∈ rates := by
  induction rates generalizing wallet with
  | nil => cases hx
  | cons bps rest ih =>
    rw [Store.tiersUp] at hx
    cases hreferrer : s.readReferrer wallet with
    | none =>
      rw [hreferrer] at hx
      cases hx
    | some referrer =>
      rw [hreferrer] at hx
      rcases List.mem_cons.mp hx with rfl | hx
      · exact List.mem_cons_self
      · exact List.mem_cons_of_mem _ (ih hx)

theorem sum_commissions_nonneg {baseAmount rewardCap : ℤ} {rates picked : List ℤ}
    (h : Payable baseAmount rewardCap rates) (hpicked : ∀ bps, bps ∈ picked → bps ∈ rates) :
    0 ≤ (commissions baseAmount picked).sum := by
  refine List.sum_nonneg ?_
  intro commission hcommission
  obtain ⟨bps, hbps, rfl⟩ := List.mem_map.mp hcommission
  exact h.commission_nonneg (hpicked bps hbps)

/-- The shares are no more than the commissions. -/
theorem sum_shares_le {s : Store} {baseAmount rewardCap : ℤ} {rates : List ℤ}
    (h : ∀ bps ∈ rates, 0 ≤ baseAmount * bps / Math.bpsDenominator) (wallet : Address) :
    (s.shares baseAmount rewardCap rates wallet).sum ≤ (commissions baseAmount rates).sum := by
  induction rates generalizing wallet with
  | nil => exact le_rfl
  | cons bps rest ih =>
    obtain ⟨hfirst, hrest⟩ := List.forall_mem_cons.mp h
    have hcommissions : 0 ≤ (commissions baseAmount rest).sum := by
      refine List.sum_nonneg ?_
      intro c hc
      obtain ⟨bps', hbps', rfl⟩ := List.mem_map.mp hc
      exact hrest bps' hbps'
    unfold commissions at *
    rw [Store.shares, Store.tiersUp, List.map_cons, List.sum_cons]
    cases s.readReferrer wallet with
    | none =>
      rw [List.map_nil, List.sum_nil]
      omega
    | some referrer =>
      have hshare : s.share baseAmount rewardCap (referrer, bps) ≤
          baseAmount * bps / Math.bpsDenominator := min_le_left _ _
      have hnext := ih hrest referrer
      dsimp only
      rw [List.map_cons, List.sum_cons]
      exact add_le_add hshare hnext

/-- Rounded down one by one, the commissions do not exceed the base amount. -/
theorem sum_commissions_le {baseAmount : ℤ} (hpos : 0 < baseAmount) {rates : List ℤ}
    (hsum : rates.sum ≤ Math.bpsDenominator) : (commissions baseAmount rates).sum ≤ baseAmount := by
  have hexact : (commissions baseAmount rates).sum * Math.bpsDenominator ≤
      baseAmount * rates.sum := by
    clear hsum
    induction rates with
    | nil => simp [commissions]
    | cons bps rest ih =>
      have hfloor : baseAmount * bps / Math.bpsDenominator * Math.bpsDenominator ≤
          baseAmount * bps :=
        Int.ediv_mul_le _ (by decide)
      unfold commissions at *
      rw [List.map_cons, List.sum_cons, List.sum_cons, add_mul, mul_add]
      exact add_le_add hfloor ih
  have hall : baseAmount * rates.sum ≤ baseAmount * Math.bpsDenominator :=
    mul_le_mul_of_nonneg_left hsum hpos.le
  exact le_of_mul_le_mul_right (hexact.trans hall) (by decide)

section

variable {rates : List ℤ} {referredWallet : Address} {baseAmount rewardCap : ℤ} {remaining tier : ℕ}
  {current referrer : Address} {bps commission credited total total' : ℤ}
  {w w₁ w' : World (Linked Store X)}

/-- A tier with a commission: the loop goes on at the referrer after crediting it. -/
theorem accrueLoop_credit (hedge : w.store.own.readReferrer current = some referrer)
    (hget : rates[tier - 1]? = some bps) (hcommission : Math.bpsOf baseAmount bps = some commission)
    (hpos : 0 < commission)
    (hcredit : creditReferrer referredWallet referrer tier commission rewardCap w = .ok credited w₁)
    (hadd : Math.safeAdd total credited = some (total + credited))
    (hnext : accrueLoop rates referredWallet baseAmount rewardCap remaining (tier + 1) referrer
      (total + credited) w₁ = .ok total' w') :
    accrueLoop rates referredWallet baseAmount rewardCap (remaining + 1) tier current total w =
      .ok total' w' := by
  simp only [accrueLoop, bind_ok, readOwn_ok]
  refine ⟨some referrer, w, ⟨hedge.symm, rfl⟩, ?_⟩
  simp only [bind_ok, okOr_ok, ite_ok, pure_ok]
  exact ⟨bps, w, ⟨hget, rfl⟩, commission, w, ⟨hcommission, rfl⟩, .inl ⟨hpos, credited, w₁, hcredit,
    total + credited, w₁, ⟨hadd, rfl⟩, hnext⟩⟩

/-- A tier without a commission: the loop goes on at the referrer. -/
theorem accrueLoop_skip (hedge : w.store.own.readReferrer current = some referrer)
    (hget : rates[tier - 1]? = some bps) (hcommission : Math.bpsOf baseAmount bps = some 0)
    (hnext : accrueLoop rates referredWallet baseAmount rewardCap remaining
      (tier + 1) referrer total w = .ok total' w') :
    accrueLoop rates referredWallet baseAmount rewardCap (remaining + 1) tier current total w =
      .ok total' w' := by
  simp only [accrueLoop, bind_ok, readOwn_ok]
  refine ⟨some referrer, w, ⟨hedge.symm, rfl⟩, ?_⟩
  simp only [bind_ok, okOr_ok, ite_ok, pure_ok]
  exact ⟨bps, w, ⟨hget, rfl⟩, 0, w, ⟨hcommission, rfl⟩,
    .inr ⟨lt_irrefl 0, total, w, ⟨rfl, rfl⟩, hnext⟩⟩

/-- The shares from a referrer on: what its commission brings to it, and the shares above it. -/
theorem sum_shares_cons {s : Store} {rest : List ℤ} (hedge : s.readReferrer current = some referrer)
    (hnonneg : 0 ≤ baseAmount * bps / Math.bpsDenominator) :
    (s.shares baseAmount rewardCap (bps :: rest) current).sum =
      s.credited rewardCap referrer (baseAmount * bps / Math.bpsDenominator) +
        (s.shares baseAmount rewardCap rest referrer).sum := by
  rw [Store.shares, Store.tiersUp, hedge, List.map_cons, List.sum_cons, credited_eq _ _ _ hnonneg]
  rfl

theorem sum_commissions_cons (baseAmount bps : ℤ) (rest : List ℤ) :
    (commissions baseAmount (bps :: rest)).sum =
      baseAmount * bps / Math.bpsDenominator + (commissions baseAmount rest).sum :=
  List.sum_cons

theorem safeAdd_of_le {bound a b : ℤ} (hfits : InI128 bound) (ha : 0 ≤ a) (hb : 0 ≤ b)
    (hle : a + b ≤ bound) : Math.safeAdd a b = some (a + b) := by
  refine checkedAdd_eq_some.mpr ⟨?_, rfl⟩
  unfold InI128 at hfits ⊢
  omega

/-- The loop returns the total and the shares of the referrers above the current wallet. -/
theorem accrueLoop_returns (hpayable : Payable baseAmount rewardCap rates) (htier : 0 < tier)
    (hlength : rates.length = remaining + (tier - 1)) (hbalanced : Balanced w.store.own)
    (hnodup : ((w.store.own.tiersUp (rates.drop (tier - 1)) current).map Prod.fst).Nodup)
    (htotal : 0 ≤ total)
    (hle : total + (commissions baseAmount (rates.drop (tier - 1))).sum ≤ baseAmount) : ∃ w',
    accrueLoop rates referredWallet baseAmount rewardCap remaining tier current total w =
      .ok (total + (w.store.own.shares baseAmount rewardCap (rates.drop (tier - 1)) current).sum)
        w' := by
  induction remaining generalizing tier current total w with
  | zero =>
    rw [List.drop_eq_nil_of_le (by omega)]
    refine ⟨w, ?_⟩
    simp [accrueLoop, Store.shares, Store.tiersUp]
  | succ remaining ih =>
    have hlt : tier - 1 < rates.length := by omega
    have hdrop : rates.drop (tier - 1) = rates[tier - 1] :: rates.drop tier := by
      rw [List.drop_eq_getElem_cons hlt, Nat.sub_add_cancel htier]
    have hmem : rates[tier - 1] ∈ rates := List.getElem_mem hlt
    have hget : rates[tier - 1]? = some rates[tier - 1] := List.getElem?_eq_getElem hlt
    rw [hdrop] at hnodup hle ⊢
    generalize rates[tier - 1] = bps at hmem hget hnodup hle ⊢
    cases hedge : w.store.own.readReferrer current with
    | none =>
      refine ⟨w, ?_⟩
      simp [accrueLoop, Store.shares, Store.tiersUp, hedge]
    | some referrer =>
      obtain ⟨hbps, hbps'⟩ := hpayable.bounds bps hmem
      have hcommission := Math.bpsOf_eq hpayable.pos hpayable.fits hbps hbps'
      have hnonneg := hpayable.commission_nonneg hmem
      have hlater : 0 ≤ (commissions baseAmount (rates.drop tier)).sum :=
        sum_commissions_nonneg hpayable fun _ => List.mem_of_mem_drop
      rw [Store.tiersUp, hedge, List.map_cons, List.nodup_cons] at hnodup
      rw [sum_commissions_cons] at hle
      rw [sum_shares_cons hedge hnonneg]
      generalize baseAmount * bps / Math.bpsDenominator = commission at hcommission hnonneg hle ⊢
      have hcredited : w.store.own.credited rewardCap referrer commission ≤ commission := by
        rw [credited_eq _ _ _ hnonneg]
        exact min_le_left _ _
      have hcredited' := (credited_bounds w.store.own rewardCap referrer commission).1
      rcases hnonneg.lt_or_eq with hpos | rfl
      · obtain ⟨events, hcredit⟩ :=
          creditReferrer_returns referredWallet referrer tier hpos hpayable.cap hbalanced
        have hadd := safeAdd_of_le hpayable.fits htotal hcredited'
          (show total + w.store.own.credited rewardCap referrer commission ≤ baseAmount by omega)
        have hnodup' : (((w.store.own.credit rewardCap referrer commission).tiersUp
            (rates.drop (tier + 1 - 1)) referrer).map Prod.fst).Nodup := by
          rw [tiersUp_credit]
          exact hnodup.2
        obtain ⟨w', hnext⟩ := @ih (tier + 1) referrer _ { w with
            store := { w.store with own := w.store.own.credit rewardCap referrer commission }
            events := events } (Nat.succ_pos tier) (by omega)
          (hbalanced.credit hpayable.cap referrer commission) hnodup' (add_nonneg htotal hcredited')
          (by rw [Nat.add_sub_cancel]; omega)
        refine ⟨w', accrueLoop_credit hedge hget hcommission hpos hcredit hadd ?_⟩
        rw [Nat.add_sub_cancel, shares_credit hnodup.1, add_assoc] at hnext
        exact hnext
      · obtain ⟨w', hnext⟩ :=
          @ih (tier + 1) referrer total w (Nat.succ_pos tier) (by omega) hbalanced
          hnodup.2 htotal (by rw [Nat.add_sub_cancel]; omega)
        refine ⟨w', accrueLoop_skip hedge hget hcommission ?_⟩
        rw [le_antisymm hcredited hcredited', zero_add]
        exact hnext

end

/-! ## The chain -/

theorem zip_tiersUp (s : Store) (rates : List ℤ) (wallet : Address) :
    ((s.tiersUp rates wallet).map Prod.fst).zip rates = s.tiersUp rates wallet := by
  induction rates generalizing wallet with
  | nil => rfl
  | cons bps rest ih =>
    rw [Store.tiersUp]
    cases s.readReferrer wallet with
    | none => rfl
    | some referrer =>
      dsimp only
      rw [List.map_cons, List.zip_cons_cons, ih]

/-- The referrers of the tiers are the points above the wallet. -/
theorem getElem?_tiersUp (s : Store) (rates : List ℤ) (wallet : Address) (i : ℕ) :
    ((s.tiersUp rates wallet).map Prod.fst)[i]? =
      if i < rates.length then climb s.readReferrer (i + 1) wallet else none := by
  induction rates generalizing wallet i with
  | nil => rfl
  | cons bps rest ih =>
    rw [Store.tiersUp, climb_succ, List.length_cons]
    cases s.readReferrer wallet with
    | none =>
      rw [Option.bind_none, ite_self]
      rfl
    | some referrer =>
      rw [Option.bind_some]
      cases i with
      | zero => rfl
      | succ i =>
        dsimp only
        rw [List.map_cons, List.getElem?_cons_succ, ih]
        simp only [Nat.succ_lt_succ_iff]

/-! ## The configuration -/

/-- The rates and the cap that a step configures; `initialize` configures one tier with nothing to
    give. -/
def configured (w : World (Linked Store X)) : Step me (Entry X) → Option (List ℤ × ℤ)
  | .call env (.init admin) => ((init env admin).value w).map fun _ => ([0], 0)
  | .call env (.setTierConfig caller tierBps maxTiers rewardCap) =>
    ((setTierConfig env caller tierBps maxTiers rewardCap).value w).map fun _ =>
    (tierBps, rewardCap)
  | _ => none

theorem lookup_insertTiers_of_lt {stored : Table ℕ ℤ} {tier k : ℕ} {rates : List ℤ}
    (hk : k < tier) :
    (insertTiers stored tier rates).lookup k = stored.lookup k := by
  induction rates generalizing stored tier with
  | nil => rfl
  | cons bps rest ih =>
    rw [insertTiers, ih (Nat.lt_succ_of_lt hk), Table.lookup_set, if_neg hk.ne]

theorem rates_congr {s s' : Store} (h : s'.tierBps = s.tierBps) (remaining tier : ℕ) :
    s'.rates remaining tier = s.rates remaining tier := by
  induction remaining generalizing tier with
  | zero => rfl
  | succ remaining ih => rw [Store.rates, Store.rates, h, ih]

theorem rates_of_insertTiers {s : Store} {stored : Table ℕ ℤ} {tier : ℕ} {rates : List ℤ}
    (h : s.tierBps = insertTiers stored tier rates) : s.rates rates.length tier = some rates := by
  induction rates generalizing stored tier with
  | nil => rfl
  | cons bps rest ih =>
    have hfirst : s.tierBps.lookup tier = some bps := by
      rw [h, insertTiers, lookup_insertTiers_of_lt (Nat.lt_succ_self tier),
        Table.lookup_set, if_pos rfl]
    rw [List.length_cons, Store.rates, hfirst, Option.bind_some, ih h, Option.map_some]

/-- The configuration is stored, and is one that `set_tier_config` accepts. -/
structure Configuration (config : List ℤ × ℤ) (s : Store) : Prop where
  maxTiers : s.maxTiers = some config.1.length
  rewardCap : s.rewardCap = some config.2
  rates : s.rates config.1.length 1 = some config.1
  valid : ValidTiers config.1 config.1.length config.2

theorem Configuration.congr {config : List ℤ × ℤ} {s s' : Store} (h : Configuration config s)
    (hmaxTiers : s'.maxTiers = s.maxTiers) (hrewardCap : s'.rewardCap = s.rewardCap)
    (htierBps : s'.tierBps = s.tierBps) : Configuration config s' where
  maxTiers := by rw [hmaxTiers, h.maxTiers]
  rewardCap := by rw [hrewardCap, h.rewardCap]
  rates := by rw [rates_congr htierBps, h.rates]
  valid := h.valid

/-- The last of the configurations is stored; there is one once there is an admin. -/
structure Configured (configs : List (List ℤ × ℤ)) (w : World (Linked Store X)) : Prop where
  unset : configs = [] → w.shared.admin = none
  last : ∀ config, configs.getLast? = some config → Configuration config w.store.own

theorem Configured.add {configs : List (List ℤ × ℤ)} {config : List ℤ × ℤ}
    {w : World (Linked Store X)} (h : Configuration config w.store.own) :
    Configured (configs ++ [config]) w := by
  constructor
  · intro hnone
    exact absurd hnone (List.append_ne_nil_of_right_ne_nil _ (List.cons_ne_nil _ _))
  · intro config' hlast
    rw [List.getLast?_concat] at hlast
    rw [← Option.some.inj hlast]
    exact h

theorem Configured.keep {configs : List (List ℤ × ℤ)} {w w' : World (Linked Store X)}
    (h : Configured configs w) (hadmin : w'.shared.admin = w.shared.admin)
    (hmaxTiers : w'.store.own.maxTiers = w.store.own.maxTiers)
    (hrewardCap : w'.store.own.rewardCap = w.store.own.rewardCap)
    (htierBps : w'.store.own.tierBps = w.store.own.tierBps) : Configured (configs ++ []) w' := by
  rw [List.append_nil]
  constructor
  · intro hnone
    rw [hadmin, h.unset hnone]
  · intro config hlast
    exact (h.last config hlast).congr hmaxTiers hrewardCap htierBps

theorem configured_of_not_returns {w : World (Linked Store X)} {s : Step me (Entry X)}
    (hfails : ∀ env c, s = .call env c → ¬ Returns env w c) : configured w s = none := by
  cases s with
  | outside => rfl
  | call env c =>
    cases c with
    | init admin =>
      rw [configured, value_eq_none.mpr (hfails _ _ rfl)]
      rfl
    | setTierConfig caller tierBps maxTiers rewardCap =>
      rw [configured, value_eq_none.mpr (hfails _ _ rfl)]
      rfl
    | _ => rfl

/-- A step stores what it configures, or leaves the configuration alone. -/
theorem configured_step {configs : List (List ℤ × ℤ)} {w : World (Linked Store X)}
    (h : Configured configs w) (s : Step me (Entry X)) :
    Configured (configs ++ (configured w s).toList) (step s w) := by
  rcases step_cases s w with ⟨env, c, rfl, hreturns, hdone⟩ | ⟨hfails, hstore, hshared⟩
  · generalize step (.call env c) w = w' at hdone ⊢
    cases hdone with
    | init events =>
      obtain ⟨_, _, hok⟩ := hreturns
      rw [configured, value_of_ok hok]
      refine .add ⟨rfl, rfl, rates_of_insertTiers rfl, ?_⟩
      constructor <;> simp [maxSupportedTiers, minRewardCap, maxRewardCap, minTierBps, maxTierBps]
    | setTierConfig events hadmin hsigned hvalid =>
      obtain ⟨_, _, hok⟩ := hreturns
      rw [configured, value_of_ok hok]
      have hlength := hvalid.length
      subst hlength
      exact .add ⟨rfl, rfl, rates_of_insertTiers rfl, hvalid⟩
    | accrue w' maxTiers rewardCap rates hadmin hsigned hpos hmaxTiers hcap hrates heach =>
      obtain ⟨accrued, lifetimeAccrued, events, rfl⟩ := frame_of_credited heach
      exact h.keep rfl rfl rfl rfl
    | setTreasury | setRegistry | setReferrer | register | claimNothing | claimRewards =>
      exact h.keep rfl rfl rfl rfl
  · rw [configured_of_not_returns hfails]
    exact h.keep (by rw [hshared]) (by rw [hstore]) (by rw [hstore]) (by rw [hstore])

/-! ## The balances -/

theorem Balanced.congr {s s' : Store} (h : Balanced s) (haccrued : s'.accrued = s.accrued)
    (hlifetime : s'.lifetimeAccrued = s.lifetimeAccrued) : Balanced s' := by
  intro a
  unfold Store.readAccrued Store.readLifetimeAccrued
  rw [haccrued, hlifetime]
  exact h a

/-- A claim empties the accrued balance of its claimant. -/
theorem Balanced.claim {s : Store} (h : Balanced s) (referrer : Address) :
    Balanced { s with accrued := s.accrued.insert referrer 0 } := by
  intro a
  obtain ⟨hnonneg, hle, hmax⟩ := h a
  show 0 ≤ ((s.accrued.insert referrer 0).lookup a).getD 0 ∧
    ((s.accrued.insert referrer 0).lookup a).getD 0 ≤ s.readLifetimeAccrued a ∧ _
  rw [Table.lookup_set]
  split_ifs
  · exact ⟨le_rfl, hnonneg.trans hle, hmax⟩
  · exact ⟨hnonneg, hle, hmax⟩

theorem Balanced.credited {baseAmount rewardCap : ℤ} {tiers : List (Address × ℤ)}
    {w w' : World (Linked Store X)} (h : Balanced w.store.own) (hcap : rewardCap ≤ maxRewardCap)
    (heach : Each (Credited baseAmount rewardCap) tiers w w') : Balanced w'.store.own := by
  refine heach.keeps (P := fun w : World (Linked Store X) => Balanced w.store.own) ?_ h
  rintro x v v' hv ⟨commission, events, -, rfl⟩
  exact hv.credit hcap x.1 commission

/-- The balances stay within the largest cap, because no larger one is ever stored. -/
theorem balanced_step {configs : List (List ℤ × ℤ)} {w : World (Linked Store X)}
    (hconfigured : Configured configs w) (h : Balanced w.store.own) (s : Step me (Entry X)) :
    Balanced (step s w).store.own := by
  rcases step_cases s w with ⟨env, c, rfl, -, hdone⟩ | ⟨-, hstore, -⟩
  · generalize step (.call env c) w = w' at hdone ⊢
    cases hdone with
    | accrue w' maxTiers rewardCap rates hadmin hsigned hpos hmaxTiers hcap hrates heach =>
      refine h.credited ?_ heach
      cases hlast : configs.getLast? with
      | none =>
        rw [hconfigured.unset (List.getLast?_eq_none_iff.mp hlast)] at hadmin
        cases hadmin
      | some config =>
        have hconfig := hconfigured.last config hlast
        rw [hconfig.rewardCap] at hcap
        rw [← Option.some.inj hcap]
        exact hconfig.valid.cap.2
    | claimRewards => exact h.claim _
    | init | setTreasury | setRegistry | setTierConfig | setReferrer | register | claimNothing =>
      exact h.congr rfl rfl
  · rw [hstore]
    exact h

theorem configured_reached (x : X) (tokens : TokenLedger) (steps : List (Step me (Entry X))) :
    Configured (yields step configured (deployed x tokens) steps) (reached x tokens steps) ∧
      Balanced (reached x tokens steps).store.own := by
  refine yields_induct (N := fun _ _ => True)
    (G := fun configs (w : World (Linked Store X)) => Configured configs w ∧ Balanced w.store.own)
    ?_ ⟨⟨fun _ => rfl, ?_⟩, ?_⟩ fun _ _ => trivial
  · rintro configs w s - ⟨hconfigured, hbalanced⟩
    exact ⟨configured_step hconfigured s, balanced_step hconfigured hbalanced s⟩
  · intro config hlast
    cases hlast
  · intro a
    have hcap : (0 : ℤ) ≤ maxRewardCap := by decide
    exact ⟨le_rfl, le_rfl, hcap⟩

/-! ## The specification -/

theorem cacheTierBps_returns {remaining tier : ℕ} {rates : List ℤ} {w : World (Linked Store X)}
    (h : w.store.own.rates remaining tier = some rates) :
    cacheTierBps remaining tier w = .ok rates w := by
  induction remaining generalizing tier rates with
  | zero =>
    obtain rfl := Option.some.inj h
    rfl
  | succ remaining ih =>
    obtain ⟨bps, hbps, hrest⟩ := Option.bind_eq_some_iff.mp h
    obtain ⟨rest, htail, rfl⟩ := Option.map_eq_some_iff.mp hrest
    simp [cacheTierBps, readTierBps, hbps, ih htail]

/-- What an accrual for the wallet does with these rates and this cap, and the total that it
    returns: `chain` has the referrers above the wallet, one for each tier as far as there are
    any. -/
structure Accrued (rates : List ℤ) (rewardCap baseAmount : ℤ) (wallet : Address)
    (chain : List Address) (total : ℤ) (w w' : World (Linked Store X)) : Prop where
  maxTiers : w.store.own.maxTiers = some rates.length
  chain_eq (i : ℕ) : chain[i]? = if i < rates.length then climb (graph w) (i + 1) wallet else none
  chain_nodup : chain.Nodup
  credited : ∀ x ∈ chain.zip rates,
    w'.store.own.readAccrued x.1 =
      w.store.own.readAccrued x.1 + w.store.own.share baseAmount rewardCap x ∧
    w'.store.own.readLifetimeAccrued x.1 =
      w.store.own.readLifetimeAccrued x.1 + w.store.own.share baseAmount rewardCap x
  others : ∀ a, a ∉ chain → w'.store.own.readAccrued a = w.store.own.readAccrued a ∧
    w'.store.own.readLifetimeAccrued a = w.store.own.readLifetimeAccrued a
  frame : ∃ accrued lifetimeAccrued events, w' = { w with
    store := { w.store with
      own := { w.store.own with accrued := accrued, lifetimeAccrued := lifetimeAccrued } }
    events := events }
  total_eq : total = ((chain.zip rates).map (w.store.own.share baseAmount rewardCap)).sum
  total_nonneg : 0 ≤ total
  total_le : total ≤ baseAmount

/-- The rates that `set_tier_config` accepts are rates that an accrual can apply. -/
theorem Configuration.payable {config : List ℤ × ℤ} {s : Store} (h : Configuration config s)
    {baseAmount : ℤ} (hpos : 0 < baseAmount) (hfits : InI128 baseAmount) :
    Payable baseAmount config.2 config.1 where
  pos := hpos
  fits := hfits
  cap := h.valid.cap.2
  bounds := h.valid.bounds

section

variable {rates : List ℤ} {rewardCap : ℤ} {w : World (Linked Store X)}

theorem nodup_tiersUp (hspread : Spread w) (hconfig : Configuration (rates, rewardCap) w.store.own)
    (wallet : Address) : ((w.store.own.tiersUp rates wallet).map Prod.fst).Nodup := by
  have hpath := (hspread.noCycle.mono (hspread.maxTiers _ hconfig.maxTiers)).nodup_path wallet
  rw [show graph w = w.store.own.readReferrer from rfl, path_eq_tiersUp, List.nodup_cons] at hpath
  exact hpath.2

/-- From balances within the largest cap, an accrual of the admin returns the shares of the
    referrers. -/
theorem accrue_returns (hspread : Spread w) (hconfig : Configuration (rates, rewardCap) w.store.own)
    (hbalanced : Balanced w.store.own) {env : Env me} {admin : Address}
    (hadmin : w.shared.admin = some admin) (hsigned : env.signed admin = true) (wallet : Address)
    {baseAmount : ℤ} (hpos : 0 < baseAmount) (hfits : InI128 baseAmount) : ∃ w',
    accrueLoop rates wallet baseAmount rewardCap rates.length 1 wallet 0 w =
        .ok (w.store.own.shares baseAmount rewardCap rates wallet).sum w' ∧
      accrue env admin wallet baseAmount w =
        .ok (w.store.own.shares baseAmount rewardCap rates wallet).sum w' := by
  have hpayable := hconfig.payable hpos hfits
  have hall : (commissions baseAmount rates).sum ≤ baseAmount :=
    sum_commissions_le hpos hconfig.valid.sum
  have hlength : rates.length = rates.length + (1 - 1) := rfl
  have hreturns : ∃ w', accrueLoop rates wallet baseAmount rewardCap rates.length 1 wallet 0 w =
      .ok (0 + (w.store.own.shares baseAmount rewardCap rates wallet).sum) w' :=
    accrueLoop_returns hpayable Nat.one_pos hlength hbalanced (nodup_tiersUp hspread hconfig wallet)
      le_rfl (by rw [zero_add]; exact hall)
  obtain ⟨w', hloop⟩ := hreturns
  rw [zero_add] at hloop
  refine ⟨w', hloop, ?_⟩
  simp [accrue, readMaxTiers, readRewardCap, hadmin, hsigned, not_le.mpr hpos, hconfig.maxTiers,
    hconfig.rewardCap]
  exact ⟨rates, w, cacheTierBps_returns hconfig.rates, hloop⟩

end

/-- From balances within the largest cap, an accrual of the admin returns and does what it
    should. -/
theorem accrued_of_configuration {config : List ℤ × ℤ} {w : World (Linked Store X)}
    (hspread : Spread w) (hconfig : Configuration config w.store.own)
    (hbalanced : Balanced w.store.own) {env : Env me} {admin : Address}
    (hadmin : w.shared.admin = some admin) (hsigned : env.signed admin = true) (wallet : Address)
    {baseAmount : ℤ} (hpos : 0 < baseAmount) (hfits : InI128 baseAmount) :
    ∃ chain total w', accrue env admin wallet baseAmount w = .ok total w' ∧
      Accrued config.1 config.2 baseAmount wallet chain total w w' := by
  obtain ⟨rates, rewardCap⟩ := config
  have hpayable : Payable baseAmount rewardCap rates := hconfig.payable hpos hfits
  have hnodup := nodup_tiersUp hspread hconfig wallet
  have hcommissions : ∀ bps ∈ rates, 0 ≤ baseAmount * bps / Math.bpsDenominator :=
    fun bps hbps => hpayable.commission_nonneg hbps
  obtain ⟨w', hloop, hrun⟩ :=
    accrue_returns hspread hconfig hbalanced hadmin hsigned wallet hpos hfits
  have heach : Each (Credited baseAmount rewardCap) (w.store.own.tiersUp rates wallet) w w' :=
    accrueLoop_ok Nat.one_pos (show rates.length = rates.length + (1 - 1) from rfl) hloop
  obtain ⟨hothers, hcredited⟩ := creditedOnce_of_nodup heach hnodup
  refine ⟨(w.store.own.tiersUp rates wallet).map Prod.fst, _, w', hrun, ?_⟩
  constructor
  · exact hconfig.maxTiers
  · exact getElem?_tiersUp w.store.own rates wallet
  · exact hnodup
  · intro x hx
    rw [zip_tiersUp] at hx
    have hmem := mem_of_mem_tiersUp hx
    obtain ⟨commission, hcommission, haccrued, hlifetime⟩ := hcredited x hx
    rw [Math.bpsOf_eq hpos hfits (hpayable.bounds _ hmem).1
      (hpayable.bounds _ hmem).2] at hcommission
    rw [haccrued, hlifetime, ← Option.some.inj hcommission, credited_eq _ _ _ (hcommissions _ hmem)]
    exact ⟨rfl, rfl⟩
  · exact hothers
  · exact frame_of_credited heach
  · rw [zip_tiersUp]
    rfl
  · refine List.sum_nonneg ?_
    intro y hy
    obtain ⟨x, hx, rfl⟩ := List.mem_map.mp hy
    exact share_nonneg hpayable (mem_of_mem_tiersUp hx)
  · exact (sum_shares_le hcommissions wallet).trans (sum_commissions_le hpos hconfig.valid.sum)

/-- In every state that a fresh contract reaches and in which it has an admin, an accrual of the
    admin for any wallet and any positive amount returns, credits each referrer of the chain with
    its share by the rates that were configured last, and changes nothing else. -/
theorem accrue_spec (x : X) (tokens : TokenLedger) (steps : List (Step me (Entry X))) (env : Env me)
    (admin wallet : Address) (baseAmount : ℤ)
    (hadmin : (reached x tokens steps).shared.admin = some admin)
    (hsigned : env.signed admin = true) (hpos : 0 < baseAmount) (hfits : InI128 baseAmount) :
    ∃ rates rewardCap chain total w',
      (yields step configured (deployed x tokens) steps).getLast? = some (rates, rewardCap) ∧
      accrue env admin wallet baseAmount (reached x tokens steps) = .ok total w' ∧
      Accrued rates rewardCap baseAmount wallet chain total (reached x tokens steps) w' := by
  obtain ⟨hconfigured, hbalanced⟩ := configured_reached x tokens steps
  cases hlast : (yields step configured (deployed x tokens) steps).getLast? with
  | none =>
    rw [hconfigured.unset (List.getLast?_eq_none_iff.mp hlast)] at hadmin
    cases hadmin
  | some config =>
    obtain ⟨chain, total, w', hrun, haccrued⟩ := accrued_of_configuration
      (spread_reached x tokens steps)
        (hconfigured.last config hlast) hbalanced hadmin hsigned wallet
      hpos hfits
    exact ⟨config.1, config.2, chain, total, w', rfl, hrun, haccrued⟩

/-- An accrual of 1000 for the wallet below two others; it credits 100 and 50. -/
theorem accrue_spec_tiers : ∃ chain total w',
    accrue (.signedBy ⟨0⟩ 5 5 [⟨1⟩]) ⟨1⟩ ⟨12⟩ 1000 (reached () (.ofList []) tierRun) =
      .ok total w' ∧
      Accrued [1000, 500] 10000 1000 ⟨12⟩ chain total (reached () (.ofList []) tierRun) w' := by
  obtain ⟨rates, rewardCap, chain, total, w', hconfig, hrun, haccrued⟩ :=
    accrue_spec () (.ofList [])
    tierRun (.signedBy ⟨0⟩ 5 5 [⟨1⟩]) ⟨1⟩ ⟨12⟩ 1000 (by decide) (by decide) (by decide) (by decide)
  have hthis : (yields step configured (deployed () (.ofList [])) tierRun).getLast? =
      some ([1000, 500], 10000) := by decide
  obtain ⟨rfl, rfl⟩ := Prod.mk.inj (Option.some.inj (hconfig.symm.trans hthis))
  exact ⟨chain, total, w', hrun, haccrued⟩

end Trellis.Referral
