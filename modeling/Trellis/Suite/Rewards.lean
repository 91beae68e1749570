import Trellis.Lib.Spend
import Trellis.Referral.Rewards
import Trellis.Registry.Contract
import Trellis.Treasury.Log

/-!
# The rewards program

The referral contract, the treasury that pays its claims, and the registry under which it finds the
treasury. A claim calls the registry, then the treasury, and only then sets the balance to zero;
everybody calls the three contracts in between. The other contracts that a claim may reach answer as
they please, but do not call these three from within the claim.

Results:
* `kept_step`: no step makes a balance of the treasury or an accrued balance negative.
* `Wired.step`: the three contracts stay together while no call names another one to them.
* `Wired.payments_step`: a step that pays a claim takes one payment from the treasury, and no other
  step does.
* `rewards_exactly_once`: the payments of the treasury are the claims of the referral contract, one
  for one.
-/

namespace Trellis

open Exec

/-! ## The three contracts -/

namespace Referral

/-- The call with other callees. -/
def Entry.withCallees {X Y : Type} (f : Callees X → Callees Y) : Entry X → Entry Y
  | .init admin => .init admin
  | .setTreasury caller treasury => .setTreasury caller treasury
  | .setRegistry caller registry => .setRegistry caller registry
  | .setTierConfig caller tierBps maxTiers rewardCap =>
    .setTierConfig caller tierBps maxTiers rewardCap
  | .setReferrer caller referredWallet referrer => .setReferrer caller referredWallet referrer
  | .register wallet referrer => .register wallet referrer
  | .accrue caller referredWallet baseAmount => .accrue caller referredWallet baseAmount
  | .claimRewards callees referrer => .claimRewards (f callees) referrer

/-- The callees of which the one at `registry` is the registry contract; the others answer as
    `callees` says. -/
def Callees.withRegistry (callees : Callees Unit) (registry : Address) :
    Callees (World Registry.Store) where
  getContract address name x :=
    if address = registry then
      match x.store.getContract name with
      | .ok found => (.value found, x)
      | .error e => (.error e, x)
    else ((callees.getContract address name ()).1, x)
  distributeReward address recipient amount x :=
    ((callees.distributeReward address recipient amount ()).1, x)

end Referral

namespace Rewards

/-- The addresses of the three contracts. -/
structure Site where
  referral : Address
  treasury : Address
  registry : Address
  referral_ne_treasury : referral ≠ treasury

/-- The environment of a transaction. The three contracts sign nothing. -/
structure TxEnv (site : Site) where
  sequence : ℕ
  timestamp : ℕ
  signed : Address → Bool
  admits : TokenLedger → TokenTransfer → Bool
  referral_unsigned : signed site.referral = false
  treasury_unsigned : signed site.treasury = false
  registry_unsigned : signed site.registry = false

section

variable {site : Site}

/-- The environment of a call of the referral contract. -/
def TxEnv.referral (env : TxEnv site) : Env site.referral where
  sequence := env.sequence
  timestamp := env.timestamp
  signed := env.signed
  admits := env.admits
  me_unsigned := env.referral_unsigned

/-- The environment of a call of the treasury. -/
def TxEnv.treasury (env : TxEnv site) : Env site.treasury where
  sequence := env.sequence
  timestamp := env.timestamp
  signed := env.signed
  admits := env.admits
  me_unsigned := env.treasury_unsigned

/-- The environment of a call of the registry. -/
def TxEnv.registry (env : TxEnv site) : Env site.registry where
  sequence := env.sequence
  timestamp := env.timestamp
  signed := env.signed
  admits := env.admits
  me_unsigned := env.registry_unsigned

/-- A transaction that one address signs, at a ledger sequence that is also the time. -/
def TxEnv.signedBy (site : Site) (now : ℕ) (signer : Address) : TxEnv site where
  sequence := now
  timestamp := now
  signed := fun a => decide (a ≠ site.referral ∧ a ≠ site.treasury ∧ a ≠ site.registry ∧ a = signer)
  admits := fun _ _ => true
  referral_unsigned := by simp
  treasury_unsigned := by simp
  registry_unsigned := by simp

end

/-- The storage of the referral contract, beside the treasury and the registry. -/
abbrev State := World (Linked Referral.Store (World Treasury.Store × World Registry.Store))

/-- The treasury. -/
abbrev treasuryOf (w : State) : World Treasury.Store := w.store.others.1

/-- The registry. -/
abbrev registryOf (w : State) : World Registry.Store := w.store.others.2

/-- A call of one of the three contracts; a claim carries the answers of the contracts that are none
    of them. -/
inductive Act (site : Site) where
  | referral (env : TxEnv site) (c : Referral.Entry Unit)
  | treasury (env : TxEnv site) (c : Treasury.Entry)
  | registry (env : TxEnv site) (c : Registry.Entry)

variable {site : Site}

/-- What a claim reaches. -/
def callees (env : TxEnv site) (others : Referral.Callees Unit) :
    Referral.Callees (World Treasury.Store × World Registry.Store) :=
  (others.withRegistry site.registry).withTreasury env.referral site.treasury

/-- The call as the referral contract and those it calls see it. -/
def Act.seen :
    Act site → Referral.SuiteStep site.referral (World Treasury.Store × World Registry.Store)
  | .referral env c => .referral (.call env.referral (c.withCallees (callees env)))
  | .treasury env c => .others fun x => (Treasury.exec env.treasury c x.1, x.2)
  | .registry env c => .others fun x => (x.1, Registry.exec env.registry c x.2)

/-- The state after a call. -/
def step (x : Act site) (w : State) : State := Referral.suiteStep x.seen w

/-- Three fresh contracts. -/
def deployed (tokens : TokenLedger) : State :=
  Referral.deployed (Treasury.deployed tokens, Registry.deployed tokens) tokens

/-! ## Wiring -/

/-- The call names none but the three contracts to each other. -/
def Wires : Act site → Prop
  | .referral _ (.setTreasury _ treasury) => treasury = site.treasury
  | .referral _ (.setRegistry _ registry) => registry = site.registry
  | .treasury _ (.setReferralContract _ referral) => referral = site.referral
  | .registry _ (.setContract _ name address _) => name = "treasury" → address = site.treasury
  | _ => True

/-- The contracts know none but each other. -/
structure Wired (site : Site) (w : State) : Prop where
  treasury : ∀ t, w.store.own.treasury = some t → t = site.treasury
  registry : ∀ r, w.store.own.registry = some r → r = site.registry
  referral : ∀ r, (treasuryOf w).store.referralContract = some r → r = site.referral
  entry : ∀ found, (registryOf w).store.contracts.lookup "treasury" = some found →
    found.address = site.treasury

/-- Claims find the treasury, and looking for it changes nothing. -/
def FindsTreasury (site : Site) (w : State) : Prop :=
  ∀ (env : TxEnv site) (others : Referral.Callees Unit) (found : Address)
    (x : World Treasury.Store × World Registry.Store),
    (callees env others).Finds w.store.own w.store.others found x →
      found = site.treasury ∧ x = w.store.others

theorem getContract_callees (env : TxEnv site) (others : Referral.Callees Unit) (name : Symbol)
    (x : World Treasury.Store × World Registry.Store) :
    (callees env others).getContract site.registry name x =
      (match x.2.store.contracts.lookup name with
        | some entry => .value (entry.address, entry.version)
        | none => .error .notFound, x) := by
  have hanswer : (others.withRegistry site.registry).getContract site.registry name x.2 =
      match x.2.store.getContract name with
      | .ok found => (.value found, x.2)
      | .error e => (.error e, x.2) := if_pos rfl
  show (((others.withRegistry site.registry).getContract site.registry name x.2).1, (x.1,
    ((others.withRegistry site.registry).getContract site.registry name x.2).2)) = _
  rw [hanswer]
  unfold Registry.Store.getContract
  cases x.2.store.contracts.lookup name <;> rfl

theorem Wired.finds {w : State} (h : Wired site w) : FindsTreasury site w := by
  intro env others found x hfinds
  unfold Referral.Callees.Finds at hfinds
  cases hregistry : w.store.own.registry with
  | none =>
    rw [hregistry] at hfinds
    exact ⟨h.treasury _ hfinds.1, hfinds.2⟩
  | some r =>
    rw [hregistry] at hfinds
    obtain rfl := h.registry r hregistry
    obtain ⟨hx, hfound⟩ := hfinds
    have hleft : leftBy ((callees env others).getContract site.registry "treasury") w.store.others =
        w.store.others := by
      unfold leftBy
      rw [getContract_callees, ite_self]
    rw [getContract_callees] at hfound
    cases hentry : (registryOf w).store.contracts.lookup "treasury" with
    | none =>
      simp only [hentry] at hfound
      exact ⟨h.treasury _ hfound, hx.trans hleft⟩
    | some entry =>
      simp only [hentry] at hfound
      exact ⟨hfound.trans (h.entry entry hentry), hx.trans hleft⟩

/-- The treasury pays a claim by its `distribute_reward`, and the registry has no part in it. -/
theorem paid_callees {env : TxEnv site} {others : Referral.Callees Unit} {recipient : Address}
    {amount : ℤ} {x x' : World Treasury.Store × World Registry.Store}
    (h : (callees env others).distributeReward site.treasury recipient amount x = (.value (), x')) :
    Treasury.distributeReward (env.referral.invoke site.treasury) recipient amount x.1 =
      .ok () x'.1 ∧
      x'.2 = x.2 := by
  refine ⟨Referral.withTreasury_paid h, ?_⟩
  dsimp only [callees, Referral.Callees.withTreasury] at h
  rw [if_pos rfl] at h
  obtain ⟨-, rfl⟩ := Prod.mk.inj h
  rfl

/-! ## Payments -/

/-- The payment that an event of the treasury tells of. -/
def payment (e : Event) : Option (Address × ℤ) :=
  if e.topics = ["comm", "paid"] then
    match e.data with
    | [.address recipient, .i128 amount, .u64 _] => some (recipient, amount)
    | _ => none
  else none

/-- The payments in the log of the treasury, in order. -/
def payments (w : State) : List (Address × ℤ) := (treasuryOf w).events.filterMap payment

/-- The claim that a call pays: who claims, and the amount that `claim_rewards` returns, unless it
    is zero. -/
def paidClaim (w : State) : Act site → Option (Address × ℤ)
  | .referral env (.claimRewards others referrer) =>
    ((Referral.claimRewards env.referral (callees env others) referrer).value w).bind fun amount =>
      if amount = 0 then none else some (referrer, amount)
  | _ => none

theorem payment_logging (topic : Symbol) (data : List Val) :
    payment ⟨["logging", topic], data⟩ = none :=
  if_neg (by simp)

theorem payment_paid (recipient : Address) (amount : ℤ) (paidAt : ℕ) :
    payment ⟨["comm", "paid"], [.address recipient, .i128 amount, .u64 paidAt]⟩ =
      some (recipient, amount) :=
  if_pos rfl

/-- A direct call of the treasury pays no reward, since the referral contract does not sign it. -/
theorem payments_treasury {env : TxEnv site} {c : Treasury.Entry} {v v' : World Treasury.Store}
    (hreferral : ∀ r, v.store.referralContract = some r → r = site.referral)
    (hdone : Treasury.Done env.treasury v c v') :
    v'.events.filterMap payment = v.events.filterMap payment := by
  have hone : ∀ {e : Event}, payment e = none →
      (v.events ++ [e]).filterMap payment = v.events.filterMap payment := by
    intro e he
    rw [List.filterMap_append, List.filterMap_cons_none he, List.filterMap_nil, List.append_nil]
  have htwo : ∀ {e e' : Event}, payment e = none → payment e' = none →
      (v.events ++ [e, e']).filterMap payment = v.events.filterMap payment := by
    intro e e' he he'
    rw [List.filterMap_append, List.filterMap_cons_none he, List.filterMap_cons_none he',
      List.filterMap_nil, List.append_nil]
  cases hdone with
  | init => exact hone (payment_logging _ _)
  | addTreasuryManager => exact hone (payment_logging _ _)
  | removeTreasuryManager => exact hone (payment_logging _ _)
  | setWithdrawalLimit => exact hone (payment_logging _ _)
  | setReferralContract => exact hone (payment_logging _ _)
  | deposit => exact htwo (if_neg (by simp)) (payment_logging _ _)
  | withdraw => exact htwo (if_neg (by simp)) (payment_logging _ _)
  | emergencyWithdraw => exact htwo (if_neg (by simp)) (payment_logging _ _)
  | distributeReward referral hpos hbalance hregistered hsigned =>
    rw [hreferral referral hregistered] at hsigned
    exact absurd (hsigned.symm.trans env.referral_unsigned) Bool.false_ne_true.symm

theorem paidClaim_of_succeeds {env : TxEnv site} {others : Referral.Callees Unit}
    {referrer : Address} {w : State}
    (h : (Referral.claimRewards env.referral (callees env others) referrer).Succeeds w) :
    paidClaim w (.referral env (.claimRewards others referrer)) =
      if w.store.own.readAccrued referrer = 0 then none
        else some (referrer, w.store.own.readAccrued referrer) := by
  obtain ⟨amount, w', hok⟩ := h
  rw [paidClaim, value_of_ok hok, Option.bind_some, Referral.claimRewards_paid hok]

/-- While claims find the treasury, a call of the referral contract leaves the two others alone, or
    has the treasury pay what is due to the claimant. -/
theorem referral_cases {w : State} (h : FindsTreasury site w) (env : TxEnv site)
    (c : Referral.Entry Unit) :
    ((step (.referral env c) w).store.others = w.store.others ∧
      paidClaim w (.referral env c) = none) ∨
    ∃ referrer, paidClaim w (.referral env c) = some (referrer, w.store.own.readAccrued referrer) ∧
      Treasury.distributeReward (env.referral.invoke site.treasury) referrer
        (w.store.own.readAccrued referrer)
        (treasuryOf w) = .ok () (treasuryOf (step (.referral env c) w)) ∧
      registryOf (step (.referral env c) w) = registryOf w := by
  rcases Referral.exec_returns env.referral (c.withCallees (callees env)) w with
    ⟨hfails, hsame⟩ | ⟨hreturns, hdone⟩
  · left
    refine ⟨congrArg (fun v : State => v.store.others) hsame, ?_⟩
    cases c with
    | claimRewards others referrer =>
      rw [paidClaim, value_eq_none.mpr hfails, Option.bind_none]
    | _ => rfl
  · show ((Referral.exec env.referral (c.withCallees (callees env)) w).store.others = _ ∧ _) ∨
      ∃ referrer, _ ∧
        Treasury.distributeReward _ _ _ _ = .ok () (treasuryOf (Referral.exec env.referral
        (c.withCallees (callees env)) w)) ∧
        registryOf (Referral.exec env.referral (c.withCallees (callees env)) w) = _
    generalize Referral.exec env.referral (c.withCallees (callees env)) w = w' at hdone ⊢
    cases c with
    | init =>
      cases hdone
      exact .inl ⟨rfl, rfl⟩
    | setTreasury =>
      cases hdone
      exact .inl ⟨rfl, rfl⟩
    | setRegistry =>
      cases hdone
      exact .inl ⟨rfl, rfl⟩
    | setTierConfig =>
      cases hdone
      exact .inl ⟨rfl, rfl⟩
    | setReferrer =>
      cases hdone
      exact .inl ⟨rfl, rfl⟩
    | register =>
      cases hdone
      exact .inl ⟨rfl, rfl⟩
    | accrue =>
      cases hdone with
      | accrue w' maxTiers rewardCap rates hadmin hsigned hpos hmaxTiers hcap hrates heach =>
        obtain ⟨accrued, lifetimeAccrued, events, rfl⟩ := Referral.frame_of_credited heach
        exact .inl ⟨rfl, rfl⟩
    | claimRewards others referrer =>
      have hpaid := paidClaim_of_succeeds hreturns
      cases hdone with
      | claimNothing hsigned hzero =>
        rw [if_pos hzero] at hpaid
        exact .inl ⟨rfl, hpaid⟩
      | claimRewards events found x₁ x₂ hsigned hne hfound hok =>
        obtain ⟨rfl, rfl⟩ := h _ _ _ _ hfound
        obtain ⟨htreasury, hregistry⟩ := paid_callees hok
        rw [if_neg hne] at hpaid
        exact .inr ⟨referrer, hpaid, htreasury, hregistry⟩

/-- A step takes one payment from the treasury for the claim that it pays, and no other. -/
theorem Wired.payments_step {w : State} (h : Wired site w) (s : Act site) :
    payments (step s w) = payments w ++ (paidClaim w s).toList := by
  cases s with
  | referral env c =>
    rcases referral_cases h.finds env c with ⟨hothers, hnone⟩ | ⟨referrer, hpaid, hok, -⟩
    · rw [hnone, Option.toList_none, List.append_nil]
      exact congrArg (fun x => x.1.events.filterMap payment) hothers
    · rw [hpaid, payments]
      generalize treasuryOf (step (.referral env c) w) = v at hok ⊢
      cases Treasury.distributeReward_done hok with
      | distributeReward =>
        show (w.store.others.1.events ++ [_, _]).filterMap payment = _
        have hlogged := payment_logging "action"
          [.symbol "treasury", .symbol "reward", .address referrer, .bool true, .u64 env.timestamp]
        rw [List.filterMap_append, List.filterMap_cons_some (payment_paid _ _ _)]
        exact congrArg (fun l => payments w ++ (referrer, _) :: l)
          (List.filterMap_cons_none hlogged)
  | treasury env c =>
    rw [show paidClaim w (.treasury env c) = none from rfl, Option.toList_none, List.append_nil]
    show (Treasury.exec env.treasury c w.store.others.1).events.filterMap payment = payments w
    rcases Treasury.exec_cases env.treasury c w.store.others.1 with hsame | hdone
    · rw [hsame]
      rfl
    · exact payments_treasury h.referral hdone
  | registry env c =>
    rw [show paidClaim w (.registry env c) = none from rfl, Option.toList_none, List.append_nil]
    rfl

/-! ## The contracts stay together -/

theorem referral_of_done {env : TxEnv site} {c : Treasury.Entry} {v v' : World Treasury.Store}
    (h : ∀ r, v.store.referralContract = some r → r = site.referral) (hs : Wires (.treasury env c))
    (hdone : Treasury.Done env.treasury v c v') :
    ∀ r, v'.store.referralContract = some r → r = site.referral := by
  cases hdone with
  | setReferralContract =>
    intro r hr
    exact (Option.some.inj hr).symm.trans hs
  | init => exact h
  | addTreasuryManager => exact h
  | removeTreasuryManager => exact h
  | setWithdrawalLimit => exact h
  | deposit => exact h
  | withdraw => exact h
  | emergencyWithdraw => exact h
  | distributeReward => exact h

theorem entry_of_done {env : TxEnv site} {c : Registry.Entry} {v v' : World Registry.Store}
    (h : ∀ found, v.store.contracts.lookup "treasury" = some found → found.address = site.treasury)
    (hs : Wires (.registry env c)) (hdone : Registry.Done env.registry v c v') :
    ∀ found, v'.store.contracts.lookup "treasury" = some found → found.address = site.treasury := by
  cases hdone with
  | init => exact h
  | setMetadata => exact h
  | @setContract caller name address version =>
    have hcontracts : ∀ s : Registry.Store, (s.addVersion name version).contracts =
        s.contracts := by
      intro s
      unfold Registry.Store.addVersion
      split_ifs <;> rfl
    intro found hfound
    rw [hcontracts, Table.lookup_set] at hfound
    split_ifs at hfound with hname
    · rw [← Option.some.inj hfound]
      exact hs hname.symm
    · exact h found hfound

theorem own_of_done {env : TxEnv site} {c : Referral.Entry Unit} {w w' : State}
    (htreasury : ∀ t, w.store.own.treasury = some t → t = site.treasury)
    (hregistry : ∀ r, w.store.own.registry = some r → r = site.registry)
    (hs : Wires (.referral env c))
    (hdone : Referral.Done env.referral w (c.withCallees (callees env)) w') :
    (∀ t, w'.store.own.treasury = some t → t = site.treasury) ∧
      ∀ r, w'.store.own.registry = some r → r = site.registry := by
  cases c with
  | setTreasury =>
    cases hdone
    exact ⟨fun t ht => (Option.some.inj ht).symm.trans hs, hregistry⟩
  | setRegistry =>
    cases hdone
    exact ⟨htreasury, fun r hr => (Option.some.inj hr).symm.trans hs⟩
  | init =>
    cases hdone
    exact ⟨htreasury, hregistry⟩
  | setTierConfig =>
    cases hdone
    exact ⟨htreasury, hregistry⟩
  | setReferrer =>
    cases hdone
    exact ⟨htreasury, hregistry⟩
  | register =>
    cases hdone
    exact ⟨htreasury, hregistry⟩
  | accrue =>
    cases hdone with
    | accrue w' maxTiers rewardCap rates hadmin hsigned hpos hmaxTiers hcap hrates heach =>
      obtain ⟨accrued, lifetimeAccrued, events, rfl⟩ := Referral.frame_of_credited heach
      exact ⟨htreasury, hregistry⟩
  | claimRewards =>
    cases hdone with
    | claimNothing => exact ⟨htreasury, hregistry⟩
    | claimRewards => exact ⟨htreasury, hregistry⟩

theorem referralContract_distributeReward {env : Env site.treasury} {recipient : Address}
    {amount : ℤ} {v v' : World Treasury.Store} {u : Unit}
    (h : Treasury.distributeReward env recipient amount v = .ok u v') :
    v'.store.referralContract = v.store.referralContract := by
  cases Treasury.distributeReward_done h with
  | distributeReward => rfl

/-- The calls that name no other contracts keep the three together. -/
theorem Wired.step {w : State} (h : Wired site w) {s : Act site} (hs : Wires s) :
    Wired site (Rewards.step s w) := by
  cases s with
  | treasury env c =>
    refine ⟨h.treasury, h.registry, ?_, h.entry⟩
    show ∀ r, (Treasury.exec env.treasury c w.store.others.1).store.referralContract = some r → _
    rcases Treasury.exec_cases env.treasury c w.store.others.1 with hsame | hdone
    · rw [hsame]
      exact h.referral
    · exact referral_of_done h.referral hs hdone
  | registry env c =>
    refine ⟨h.treasury, h.registry, h.referral, ?_⟩
    show ∀ found,
      (Registry.exec env.registry c w.store.others.2).store.contracts.lookup "treasury" =
        some found → _
    rcases Registry.exec_cases env.registry c w.store.others.2 with hsame | hdone
    · rw [hsame]
      exact h.entry
    · exact entry_of_done h.entry hs hdone
  | referral env c =>
    have hown : (∀ t, (Rewards.step (.referral env c) w).store.own.treasury = some t →
        t = site.treasury) ∧
        ∀ r, (Rewards.step (.referral env c) w).store.own.registry = some r →
          r = site.registry := by
      rcases Referral.exec_cases env.referral (c.withCallees (callees env)) w with hsame | hdone
      · rw [show Rewards.step (.referral env c) w = w from hsame]
        exact ⟨h.treasury, h.registry⟩
      · exact own_of_done h.treasury h.registry hs hdone
    rcases referral_cases h.finds env c with ⟨hothers, -⟩ | ⟨referrer, -, hok, hregistry⟩
    · refine ⟨hown.1, hown.2, ?_, ?_⟩
      · rw [treasuryOf, hothers]
        exact h.referral
      · rw [registryOf, hothers]
        exact h.entry
    · refine ⟨hown.1, hown.2, ?_, ?_⟩
      · rw [referralContract_distributeReward hok]
        exact h.referral
      · rw [hregistry]
        exact h.entry

theorem wired_deployed (site : Site) (tokens : TokenLedger) : Wired site (deployed tokens) where
  treasury := by
    rintro t ⟨⟩
  registry := by
    rintro r ⟨⟩
  referral := by
    rintro r ⟨⟩
  entry := by
    rintro found ⟨⟩

/-! ## What every run keeps -/

/-- The balances of the treasury are those of its log, and no balance is negative. -/
structure Kept (w : State) : Prop where
  recorded : Treasury.Recorded (treasuryOf w)
  accrued : ∀ r, 0 ≤ w.store.own.readAccrued r

/-- A claim leaves the balances of the treasury to its log, whatever the treasury is that it
    finds. -/
theorem recorded_referral {w : State} (h : Treasury.Recorded (treasuryOf w)) (env : TxEnv site)
    (c : Referral.Entry Unit) : Treasury.Recorded (treasuryOf (step (.referral env c) w)) := by
  rcases Referral.exec_cases env.referral (c.withCallees (callees env)) w with hsame | hdone
  · rw [show step (.referral env c) w = w from hsame]
    exact h
  · show Treasury.Recorded
      (Referral.exec env.referral (c.withCallees (callees env)) w).store.others.1
    generalize Referral.exec env.referral (c.withCallees (callees env)) w = w' at hdone ⊢
    cases c with
    | init | setTreasury | setRegistry | setTierConfig | setReferrer | register =>
      cases hdone
      exact h
    | accrue =>
      cases hdone with
      | accrue w' maxTiers rewardCap rates hadmin hsigned hpos hmaxTiers hcap hrates heach =>
        obtain ⟨accrued, lifetimeAccrued, events, rfl⟩ := Referral.frame_of_credited heach
        exact h
    | claimRewards others referrer =>
      cases hdone with
      | claimNothing => exact h
      | claimRewards events found x₁ x₂ hsigned hne hfound hok =>
        have hfirst : x₁.1 = treasuryOf w := Referral.fst_of_finds hfound
        by_cases hsite : found = site.treasury
        · subst hsite
          have hpaid := (paid_callees hok).1
          rw [hfirst] at hpaid
          exact h.done (Treasury.distributeReward_done hpaid)
        · have hsecond : x₂.1 = x₁.1 := Referral.fst_of_elsewhere hsite hok
          show Treasury.Recorded x₂.1
          rw [hsecond, hfirst]
          exact h

/-- Whatever is named to whom, every step keeps the balances. -/
theorem kept_step {w : State} (h : Kept w) (s : Act site) : Kept (step s w) := by
  refine ⟨?_, fun r => Referral.readAccrued_nonneg_step s.seen (h.accrued r)⟩
  cases s with
  | referral env c => exact recorded_referral h.recorded env c
  | registry env c => exact h.recorded
  | treasury env c =>
    show Treasury.Recorded (Treasury.exec env.treasury c w.store.others.1)
    rcases Treasury.exec_cases env.treasury c w.store.others.1 with hsame | hdone
    · rw [hsame]
      exact h.recorded
    · exact h.recorded.done hdone

theorem kept_run (tokens : TokenLedger) (acts : List (Act site)) :
    Kept (run step (deployed tokens) acts) :=
  run_induct (P := Kept) (fun _ s h => kept_step h s)
    ⟨Treasury.Recorded.deployed tokens, fun r => (Referral.readAccrued_deployed r _ tokens).ge⟩ acts

/-! ## Every claim is paid once -/

theorem claimed_seen (r : Address) (w : State) (s : Act site) :
    (Referral.claimed r w s.seen).getD 0 = spentOn r (paidClaim w s).toList := by
  cases s with
  | treasury => rfl
  | registry => rfl
  | referral env c =>
    cases c with
    | claimRewards others referrer =>
      show (if referrer = r then
        (Referral.claimRewards env.referral (callees env others) referrer).value w
        else none).getD 0 = spentOn r
          (((Referral.claimRewards env.referral (callees env others) referrer).value w).bind
          fun amount => if amount = 0 then none else some (referrer, amount)).toList
      cases (Referral.claimRewards env.referral (callees env others) referrer).value w with
      | none =>
        rw [ite_self]
        rfl
      | some amount =>
        rw [Option.bind_some]
        by_cases hzero : amount = 0
        · rw [if_pos hzero, hzero]
          split_ifs <;> rfl
        · rw [if_neg hzero, Option.toList_some, spentOn_cons, spentOn_nil, add_zero]
          by_cases hr : referrer = r
          · rw [if_pos hr, if_pos hr.symm, Option.getD_some]
          · rw [if_neg hr, if_neg (Ne.symm hr), Option.getD_none]
    | _ => rfl

/-- What the treasury has paid, and what that leaves of the commissions. -/
structure Settled (paid : List (Address × ℤ)) (w : State) : Prop where
  payments : payments w = paid
  lifetime (r : Address) :
    w.store.own.readLifetimeAccrued r = w.store.own.readAccrued r + spentOn r paid

theorem Settled.step {paid : List (Address × ℤ)} {w : State} (h : Settled paid w)
    (hwired : Wired site w) (s : Act site) :
    Settled (paid ++ (paidClaim w s).toList) (Rewards.step s w) where
  payments := by rw [hwired.payments_step, h.payments]
  lifetime r := by
    obtain ⟨gained, hbooked⟩ := Referral.booked_step r w s.seen
    have haccrued := hbooked.accrued
    rw [claimed_seen] at haccrued
    have hlifetime := h.lifetime r
    show (Referral.suiteStep s.seen w).store.own.readLifetimeAccrued r =
      (Referral.suiteStep s.seen w).store.own.readAccrued r + _
    rw [hbooked.lifetime, haccrued, spentOn_append]
    omega

/-- From deployment on, over every interleaving of calls of the three contracts by anybody, as long
    as no call that changes anything names another contract to them: the payments in the log of the
    treasury are exactly the claims that the referral contract has paid, one for one and in order;
    and what was ever credited to a referrer is what is still due to it and what the treasury has
    paid to it. -/
theorem rewards_exactly_once (site : Site) (tokens : TokenLedger) (acts : List (Act site))
    (hwires : ∀ x ∈ trace step (deployed tokens) acts, step x.2 x.1 = x.1 ∨ Wires x.2) :
    payments (run step (deployed tokens) acts) = yields step paidClaim (deployed tokens) acts ∧
      ∀ r, (run step (deployed tokens) acts).store.own.readLifetimeAccrued r =
        (run step (deployed tokens) acts).store.own.readAccrued r +
          spentOn r (payments (run step (deployed tokens) acts)) := by
  have hsettled : Wired site (run step (deployed tokens) acts) ∧
      Settled (yields step paidClaim (deployed tokens) acts) (run step (deployed tokens) acts) := by
    refine yields_induct (N := fun w s => step s w = w ∨ Wires s)
      (G := fun paid w => Wired site w ∧ Settled paid w) (fun paid w s hs h => ⟨?_, h.2.step h.1 s⟩)
      ⟨wired_deployed site tokens, rfl, fun r => rfl⟩ hwires
    rcases hs with hsame | hs
    · rw [hsame]
      exact h.1
    · exact h.1.step hs
  exact ⟨hsettled.2.payments, fun r => by rw [hsettled.2.lifetime r, hsettled.2.payments]⟩

/-- Three addresses. -/
def sampleSite : Site := ⟨⟨0⟩, ⟨7⟩, ⟨8⟩, by decide⟩

/-- No other contract answers. -/
def noOthers : Referral.Callees Unit where
  getContract _ _ x := (.failed, x)
  distributeReward _ _ _ x := (.failed, x)

/-- `⟨1⟩` initialises the three contracts, names the referral contract to the treasury, the registry
    to the referral contract and the treasury to the registry, and puts 1000 into the rewards; then
    `⟨11⟩` earns 100 and `⟨10⟩` earns 50 by an accrual for `⟨12⟩`. -/
def earningActs : List (Act sampleSite) :=
  [.referral (.signedBy _ 1 ⟨1⟩) (.init ⟨1⟩), .treasury (.signedBy _ 2 ⟨1⟩) (.init ⟨1⟩ 500),
    .registry (.signedBy _ 3 ⟨1⟩) (.init ⟨1⟩),
      .treasury (.signedBy _ 4 ⟨1⟩) (.setReferralContract ⟨1⟩ ⟨0⟩),
    .referral (.signedBy _ 5 ⟨1⟩) (.setRegistry ⟨1⟩ ⟨8⟩),
    .registry (.signedBy _ 6 ⟨1⟩) (.setContract ⟨1⟩ "treasury" ⟨7⟩ 1),
    .treasury (.signedBy _ 7 ⟨1⟩) (.deposit ⟨1⟩ "rewards" 1000),
    .referral (.signedBy _ 8 ⟨1⟩) (.setTierConfig ⟨1⟩ [1000, 500] 2 10000),
    .referral (.signedBy _ 9 ⟨1⟩) (.setReferrer ⟨1⟩ ⟨12⟩ ⟨11⟩),
    .referral (.signedBy _ 10 ⟨1⟩) (.setReferrer ⟨1⟩ ⟨11⟩ ⟨10⟩),
    .referral (.signedBy _ 11 ⟨1⟩) (.accrue ⟨1⟩ ⟨12⟩ 1000)]

theorem earningActs_wires : ∀ s ∈ earningActs, Wires s := by
  simp only [earningActs, List.forall_mem_cons]
  exact ⟨trivial, trivial, trivial, rfl, rfl, fun _ => rfl, trivial, trivial, trivial,
    trivial, trivial, fun _ h => absurd h List.not_mem_nil⟩

/-- `⟨11⟩` claims twice. In between it fails to have its own address set as the treasury. -/
def claimingActs : List (Act sampleSite) :=
  earningActs ++
    [.referral (.signedBy _ 12 ⟨11⟩) (.claimRewards noOthers ⟨11⟩),
      .referral (.signedBy _ 13 ⟨11⟩) (.setTreasury ⟨11⟩ ⟨11⟩),
      .referral (.signedBy _ 14 ⟨11⟩) (.claimRewards noOthers ⟨11⟩)]

/-- It is paid once. -/
theorem rewards_exactly_once_claimed :
    payments (run step (deployed (.ofList [])) claimingActs) = [(⟨11⟩, 100)] := by
  refine (rewards_exactly_once sampleSite (.ofList []) claimingActs fun x hx => ?_).1.trans
    (by decide)
  rw [claimingActs, trace_append] at hx
  rcases List.mem_append.mp hx with hx | hx
  · exact .inr (earningActs_wires x.2 (mem_of_mem_trace hx))
  · simp only [trace_cons, trace_nil, List.mem_cons, List.not_mem_nil, or_false] at hx
    rcases hx with rfl | rfl | rfl
    · exact .inr trivial
    · exact .inl rfl
    · exact .inr trivial

end Rewards

end Trellis
