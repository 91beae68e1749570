import Trellis.Aid.Contract
import Trellis.Lib.Custody
import Trellis.Lib.Holding

/-!
# Aid escrow

The records of the aid contract as claims on what it holds. A pending record stands for its amount
of its token; `aidCustody` compares the sum of these with the balances of the contract.

Results:
* `Inv.step`: the invariant of the reachable states. All records carry the configured token, their
  id as key, a positive amount and a donor other than the contract; there are none before `init`.
* `surplus_step`: a step raises the contract's surplus by what it receives from outside, and by
  nothing else.
* `balance_eq_pending_add_received`: the balance of the configured token in every reachable state.
* `settles_once`: a record changes at most once, on one of its two exits, exactly one of which is
  open while it is pending.
-/

namespace Trellis.Aid

variable {me : Address}

/-- A pending record stands for its amount of its token. -/
def aidHolding : Holding AidRecord Address where
  live r := decide (r.status = .pending)
  kind := AidRecord.token
  amount := AidRecord.amount

/-- The sum of the amounts of the pending records. -/
def totalPending (aids : Table ℕ AidRecord) : ℤ :=
  aids.total fun _ r => if r.status = .pending then r.amount else 0

/-- The balances of the contract against its pending records. -/
def aidCustody (me : Address) : Custody (World Store) Address where
  held w t := w.tokens.balance t me
  owed w t := aidHolding.owed w.store.aids t

/-! ## The invariant -/

/-- What holds of every record. -/
structure RecordOk (me : Address) (token : Option Address) (id : ℕ) (r : AidRecord) : Prop where
  id_eq : r.id = id
  pos : 0 < r.amount
  donor_ne : r.donor ≠ me
  token_eq : token = some r.token

/-- The invariant of the reachable states. -/
structure Inv (me : Address) (w : World Store) : Prop where
  records : w.store.aids.Forall (RecordOk me w.store.token)
  fresh : w.store.isInitialized = false → w.store.token = none

theorem Inv.deployed (tokens : TokenLedger) : Inv me (World.deployed Store.empty tokens) where
  records := Table.Forall.empty _
  fresh := fun _ => rfl

theorem Inv.lookup_eq_none {w : World Store} (h : Inv me w)
    (hnot : w.store.isInitialized = false) (id : ℕ) : w.store.aids.lookup id = none := by
  cases hr : w.store.aids.lookup id with
  | none => rfl
  | some r =>
    have htoken := (h.records id r hr).token_eq
    rw [h.fresh hnot] at htoken
    cases htoken

theorem Inv.move {env : Env me} {w w' : World Store} (h : Inv me w) (hm : Move env w w') :
    Inv me w' := by
  have hfresh : w'.store.initialized = w.store.initialized → w'.store.token = w.store.token →
      w'.store.isInitialized = false → w'.store.token = none := by
    intro hinit htoken hnot
    rw [htoken]
    refine h.fresh ?_
    rwa [Store.isInitialized, hinit] at hnot
  cases hm with
  | quiet haids htoken hinit htokens =>
    exact ⟨by rw [haids, htoken]; exact h.records, hfresh hinit htoken⟩
  | configured hnot hinit haids htokens =>
    refine ⟨fun id r hr => ?_, fun hno => ?_⟩
    · rw [haids, h.lookup_eq_none hnot] at hr
      cases hr
    · rw [hinit] at hno
      cases hno
  | created r hpending hpos hdonor hnew hconf haids htoken hinit htokens =>
    refine ⟨?_, hfresh hinit htoken⟩
    rw [haids, htoken]
    exact h.records.set ⟨rfl, hpos, Env.ne_me_of_signed hdonor, hconf⟩
  | settled id r hr hpending hdue hrecipient haids htoken hinit htokens =>
    refine ⟨?_, hfresh hinit htoken⟩
    obtain ⟨hid, hpos, hdonor, htok⟩ := h.records id r hr
    rw [haids, htoken]
    exact h.records.set ⟨hid, hpos, hdonor, htok⟩
  | refunded id r hr hpending hdue haids htoken hinit htokens =>
    refine ⟨?_, hfresh hinit htoken⟩
    obtain ⟨hid, hpos, hdonor, htok⟩ := h.records id r hr
    rw [haids, htoken]
    exact h.records.set ⟨hid, hpos, hdonor, htok⟩

/-- The invariant speaks of the contract's own storage only. -/
theorem Inv.congr {w w' : World Store} (h : Inv me w) (hs : w'.store = w.store) : Inv me w' :=
  ⟨hs ▸ h.records, hs ▸ h.fresh⟩

theorem Inv.step {w : World Store} (h : Inv me w) (s : Step me Entry) : Inv me (step s w) := by
  cases s with
  | call env c => exact h.move (exec_move env c w)
  | outside env x => exact h.congr (store_outside env x w)

/-! ## Solvency -/

/-- Paying a record out lowers what is owed and what is held by the same amount. -/
theorem surplus_paid {w w' : World Store} {id : ℕ} {r r' : AidRecord} {dst : Address}
    (hr : w.store.aids.lookup id = some r) (hlive : aidHolding.live r = true)
    (hdead : aidHolding.live r' = false) (hdst : dst ≠ me)
    (haids : w'.store.aids = w.store.aids.insert id r')
    (htokens : w'.tokens = w.tokens.move ⟨r.token, me, dst, r.amount⟩) (t : Address) :
    (aidCustody me).surplus w' t = (aidCustody me).surplus w t := by
  have hworth : aidHolding.worth r t = amountIn r.token t r.amount := Holding.worth_of_live hlive t
  simp only [Custody.surplus, aidCustody]
  rw [haids, htokens, Holding.owed_change hr, hworth, Holding.worth_dead hdead, Ledger.balance_move,
    Transfer.net_payout hdst]
  omega

theorem surplus_move {env : Env me} {w w' : World Store} (h : Inv me w) (hm : Move env w w')
    (t : Address) : (aidCustody me).surplus w' t = (aidCustody me).surplus w t := by
  cases hm with
  | quiet haids htoken hinit htokens =>
    simp only [Custody.surplus, aidCustody]
    rw [haids, htokens]
  | configured hnot hinit haids htokens =>
    simp only [Custody.surplus, aidCustody]
    rw [haids, htokens]
  | created r hpending hpos hdonor hnew hconf haids htoken hinit htokens =>
    have hworth : aidHolding.worth r t = amountIn r.token t r.amount :=
      Holding.worth_of_live (by simp [aidHolding, hpending]) t
    simp only [Custody.surplus, aidCustody]
    rw [haids, htokens, Holding.owed_open hnew, hworth, Ledger.balance_move,
      Transfer.net_deposit (Env.ne_me_of_signed hdonor)]
    omega
  | settled id r hr hpending hdue hrecipient haids htoken hinit htokens =>
    exact surplus_paid hr (by simp [aidHolding, hpending]) rfl (Env.ne_me_of_signed hrecipient)
      haids htokens t
  | refunded id r hr hpending hdue haids htoken hinit htokens =>
    exact surplus_paid hr (by simp [aidHolding, hpending]) rfl (h.records id r hr).donor_ne
      haids htokens t

theorem surplus_step {w : World Store} (h : Inv me w) (s : Step me Entry) (t : Address) :
    (aidCustody me).surplus (step s w) t = (aidCustody me).surplus w t + s.received t w := by
  cases s with
  | call env c =>
    rw [Step.received_call, add_zero]
    exact surplus_move h (exec_move env c w) t
  | outside env x =>
    have hheld := balance_outsideTransfer (C := Entry) env x w t
    have hstore := store_outsideTransfer env x w
    simp only [Custody.surplus, aidCustody, step, Step.apply]
    rw [hstore, hheld]
    omega

/-! ## Runs from deployment -/

/-- The state after a run from deployment, on a chain with these token balances. -/
def reached (tokens : TokenLedger) (steps : List (Step me Entry)) : World Store :=
  run step (World.deployed Store.empty tokens) steps

/-- What outside transfers brought to the contract: before its deployment and during the run. -/
def receivedOutside (tokens : TokenLedger) (steps : List (Step me Entry)) (t : Address) : ℤ :=
  tokens.balance t me +
    ((trace step (World.deployed Store.empty tokens) steps).map fun x => x.2.received t x.1).sum

theorem inv_reached (tokens : TokenLedger) (steps : List (Step me Entry)) :
    Inv me (reached tokens steps) :=
  run_induct (fun _ s h => h.step s) (Inv.deployed tokens) steps

/-- The surplus of every token is what outside transfers brought. -/
theorem surplus_reached (tokens : TokenLedger) (steps : List (Step me Entry)) (t : Address) :
    (aidCustody me).surplus (reached tokens steps) t = receivedOutside tokens steps t := by
  have hrun := Custody.surplus_run (c := aidCustody me) (P := Inv me)
    (fun _ s h => h.step s) (fun _ s t h => surplus_step h s t) (Inv.deployed tokens) steps t
  rw [reached, hrun, receivedOutside]
  have hstart : (aidCustody me).surplus (World.deployed Store.empty tokens) t =
      tokens.balance t me := by
    simp [Custody.surplus, aidCustody, World.deployed, Store.empty]
  rw [hstart]

theorem receivedOutside_nonneg {tokens : TokenLedger} (hfunds : ∀ t a, 0 ≤ tokens.balance t a)
    (steps : List (Step me Entry)) (t : Address) : 0 ≤ receivedOutside tokens steps t := by
  refine add_nonneg (hfunds t me) (List.sum_nonneg fun y hy => ?_)
  obtain ⟨x, -, rfl⟩ := List.mem_map.mp hy
  exact Step.received_nonneg t x.1 x.2

/-- With a configured token, the pending records are all in that token. -/
theorem owed_eq_totalPending {w : World Store} (h : Inv me w) {t : Address}
    (ht : w.store.token = some t) :
    aidHolding.owed w.store.aids t = totalPending w.store.aids := by
  refine Table.total_congr fun id r hr => ?_
  have htok : r.token = t := by
    have := (h.records id r hr).token_eq
    rw [ht] at this
    exact (Option.some.inj this).symm
  simp [Holding.worth, aidHolding, htok]

theorem amount_le_balance {tokens : TokenLedger} (hfunds : ∀ t a, 0 ≤ tokens.balance t a)
    {steps : List (Step me Entry)} {id : ℕ} {r : AidRecord}
    (hr : (reached tokens steps).store.aids.lookup id = some r) (hpending : r.status = .pending) :
    r.amount ≤ (reached tokens steps).tokens.balance r.token me := by
  have hsurplus := surplus_reached tokens steps r.token
  have hnonneg := receivedOutside_nonneg hfunds steps r.token
  have hpart := Holding.worth_le_owed (h := aidHolding) (k := r.token)
    (fun id r hr => ((inv_reached tokens steps).records id r hr).pos.le) hr
  have hworth : aidHolding.worth r r.token = r.amount := by
    rw [Holding.worth_of_live (by simp [aidHolding, hpending])]
    exact if_pos rfl
  simp only [Custody.surplus, aidCustody] at hsurplus
  omega

theorem claimAid_ne_funds {tokens : TokenLedger} (hfunds : ∀ t a, 0 ≤ tokens.balance t a)
    (steps : List (Step me Entry)) (env : Env me) (id : ℕ) (recipient : Address)
    (w' : World Store) :
    claimAid env id recipient (reached tokens steps) ≠ .fail (.trap .funds) w' := by
  intro h
  simp [claimAid, transfer_funds] at h
  obtain ⟨-, -, r, hr, ⟨hns, hnr⟩, -, -, -, hlow, -⟩ := h
  have hle := amount_le_balance hfunds hr (pending_of_not hns hnr)
  omega

theorem refundAid_ne_funds {tokens : TokenLedger} (hfunds : ∀ t a, 0 ≤ tokens.balance t a)
    (steps : List (Step me Entry)) (env : Env me) (id : ℕ) (w' : World Store) :
    refundAid env id (reached tokens steps) ≠ .fail (.trap .funds) w' := by
  intro h
  simp [refundAid, transfer_funds] at h
  obtain ⟨r, hr, hns, hnr, -, -, hlow, -⟩ := h
  have hle := amount_le_balance hfunds hr (pending_of_not hns hnr)
  omega

/-- In every reachable state the balance of the configured token is the sum of the pending amounts
    plus what outside transfers brought; so no claim or refund that passes its checks lacks funds.
-/
theorem balance_eq_pending_add_received (tokens : TokenLedger)
    (hfunds : ∀ t a, 0 ≤ tokens.balance t a) (steps : List (Step me Entry)) :
    (∀ t, (reached tokens steps).store.token = some t →
      (reached tokens steps).tokens.balance t me =
        totalPending (reached tokens steps).store.aids + receivedOutside tokens steps t) ∧
    (∀ (env : Env me) id recipient w',
      claimAid env id recipient (reached tokens steps) ≠ .fail (.trap .funds) w') ∧
    (∀ (env : Env me) id w', refundAid env id (reached tokens steps) ≠
      .fail (.trap .funds) w') := by
  refine ⟨fun t ht => ?_, claimAid_ne_funds hfunds steps, refundAid_ne_funds hfunds steps⟩
  have hsurplus := surplus_reached tokens steps t
  rw [← owed_eq_totalPending (inv_reached tokens steps) ht]
  simp only [Custody.surplus, aidCustody] at hsurplus
  omega

/-- The contract `⟨0⟩` is configured, and `⟨1⟩` escrows 60 of its 100 for `⟨2⟩`. -/
def createdRun : List (Step ⟨0⟩ Entry) :=
  [.call (.signedBy ⟨0⟩ 1 1 [⟨5⟩]) (.init ⟨5⟩ ⟨6⟩ ⟨9⟩ 3600),
    .call (.signedBy ⟨0⟩ 2 2 [⟨1⟩]) (.createAid ⟨1⟩ ⟨2⟩ 60 10)]

theorem balance_eq_pending_add_received_created :
    (reached (.ofList [(⟨9⟩, ⟨1⟩, 100)]) createdRun).tokens.balance ⟨9⟩ ⟨0⟩ =
      totalPending (reached (.ofList [(⟨9⟩, ⟨1⟩, 100)]) createdRun).store.aids +
        receivedOutside (.ofList [(⟨9⟩, ⟨1⟩, 100)]) createdRun ⟨9⟩ :=
  (balance_eq_pending_add_received _ (Ledger.ofList_nonneg (by decide)) createdRun).1 _ (by decide)

/-! ## Each record is settled once -/

/-- `r'` is the record `r`, or `r` was pending and `r'` is `r` after one of its two exits. -/
def AidRecord.Later (r r' : AidRecord) : Prop :=
  r' = r ∨ r.status = .pending ∧
    (r' = { r with status := .settled } ∨ r' = { r with status := .refunded })

theorem AidRecord.Later.refl (r : AidRecord) : r.Later r := .inl rfl

theorem AidRecord.Later.trans {r r' r'' : AidRecord} (h : r.Later r') (h' : r'.Later r'') :
    r.Later r'' := by
  rcases h with rfl | ⟨hpending, hexit⟩
  · exact h'
  · rcases h' with rfl | ⟨hpending', -⟩
    · exact .inr ⟨hpending, hexit⟩
    · -- a record that took an exit is no longer pending
      rcases hexit with rfl | rfl <;> cases hpending'

theorem Move.evolves {env : Env me} {w w' : World Store} (hm : Move env w w') :
    Table.Evolves AidRecord.Later w.store.aids w'.store.aids := by
  cases hm with
  | quiet haids => rw [haids]; exact Table.Evolves.refl AidRecord.Later.refl _
  | configured hnot hinit haids => rw [haids]; exact Table.Evolves.refl AidRecord.Later.refl _
  | created r hpending hpos hdonor hnew hconf haids =>
    rw [haids]
    exact Table.Evolves.set_new AidRecord.Later.refl hnew r
  | settled id r hr hpending hdue hrecipient haids =>
    rw [haids]
    exact Table.Evolves.set_old AidRecord.Later.refl hr (.inr ⟨hpending, .inl rfl⟩)
  | refunded id r hr hpending hdue haids =>
    rw [haids]
    exact Table.Evolves.set_old AidRecord.Later.refl hr (.inr ⟨hpending, .inr rfl⟩)

theorem evolves_run (tokens : TokenLedger) (steps more : List (Step me Entry)) :
    Table.Evolves AidRecord.Later (reached tokens steps).store.aids
      (reached tokens (steps ++ more)).store.aids := by
  rw [reached, reached, run_append]
  refine Table.Evolves.run (P := fun _ => True) (fun w : World Store => w.store.aids)
    AidRecord.Later.refl (fun _ _ _ => AidRecord.Later.trans) (fun _ _ _ => trivial)
    (fun w s _ => ?_) trivial more
  cases s with
  | call env c => exact (exec_move env c w).evolves
  | outside env x =>
    rw [store_outside]
    exact Table.Evolves.refl AidRecord.Later.refl _

/-- The step from `w` to `w'` pays the record `r` out: in full, and to the party whose turn it is at
    the ledger sequence of the call. -/
def PaysOut (env : Env me) (w w' : World Store) (r r' : AidRecord) : Prop :=
  r.status = .pending ∧
    ((r' = { r with status := .settled } ∧ env.sequence ≤ r.expiryLedger ∧
        w'.tokens = w.tokens.move ⟨r.token, me, r.recipient, r.amount⟩ ∧ r.recipient ≠ me) ∨
      (r' = { r with status := .refunded } ∧ r.expiryLedger < env.sequence ∧
        w'.tokens = w.tokens.move ⟨r.token, me, r.donor, r.amount⟩ ∧ r.donor ≠ me))

theorem Move.paysOut {env : Env me} {w w' : World Store} (h : Inv me w) (hm : Move env w w')
    {id : ℕ} {r r' : AidRecord} (hr : w.store.aids.lookup id = some r)
    (hr' : w'.store.aids.lookup id = some r') (hne : r' ≠ r) : PaysOut env w w' r r' := by
  have hsame : w'.store.aids = w.store.aids → PaysOut env w w' r r' := by
    intro haids
    rw [haids, hr] at hr'
    exact absurd (Option.some.inj hr').symm hne
  cases hm with
  | quiet haids => exact hsame haids
  | configured hnot hinit haids => exact hsame haids
  | created r₀ hpending hpos hdonor hnew hconf haids =>
    rw [haids] at hr'
    obtain ⟨rfl, -⟩ := Table.eq_of_lookup_set_ne hr hr' hne
    rw [hr] at hnew
    cases hnew
  | settled id₀ r₀ hr₀ hpending hdue hrecipient haids htoken hinit htokens =>
    rw [haids] at hr'
    obtain ⟨rfl, rfl⟩ := Table.eq_of_lookup_set_ne hr hr' hne
    obtain rfl : r₀ = r := Option.some.inj (hr₀.symm.trans hr)
    exact ⟨hpending, .inl ⟨rfl, hdue, htokens, Env.ne_me_of_signed hrecipient⟩⟩
  | refunded id₀ r₀ hr₀ hpending hdue haids htoken hinit htokens =>
    rw [haids] at hr'
    obtain ⟨rfl, rfl⟩ := Table.eq_of_lookup_set_ne hr hr' hne
    obtain rfl : r₀ = r := Option.some.inj (hr₀.symm.trans hr)
    exact ⟨hpending, .inr ⟨rfl, hdue, htokens, (h.records id r₀ hr).donor_ne⟩⟩

theorem Move.pending_of_new {env : Env me} {w w' : World Store} (hm : Move env w w') {id : ℕ}
    {r' : AidRecord} (hr : w.store.aids.lookup id = none)
    (hr' : w'.store.aids.lookup id = some r') : r'.status = .pending := by
  cases hm with
  | quiet haids => rw [haids, hr] at hr'; cases hr'
  | configured hnot hinit haids => rw [haids, hr] at hr'; cases hr'
  | created r₀ hpending hpos hdonor hnew hconf haids =>
    rw [haids] at hr'
    obtain ⟨-, rfl⟩ := Table.eq_of_lookup_set_new hr hr'
    exact hpending
  | settled id₀ r₀ hr₀ hpending hdue hrecipient haids =>
    rw [haids] at hr'
    obtain ⟨rfl, -⟩ := Table.eq_of_lookup_set_new hr hr'
    rw [hr] at hr₀
    cases hr₀
  | refunded id₀ r₀ hr₀ hpending hdue haids =>
    rw [haids] at hr'
    obtain ⟨rfl, -⟩ := Table.eq_of_lookup_set_new hr hr'
    rw [hr] at hr₀
    cases hr₀

/-- In a reachable state, for a token that makes every payment the balance covers: a pending record
    can be claimed by its recipient up to the expiry ledger, and refunded after it. -/
theorem exits_reached {tokens : TokenLedger} (hfunds : ∀ t a, 0 ≤ tokens.balance t a)
    (steps : List (Step me Entry)) {id : ℕ} {r : AidRecord}
    (hr : (reached tokens steps).store.aids.lookup id = some r) (hpending : r.status = .pending)
    (env : Env me) (hadmits : ∀ l x, env.admits l x = true) :
    ((reached tokens steps).shared.paused.getD false = false → env.signed r.recipient = true →
        ((claimAid env id r.recipient).Succeeds (reached tokens steps) ↔
          env.sequence ≤ r.expiryLedger)) ∧
      ((refundAid env id).Succeeds (reached tokens steps) ↔ r.expiryLedger < env.sequence) := by
  have hpos := ((inv_reached tokens steps).records id r hr).pos
  have hcovered := amount_le_balance hfunds hr hpending
  have hallows : ∀ dst, env.Allows (reached tokens steps).tokens ⟨r.token, me, dst, r.amount⟩ :=
    fun dst => ⟨hpos.le, .inl rfl, hcovered, hadmits _ _⟩
  refine ⟨fun hactive hsigned => ?_, ?_⟩
  · rw [claimAid_succeeds hr hpending]
    simp [hactive, hsigned, hallows]
  · rw [refundAid_succeeds hr hpending]
    simp [hallows]

/-- The life of a record: from every reachable state on it keeps all its fields but the status,
    which changes at most once, to `settled` or to `refunded`; records appear as pending; a step
    that changes one pays it out; and while it is pending exactly one of its exits is open. -/
theorem settles_once (tokens : TokenLedger) (hfunds : ∀ t a, 0 ≤ tokens.balance t a)
    (steps : List (Step me Entry)) (id : ℕ) :
    (∀ r, (reached tokens steps).store.aids.lookup id = some r → ∀ more,
      ∃ r', (reached tokens (steps ++ more)).store.aids.lookup id = some r' ∧ r.Later r') ∧
    (∀ (s : Step me Entry) r', (reached tokens steps).store.aids.lookup id = none →
      (step s (reached tokens steps)).store.aids.lookup id = some r' → r'.status = .pending) ∧
    (∀ (s : Step me Entry) r r', (reached tokens steps).store.aids.lookup id = some r →
      (step s (reached tokens steps)).store.aids.lookup id = some r' → r' ≠ r →
      ∃ env c, s = .call env c ∧
        PaysOut env (reached tokens steps) (step s (reached tokens steps)) r r') ∧
    (∀ r, (reached tokens steps).store.aids.lookup id = some r → r.status = .pending →
      ∀ env : Env me, (∀ l x, env.admits l x = true) →
        ((reached tokens steps).shared.paused.getD false = false →
          env.signed r.recipient = true →
          ((claimAid env id r.recipient).Succeeds (reached tokens steps) ↔
            env.sequence ≤ r.expiryLedger)) ∧
        ((refundAid env id).Succeeds (reached tokens steps) ↔ r.expiryLedger < env.sequence)) := by
  refine ⟨fun r hr more => evolves_run tokens steps more id r hr, fun s r' hr hr' => ?_,
    fun s r r' hr hr' hne => ?_,
    fun r hr hpending env hadmits => exits_reached hfunds steps hr hpending env hadmits⟩
  · cases s with
    | call env c => exact (exec_move env c _).pending_of_new hr hr'
    | outside env x =>
      rw [store_outside, hr] at hr'
      cases hr'
  · cases s with
    | call env c =>
      exact ⟨env, c, rfl, (exec_move env c _).paysOut (inv_reached tokens steps) hr hr' hne⟩
    | outside env x =>
      rw [store_outside, hr] at hr'
      exact absurd (Option.some.inj hr').symm hne

/-- After the run `createdRun` the recipient's exit is open at the ledger sequence 10. -/
theorem settles_once_created :
    (claimAid (Env.signedBy ⟨0⟩ 10 10 [⟨2⟩]) 0 ⟨2⟩).Succeeds
      (reached (.ofList [(⟨9⟩, ⟨1⟩, 100)]) createdRun) :=
  (((settles_once _ (Ledger.ofList_nonneg (by decide)) createdRun 0).2.2.2
    ⟨0, ⟨1⟩, ⟨2⟩, ⟨9⟩, 60, 10, .pending⟩ (by decide) rfl (Env.signedBy ⟨0⟩ 10 10 [⟨2⟩])
    fun _ _ => rfl).1 (by decide) (by decide)).mpr (by decide)

/-! ## A run with several records -/

/-- The donors `⟨1⟩` and `⟨3⟩` hold 100 and 50. -/
def donorsFunds : TokenLedger := .ofList [(⟨9⟩, ⟨1⟩, 100), (⟨9⟩, ⟨3⟩, 50)]

/-- The two donors make three records, and the one of `⟨3⟩` is claimed. -/
def donorsRun : List (Step ⟨0⟩ Entry) :=
  [.call (.signedBy ⟨0⟩ 1 1 [⟨5⟩]) (.init ⟨5⟩ ⟨6⟩ ⟨9⟩ 3600),
    .call (.signedBy ⟨0⟩ 2 2 [⟨1⟩]) (.createAid ⟨1⟩ ⟨2⟩ 60 10),
    .call (.signedBy ⟨0⟩ 3 3 [⟨3⟩]) (.createAid ⟨3⟩ ⟨2⟩ 5 10),
    .call (.signedBy ⟨0⟩ 4 4 [⟨1⟩]) (.createAid ⟨1⟩ ⟨4⟩ 20 12),
    .call (.signedBy ⟨0⟩ 5 5 [⟨2⟩]) (.claimAid 1 ⟨2⟩)]

/-- The records of this run. -/
theorem aids_donors : (reached donorsFunds donorsRun).store.aids =
    ((((∅ : Table ℕ AidRecord).insert 0 ⟨0, ⟨1⟩, ⟨2⟩, ⟨9⟩, 60, 10, .pending⟩).insert 1
      ⟨1, ⟨3⟩, ⟨2⟩, ⟨9⟩, 5, 10, .pending⟩).insert 2 ⟨2, ⟨1⟩, ⟨4⟩, ⟨9⟩, 20, 12, .pending⟩).insert 1
        ⟨1, ⟨3⟩, ⟨2⟩, ⟨9⟩, 5, 10, .settled⟩ := rfl

end Trellis.Aid
