import Trellis.Aid.Mirror

/-!
# Who may change the aid contract

Each part of the storage belongs to somebody: a new record to its donor, the settlement of a record
to its recipient, its refund to its donor or to the admin, the settings to the admin. `refund_aid`
says so (contracts/aid-contract/src/lib.rs:308) and asks for no signature.

Results:
* `settings_step`: a step that changes the settings is signed by the admin, or is the first
  `initialize`.
* `authorised_step_iff`: a step is signed by the party entitled to it exactly when a refund that it
  makes is.
* `authorised_iff`: the same over every run.
-/

namespace Trellis.Aid

open Exec

variable {me : Address}

/-! ## The entitled parties -/

/-- The step is a call that the address has signed. -/
def SignedBy (s : Step me Entry) (a : Address) : Prop :=
  ∃ env c, s = .call env c ∧ env.signed a = true

/-- The step is a call that the stored admin has signed. -/
def SignedByAdmin (w : World Store) (s : Step me Entry) : Prop :=
  ∃ admin, w.shared.admin = some admin ∧ SignedBy s admin

/-- The step initialises the contract, signed by the address that it makes admin. -/
def Initializes (w : World Store) (s : Step me Entry) (w' : World Store) : Prop :=
  w.store.isInitialized = false ∧ w'.store.isInitialized = true ∧
    ∃ env admin treasury token secs, s = .call env (.init admin treasury token secs) ∧
      env.signed admin = true ∧ w'.shared.admin = some admin

/-- The records change with the signature of the party entitled to the change. -/
structure RecordsAuthorised (w : World Store) (s : Step me Entry) (w' : World Store) : Prop where
  created (id : ℕ) (r : AidRecord) : w.store.aids.lookup id = none →
    w'.store.aids.lookup id = some r → SignedBy s r.donor
  settled (id : ℕ) (r r' : AidRecord) : w.store.aids.lookup id = some r → r.status = .pending →
    w'.store.aids.lookup id = some r' → r'.status = .settled → SignedBy s r.recipient
  refunded (id : ℕ) (r r' : AidRecord) : w.store.aids.lookup id = some r → r.status = .pending →
    w'.store.aids.lookup id = some r' → r'.status = .refunded →
    SignedBy s r.donor ∨ SignedByAdmin w s
  /-- A record changes in no other way. -/
  kept (id : ℕ) (r : AidRecord) : w.store.aids.lookup id = some r →
    ∃ r', w'.store.aids.lookup id = some r' ∧ r.Later r'
  /-- The counter and the copies change with a new record. -/
  counted : w'.store.aidCounter ≠ w.store.aidCounter ∨ w'.store.keyAids ≠ w.store.keyAids →
    ∃ id r, w.store.aids.lookup id = none ∧ w'.store.aids.lookup id = some r

/-- The settings change with the signature of the admin. -/
structure SettingsAuthorised (w : World Store) (s : Step me Entry) (w' : World Store) : Prop where
  configured : w'.store.treasury ≠ w.store.treasury ∨
    w'.store.defaultExpiry ≠ w.store.defaultExpiry → SignedByAdmin w s ∨ Initializes w s w'
  paused : w'.shared.paused ≠ w.shared.paused → SignedByAdmin w s
  owned : w'.shared.admin ≠ w.shared.admin ∨ w'.store.token ≠ w.store.token ∨
    w'.store.initialized ≠ w.store.initialized → Initializes w s w'
  /-- Nothing else in the storage changes. -/
  rest : w'.store.donorIndex = w.store.donorIndex ∧
    w'.store.recipientIndex = w.store.recipientIndex ∧
    w'.shared = { w.shared with admin := w'.shared.admin, paused := w'.shared.paused }

/-- What the step changes, it changes with the signature of the party entitled to it. -/
structure Authorised (w : World Store) (s : Step me Entry) (w' : World Store) : Prop where
  records : RecordsAuthorised w s w'
  settings : SettingsAuthorised w s w'

/-- A `refund_aid` that passes its checks is signed by the donor of the record or by the stored
    admin. -/
def RefundEntitled (w : World Store) : Step me Entry → Prop
  | .call env (.refundAid id) => ∀ r, w.store.aids.lookup id = some r → r.status = .pending →
      r.expiryLedger < env.sequence → env.Allows w.tokens ⟨r.token, me, r.donor, r.amount⟩ →
      env.signed r.donor = true ∨ ∃ admin, w.shared.admin = some admin ∧ env.signed admin = true
  | _ => True

/-- The run changes everything with the signature of the party entitled to the change, and the
    admin, the token and the initialised mark only once. -/
structure RunAuthorised (tokens : TokenLedger) (steps : List (Step me Entry)) : Prop where
  signed : ∀ x ∈ trace step (World.deployed Store.empty tokens) steps,
    Authorised x.1 x.2 (step x.2 x.1)
  once : ∀ pre post, steps = pre ++ post → (reached tokens pre).store.isInitialized = true →
    (reached tokens steps).shared.admin = (reached tokens pre).shared.admin ∧
      (reached tokens steps).store.token = (reached tokens pre).store.token ∧
      (reached tokens steps).store.initialized = (reached tokens pre).store.initialized

/-! ## The settings -/

section

variable {w w' : World Store} {s : Step me Entry}

theorem SettingsAuthorised.of_same (htreasury : w'.store.treasury = w.store.treasury)
    (hexpiry : w'.store.defaultExpiry = w.store.defaultExpiry)
    (htoken : w'.store.token = w.store.token) (hinit : w'.store.initialized = w.store.initialized)
    (hindexes : w'.store.donorIndex = w.store.donorIndex ∧
      w'.store.recipientIndex = w.store.recipientIndex)
    (hshared : w'.shared = w.shared) : SettingsAuthorised w s w' := by
  constructor
  · rintro (h | h)
    · exact absurd htreasury h
    · exact absurd hexpiry h
  · intro h
    exact absurd (congrArg SharedStore.paused hshared) h
  · rintro (h | h | h)
    · exact absurd (congrArg SharedStore.admin hshared) h
    · exact absurd htoken h
    · exact absurd hinit h
  · rw [hshared]
    exact ⟨hindexes.1, hindexes.2, rfl⟩

/-- Every step that changes the settings is signed by the admin, or is the first `initialize`. -/
theorem settings_step (w : World Store) (s : Step me Entry) :
    SettingsAuthorised w s (step s w) := by
  rcases step_cases s w with ⟨env, x, hstep⟩ | hstep | ⟨env, c, w', rfl, hstep, hdone⟩
  · rw [hstep]
    have hstore := store_outsideTransfer env x w
    have hshared := shared_outsideTransfer env x w
    exact .of_same (by rw [hstore]) (by rw [hstore]) (by rw [hstore]) (by rw [hstore])
      (by rw [hstore]; exact ⟨rfl, rfl⟩) hshared
  · rw [hstep]
    exact .of_same rfl rfl rfl rfl ⟨rfl, rfl⟩ rfl
  · rw [hstep]
    cases hdone with
    | init events hnot hsigned =>
      refine ⟨fun _ => .inr ?_, fun h => absurd rfl h, fun _ => ?_, rfl, rfl, rfl⟩
      · exact ⟨hnot, rfl, env, _, _, _, _, rfl, hsigned, rfl⟩
      · exact ⟨hnot, rfl, env, _, _, _, _, rfl, hsigned, rfl⟩
    | updateConfig hadmin hsigned =>
      refine ⟨fun _ => .inl ⟨_, hadmin, env, _, rfl, hsigned⟩, fun h => absurd rfl h, ?_,
        rfl, rfl, rfl⟩
      simp
    | setPaused events hadmin hsigned =>
      refine ⟨?_, fun _ => ⟨_, hadmin, env, _, rfl, hsigned⟩, ?_, rfl, rfl, rfl⟩
      · simp
      · simp
    | createAid => exact .of_same rfl rfl rfl rfl ⟨rfl, rfl⟩ rfl
    | claimAid => exact .of_same rfl rfl rfl rfl ⟨rfl, rfl⟩ rfl
    | refundAid => exact .of_same rfl rfl rfl rfl ⟨rfl, rfl⟩ rfl

/-! ## The records -/

theorem RecordsAuthorised.of_same (haids : w'.store.aids = w.store.aids)
    (hcounter : w'.store.aidCounter = w.store.aidCounter)
    (hcopies : w'.store.keyAids = w.store.keyAids) : RecordsAuthorised w s w' := by
  have hsame : ∀ {id : ℕ} {r r' : AidRecord}, w.store.aids.lookup id = some r →
      w'.store.aids.lookup id = some r' → r'.status = r.status := by
    intro id r r' hr hr'
    rw [haids, hr] at hr'
    rw [Option.some.inj hr']
  constructor
  · intro id r hnone hr
    rw [haids, hnone] at hr
    cases hr
  · intro id r r' hr hpending hr' hsettled
    rw [hsame hr hr', hpending] at hsettled
    cases hsettled
  · intro id r r' hr hpending hr' hrefunded
    rw [hsame hr hr', hpending] at hrefunded
    cases hrefunded
  · intro id r hr
    rw [haids]
    exact ⟨r, hr, AidRecord.Later.refl r⟩
  · rintro (h | h)
    · exact absurd hcounter h
    · exact absurd hcopies h

theorem RecordsAuthorised.of_insert {n : ℕ} {r₁ : AidRecord}
    (haids : w'.store.aids = w.store.aids.insert n r₁)
    (hnew : w.store.aids.lookup n = none → SignedBy s r₁.donor)
    (hold : ∀ r₀, w.store.aids.lookup n = some r₀ → r₀.Later r₁ ∧
      (r₁.status = .settled → SignedBy s r₀.recipient) ∧
      (r₁.status = .refunded → SignedBy s r₀.donor ∨ SignedByAdmin w s))
    (hcounted : w'.store.aidCounter ≠ w.store.aidCounter ∨ w'.store.keyAids ≠ w.store.keyAids →
      w.store.aids.lookup n = none) : RecordsAuthorised w s w' := by
  -- a record whose status has changed is the written one
  have hwritten : ∀ {id : ℕ} {r r' : AidRecord}, w.store.aids.lookup id = some r →
      w'.store.aids.lookup id = some r' → r'.status ≠ r.status →
      w.store.aids.lookup n = some r ∧ r' = r₁ := by
    intro id r r' hr hr' hne
    rw [haids] at hr'
    obtain ⟨rfl, rfl⟩ := Table.eq_of_lookup_set_ne hr hr' fun h => hne (by rw [h])
    exact ⟨hr, rfl⟩
  constructor
  · intro id r hnone hr
    rw [haids] at hr
    obtain ⟨rfl, rfl⟩ := Table.eq_of_lookup_set_new hnone hr
    exact hnew hnone
  · intro id r r' hr hpending hr' hsettled
    obtain ⟨hn, rfl⟩ := hwritten hr hr' (by rw [hpending, hsettled]; decide)
    exact (hold r hn).2.1 hsettled
  · intro id r r' hr hpending hr' hrefunded
    obtain ⟨hn, rfl⟩ := hwritten hr hr' (by rw [hpending, hrefunded]; decide)
    exact (hold r hn).2.2 hrefunded
  · intro id r hr
    rw [haids, Table.lookup_set]
    split_ifs with hid
    · rw [hid] at hr
      exact ⟨r₁, rfl, (hold r hr).1⟩
    · exact ⟨r, hr, AidRecord.Later.refl r⟩
  · intro hchanged
    refine ⟨n, r₁, hcounted hchanged, ?_⟩
    rw [haids, Table.lookup_set, if_pos rfl]

theorem records_done {env : Env me} {c : Entry} (hdone : Done env w c w')
    (h : RefundEntitled w (.call env c)) : RecordsAuthorised w (.call env c) w' := by
  cases hdone with
  | init => exact .of_same rfl rfl rfl
  | updateConfig => exact .of_same rfl rfl rfl
  | setPaused => exact .of_same rfl rfl rfl
  | createAid r events hr hsigned hpos hexpiry hnew hconf hallows =>
    refine .of_insert rfl (fun _ => ?_) (fun r₀ hr₀ => ?_) fun _ => hnew
    · rw [congrArg AidRecord.donor hr]
      exact ⟨env, _, rfl, hsigned⟩
    · rw [hnew] at hr₀
      cases hr₀
  | claimAid r events hactive hsigned hr hpending hdue hallows =>
    refine .of_insert rfl (fun hnone => ?_) (fun r₀ hr₀ => ?_) fun hchanged => ?_
    · rw [hnone] at hr
      cases hr
    · obtain rfl := Option.some.inj (hr.symm.trans hr₀)
      exact ⟨.inr ⟨hpending, .inl rfl⟩, (fun _ => ⟨env, _, rfl, hsigned⟩), (fun h => by cases h)⟩
    · simp at hchanged
  | refundAid r events hr hpending hdue hallows =>
    refine .of_insert rfl (fun hnone => ?_) (fun r₀ hr₀ => ?_) fun hchanged => ?_
    · rw [hnone] at hr
      cases hr
    · obtain rfl := Option.some.inj (hr.symm.trans hr₀)
      refine ⟨.inr ⟨hpending, .inr rfl⟩, (fun h => by cases h), fun _ => ?_⟩
      rcases h r hr hpending hdue hallows with hdonor | ⟨admin, hadmin, hsigned⟩
      · exact .inl ⟨env, _, rfl, hdonor⟩
      · exact .inr ⟨admin, hadmin, env, _, rfl, hsigned⟩
    · simp at hchanged

/-- A refund that goes through is authorised only with the signature of the donor or of the
    admin. -/
theorem refundEntitled_of_authorised (h : RecordsAuthorised w s (step s w)) :
    RefundEntitled w s := by
  cases s with
  | outside => trivial
  | call env c =>
    cases c with
    | refundAid id =>
      intro r hr hpending hdue hallows
      obtain ⟨u, w', hok⟩ := (refundAid_succeeds hr hpending).mpr ⟨hdue, hallows⟩
      have hstep : step (.call env (.refundAid id)) w = w' := commit_of_ok hok
      rw [hstep] at h
      cases refundAid_done hok with
      | refundAid r₀ events hr₀ =>
        obtain rfl := Option.some.inj (hr₀.symm.trans hr)
        have hafter : (w.store.aids.insert id { r₀ with status := .refunded }).lookup id =
            some { r₀ with status := .refunded } := by
          rw [Table.lookup_set, if_pos rfl]
        rcases h.refunded id r₀ _ hr hpending hafter rfl with hsigned | ⟨admin, hadmin, hsigned⟩
        · obtain ⟨env', c', hc, hdonor⟩ := hsigned
          cases hc
          exact .inl hdonor
        · obtain ⟨env', c', hc, hsigned⟩ := hsigned
          cases hc
          exact .inr ⟨admin, hadmin, hsigned⟩
    | _ => trivial

end

/-- A step is signed by the party entitled to what it changes exactly when a refund that it makes is
    signed by the donor or by the admin. -/
theorem authorised_step_iff (w : World Store) (s : Step me Entry) :
    Authorised w s (step s w) ↔ RefundEntitled w s := by
  constructor
  · intro h
    exact refundEntitled_of_authorised h.records
  · intro h
    refine ⟨?_, settings_step w s⟩
    rcases step_cases s w with ⟨env, x, hstep⟩ | hstep | ⟨env, c, w', rfl, hstep, hdone⟩
    · rw [hstep]
      have hstore := store_outsideTransfer env x w
      exact .of_same (by rw [hstore]) (by rw [hstore]) (by rw [hstore])
    · rw [hstep]
      exact .of_same rfl rfl rfl
    · rw [hstep]
      exact records_done hdone h

/-! ## Every run -/

theorem owned_run {w : World Store} (h : w.store.isInitialized = true)
    (steps : List (Step me Entry)) :
    (run step w steps).shared.admin = w.shared.admin ∧
      (run step w steps).store.token = w.store.token ∧
      (run step w steps).store.initialized = w.store.initialized := by
  refine run_induct (P := fun w' : World Store => w'.shared.admin = w.shared.admin ∧
    w'.store.token = w.store.token ∧ w'.store.initialized = w.store.initialized) (fun w' s hw => ?_)
    ⟨rfl, rfl, rfl⟩ steps
  have hmarked : w'.store.isInitialized = true := by
    unfold Store.isInitialized
    rw [hw.2.2]
    exact h
  have howned := (settings_step w' s).owned
  rw [← hw.1, ← hw.2.1, ← hw.2.2]
  by_contra hchanged
  have hinit := howned (by tauto)
  rw [hinit.1] at hmarked
  cases hmarked

/-- Over every run, every step is signed by the party entitled to what it changes exactly when every
    refund that goes through is signed by the donor or by the admin. -/
theorem authorised_iff (tokens : TokenLedger) (steps : List (Step me Entry)) :
    RunAuthorised tokens steps ↔
      ∀ x ∈ trace step (World.deployed Store.empty tokens) steps, RefundEntitled x.1 x.2 := by
  constructor
  · intro h x hx
    exact (authorised_step_iff x.1 x.2).mp (h.signed x hx)
  · intro h
    constructor
    · intro x hx
      exact (authorised_step_iff x.1 x.2).mpr (h x hx)
    · rintro pre post rfl hinit
      unfold reached
      rw [run_append]
      exact owned_run hinit post

/-- After the expiry ledger of the aid, a stranger calls `refund_aid`. -/
def strangerRefund : List (Step ⟨0⟩ Entry) :=
  createdRun ++ [.call (.signedBy ⟨0⟩ 11 11 [⟨7⟩]) (.refundAid 0)]

/-- The record is refunded, though neither the donor `⟨1⟩` nor the admin `⟨5⟩` has signed. -/
theorem not_authorised :
    (reached (.ofList [(⟨9⟩, ⟨1⟩, 100)]) strangerRefund).shared.admin = some ⟨5⟩ ∧
      ((reached (.ofList [(⟨9⟩, ⟨1⟩, 100)]) strangerRefund).store.aids.lookup 0).map
        (fun r => (r.donor, r.status)) = some (⟨1⟩, .refunded) ∧
      ¬ RunAuthorised (.ofList [(⟨9⟩, ⟨1⟩, 100)]) strangerRefund := by
  refine ⟨by decide, by decide, fun h => ?_⟩
  have hsigned := h.signed (reached (.ofList [(⟨9⟩, ⟨1⟩, 100)]) createdRun,
    .call (.signedBy ⟨0⟩ 11 11 [⟨7⟩]) (.refundAid 0)) (mem_trace_iff.mpr ⟨createdRun, [], rfl, rfl⟩)
  rcases hsigned.records.refunded 0 ⟨0, ⟨1⟩, ⟨2⟩, ⟨9⟩, 60, 10, .pending⟩
    ⟨0, ⟨1⟩, ⟨2⟩, ⟨9⟩, 60, 10, .refunded⟩ (by decide) rfl (by decide) rfl with hdonor | hadmin
  · obtain ⟨env, c, hc, hdonor⟩ := hdonor
    cases hc
    revert hdonor
    decide
  · obtain ⟨admin, hadmin, env, c, hc, hsigned⟩ := hadmin
    have hfive : some admin = some (⟨5⟩ : Address) := hadmin.symm.trans (by decide)
    obtain rfl := Option.some.inj hfive
    cases hc
    revert hsigned
    decide

end Trellis.Aid
