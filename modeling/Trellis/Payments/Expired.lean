import Trellis.Payments.Solvency
import Trellis.Shared.Escrow

/-!
# Escrows of the payments contract after their expiry

After the expiry ledger only the depositor may trigger a refund (shared/src/payments.rs:463–464).
`refund_escrow` leaves this to its callers, and `refund_escrow_entry` is for the admin.

Results:
* `Kept.step`: what holds of the records in every reachable state.
* `refundEscrowEntry_succeeds`: which call refunds an escrow.
* `belongs_iff`: in every reachable state, an active escrow belongs to its depositor after its
  expiry exactly when the depositor is the admin and the contract holds the amount in its configured
  token.
-/

namespace Trellis.Payments

open Exec

variable {me : Address}

/-! ## What a depositor may expect -/

/-- The step from `w` to `w'` gives the deposit of the escrow back. -/
structure Refunds (me : Address) (w w' : World Store) (id : ℕ) (r : EscrowRecord) : Prop where
  record : w'.shared.escrows.lookup id = some { r with state := .refunded }
  paid : w'.tokens = w.tokens.move ⟨r.token, me, r.depositor, r.amount⟩

/-- After its expiry ledger the escrow is the depositor's, and nobody else's. -/
structure Belongs (me : Address) (w : World Store) (id : ℕ) (r : EscrowRecord) : Prop where
  /-- There is a call that refunds it when the depositor alone signs, and the token does not
      refuse. -/
  refundable : ∃ c, ∀ env : Env me, r.expiryLedger < env.sequence →
    (∀ a, env.signed a = true ↔ a = r.depositor) → (∀ l x, env.admits l x = true) →
    Refunds me w (exec env c w) id r
  /-- No call that the depositor has not signed changes it. -/
  only : ∀ (env : Env me) c, r.expiryLedger < env.sequence → env.signed r.depositor = false →
    (exec env c w).shared.escrows.lookup id = some r

/-! ## The records of the reachable states -/

/-- What holds of a record: its id was given out, and it was opened with the signature of its
    depositor. -/
structure RecordOk (me : Address) (next id : ℕ) (r : EscrowRecord) : Prop where
  id_lt : id < next
  pos : 0 < r.amount
  depositor_ne : r.depositor ≠ me

/-- The invariant of the reachable states. -/
def Kept (me : Address) (w : World Store) : Prop :=
  w.shared.escrows.Forall fun id r => RecordOk me w.shared.nextEscrow id r

theorem Kept.fresh {w : World Store} (h : Kept me w) :
    w.shared.escrows.lookup w.shared.nextEscrow = none :=
  SharedStore.lookup_nextEscrow fun id r hr => (h id r hr).id_lt

theorem Kept.done {env : Env me} {c : Entry} {w w' : World Store} (h : Kept me w)
    (hdone : Done env w c w') : Kept me w' := by
  cases hdone with
  | createEscrowEntry events t htoken hsigned hpos hexpiry hallows =>
    refine Table.Forall.set (fun id r hr => ?_)
      ⟨Nat.lt_succ_self _, hpos, Env.ne_me_of_signed hsigned⟩
    obtain ⟨hid, hamount, hdepositor⟩ := h id r hr
    exact ⟨hid.trans (Nat.lt_succ_self _), hamount, hdepositor⟩
  | releaseEscrowEntry events t r htoken hadmin hsigned hr =>
    obtain ⟨hid, hamount, hdepositor⟩ := h _ r hr
    exact Table.Forall.set h ⟨hid, hamount, hdepositor⟩
  | refundEscrowEntry events t r htoken hadmin hsigned hr =>
    obtain ⟨hid, hamount, hdepositor⟩ := h _ r hr
    exact Table.Forall.set h ⟨hid, hamount, hdepositor⟩
  | _ => exact h

theorem Kept.step {w : World Store} (h : Kept me w) (s : Step me Entry) : Kept me (step s w) := by
  rcases step_cases s w with ⟨env, x, hstep⟩ | hstep | ⟨env, c, w', -, hstep, hdone⟩
  · rw [hstep]
    unfold Kept
    rw [shared_outsideTransfer]
    exact h
  · rw [hstep]
    exact h
  · rw [hstep]
    exact h.done hdone

theorem kept_run (tokens : TokenLedger) (steps : List (Step me Entry)) :
    Kept me (run step (World.deployed Store.empty tokens) steps) := by
  refine run_induct (P := Kept me) (fun w s h => h.step s) ?_ steps
  exact Table.Forall.empty _

/-! ## Which calls touch a record -/

section

variable {w w' : World Store} {id : ℕ} {r : EscrowRecord} {env : Env me} {c : Entry}

/-- What a call that goes through does to an active record: it leaves it alone, releases it, or is
    the admin's refund in the configured token. -/
inductive RecordMove (env : Env me) (w : World Store) (c : Entry) (w' : World Store) (id : ℕ)
    (r : EscrowRecord) : Prop where
  | kept (hr' : w'.shared.escrows.lookup id = some r)
  | released (caller : Address) (hadmin : w.shared.admin = some caller)
      (hsigned : env.signed caller = true)
      (hr' : w'.shared.escrows.lookup id = some { r with state := .released })
  | refunded (caller token : Address) (hc : c = .refundEscrowEntry caller id)
      (hadmin : w.shared.admin = some caller) (hsigned : env.signed caller = true)
      (htoken : w.store.token = some token)
      (hallows : env.Allows w.tokens ⟨token, me, r.depositor, r.amount⟩)
      (hr' : w'.shared.escrows.lookup id = some { r with state := .refunded })
      (htokens : w'.tokens = w.tokens.move ⟨token, me, r.depositor, r.amount⟩)

theorem recordMove_done (h : Kept me w) (hr : w.shared.escrows.lookup id = some r)
    (hdone : Done env w c w') : RecordMove env w c w' id r := by
  cases hdone with
  | createEscrowEntry events t htoken hsigned hpos hexpiry hallows =>
    refine .kept ?_
    rw [Table.lookup_set, if_neg]
    · exact hr
    · rintro rfl
      rw [h.fresh] at hr
      cases hr
  | @releaseEscrowEntry caller id' events t r' htoken hadmin hsigned hr₀ hactive hdue hallows =>
    by_cases hid : id = id'
    · obtain rfl : r' = r := by
        rw [hid, hr₀] at hr
        exact Option.some.inj hr
      exact .released caller hadmin hsigned ((Table.lookup_set _ _ _ _).trans (if_pos hid))
    · exact .kept (((Table.lookup_set _ _ _ _).trans (if_neg hid)).trans hr)
  | @refundEscrowEntry caller id' events t r' htoken hadmin hsigned hr₀ hactive hallows =>
    by_cases hid : id = id'
    · obtain rfl : r' = r := by
        rw [hid, hr₀] at hr
        exact Option.some.inj hr
      exact .refunded caller t (by rw [hid]) hadmin hsigned htoken hallows
        ((Table.lookup_set _ _ _ _).trans (if_pos hid)) rfl
    · exact .kept (((Table.lookup_set _ _ _ _).trans (if_neg hid)).trans hr)
  | _ => exact .kept hr

/-- A call leaves the record alone, releases it, or is the admin's refund. -/
theorem recordMove_exec (h : Kept me w) (hr : w.shared.escrows.lookup id = some r) (env : Env me)
    (c : Entry) : RecordMove env w c (exec env c w) id r := by
  rcases exec_cases env c w with hsame | hdone
  · rw [hsame]
    exact .kept hr
  · exact recordMove_done h hr hdone

/-- The admin's refund of an active escrow goes through when the token that is configured pays. -/
theorem refundEscrowEntry_succeeds {caller token : Address}
    (hr : w.shared.escrows.lookup id = some r) (hactive : r.state = .active)
    (hadmin : w.shared.admin = some caller) (hsigned : env.signed caller = true)
    (htoken : w.store.token = some token)
    (hallows : env.Allows w.tokens ⟨token, me, r.depositor, r.amount⟩) :
    (refundEscrowEntry env caller id).Succeeds w := by
  obtain ⟨u, w', hok⟩ := refundEscrow_succeeds.mpr ⟨r, hr, hactive, hallows⟩
  refine ⟨u, w', ?_⟩
  simp [refundEscrowEntry, hadmin, hsigned, htoken, hok]

end

/-! ## Whom an expired escrow belongs to -/

/-- The environment in which the address alone signs. -/
theorem signedBy_alone {a : Address} (hne : a ≠ me) (sequence timestamp : ℕ) (b : Address) :
    (Env.signedBy me sequence timestamp [a]).signed b = true ↔ b = a := by
  simp only [Env.signedBy, decide_eq_true_eq, List.mem_singleton]
  constructor
  · exact And.right
  · rintro rfl
    exact ⟨hne, rfl⟩

section

variable {w : World Store} {id : ℕ} {r : EscrowRecord}

/-- A call that refunds an active escrow with the signature of its depositor alone is that of an
    admin. -/
theorem admin_of_refunds (hkept : Kept me w) (hr : w.shared.escrows.lookup id = some r)
    (hactive : r.state = .active) {env : Env me}
    (halone : ∀ a, env.signed a = true ↔ a = r.depositor) {c : Entry}
    (hrefunds : Refunds me w (exec env c w) id r) :
    w.shared.admin = some r.depositor ∧ w.store.token = some r.token ∧
      r.amount ≤ w.tokens.balance r.token me := by
  cases recordMove_exec hkept hr env c with
  | kept hr' =>
    rw [hrefunds.record] at hr'
    have hstate := congrArg EscrowRecord.state (Option.some.inj hr')
    rw [hactive] at hstate
    cases hstate
  | released caller hadmin hsigned hr' =>
    rw [hrefunds.record] at hr'
    have hstate := congrArg EscrowRecord.state (Option.some.inj hr')
    cases hstate
  | refunded caller token hcall hadmin hsigned htoken hallows hr' htokens =>
    obtain rfl := (halone caller).mp hsigned
    -- the transfer that was made names the token
    have hlog := congrArg Ledger.log (hrefunds.paid.symm.trans htokens)
    rw [Ledger.log_move, Ledger.log_move] at hlog
    have hsame : r.token = token := by simpa using hlog
    rw [hsame]
    exact ⟨hadmin, htoken, hallows.2.2.1⟩

/-- The refund of a depositor who is the admin. -/
theorem refunds_of_admin (hr : w.shared.escrows.lookup id = some r) (hactive : r.state = .active)
    (hadmin : w.shared.admin = some r.depositor) (htoken : w.store.token = some r.token)
    {env : Env me} (hsigned : env.signed r.depositor = true)
    (hallows : env.Allows w.tokens ⟨r.token, me, r.depositor, r.amount⟩) :
    Refunds me w (exec env (.refundEscrowEntry r.depositor id) w) id r := by
  obtain ⟨u, w', hok⟩ := refundEscrowEntry_succeeds hr hactive hadmin hsigned htoken hallows
  have hexec : exec env (.refundEscrowEntry r.depositor id) w = w' := commit_of_ok hok
  rw [hexec]
  cases refundEscrowEntry_done hok with
  | refundEscrowEntry events t r' htoken' hadmin' hsigned hr' hactive' hallows' =>
    obtain rfl := Option.some.inj (hr'.symm.trans hr)
    obtain rfl := Option.some.inj (htoken'.symm.trans htoken)
    exact ⟨(Table.lookup_set _ _ _ _).trans (if_pos rfl), rfl⟩

/-- A call that the admin has not signed leaves an active escrow alone. -/
theorem record_of_unsigned (hkept : Kept me w) (hr : w.shared.escrows.lookup id = some r)
    {a : Address} (hadmin : w.shared.admin = some a) {env : Env me}
    (hunsigned : env.signed a = false) (c : Entry) :
    (exec env c w).shared.escrows.lookup id = some r := by
  cases recordMove_exec hkept hr env c with
  | kept hr' => exact hr'
  | released caller hadmin' hsigned hr' =>
    obtain rfl := Option.some.inj (hadmin'.symm.trans hadmin)
    rw [hunsigned] at hsigned
    cases hsigned
  | refunded caller token hc hadmin' hsigned =>
    obtain rfl := Option.some.inj (hadmin'.symm.trans hadmin)
    rw [hunsigned] at hsigned
    cases hsigned

end

/-- In every reachable state, an active escrow belongs to its depositor after its expiry ledger
    exactly when the depositor is the stored admin, the token of the escrow is still the configured
    one, and the contract holds the amount. -/
theorem belongs_iff (tokens : TokenLedger) (steps : List (Step me Entry)) {id : ℕ}
    {r : EscrowRecord}
    (hr : (run step (World.deployed Store.empty tokens) steps).shared.escrows.lookup id = some r)
    (hactive : r.state = .active) :
    Belongs me (run step (World.deployed Store.empty tokens) steps) id r ↔
      (run step (World.deployed Store.empty tokens) steps).shared.admin = some r.depositor ∧
        (run step (World.deployed Store.empty tokens) steps).store.token = some r.token ∧
        r.amount ≤
          (run step (World.deployed Store.empty tokens) steps).tokens.balance r.token me := by
  have hkept := kept_run tokens steps
  generalize run step (World.deployed Store.empty tokens) steps = w at hr hkept ⊢
  obtain ⟨-, hpos, hdepositor⟩ := hkept id r hr
  constructor
  · rintro ⟨⟨c, hc⟩, -⟩
    have halone := signedBy_alone hdepositor (r.expiryLedger + 1) 0
    exact admin_of_refunds hkept hr hactive halone
      (hc (.signedBy me (r.expiryLedger + 1) 0 [r.depositor]) (Nat.lt_succ_self _) halone
        fun _ _ => rfl)
  · rintro ⟨hadmin, htoken, hcovered⟩
    constructor
    · refine ⟨.refundEscrowEntry r.depositor id, fun env hdue halone hadmits => ?_⟩
      exact refunds_of_admin hr hactive hadmin htoken ((halone _).mpr rfl)
        ⟨hpos.le, .inl rfl, hcovered, hadmits _ _⟩
    · intro env c hdue hunsigned
      exact record_of_unsigned hkept hr hadmin hunsigned c

/-- The user `⟨2⟩` puts 40 in escrow up to the ledger 10, in a contract with this admin. -/
def heldRun (admin : Address) : List (Step ⟨0⟩ Entry) :=
  [.call (.signedBy ⟨0⟩ 1 1 [admin]) (.init admin ⟨9⟩ 0 ⟨8⟩),
    .call (.signedBy ⟨0⟩ 2 2 [⟨2⟩]) (.createEscrowEntry ⟨2⟩ ⟨3⟩ 40 10)]

/-- The escrow of `heldRun`. -/
def heldEscrow : EscrowRecord := ⟨1, ⟨2⟩, ⟨3⟩, ⟨9⟩, 40, 10, .active⟩

/-- When the depositor is the admin, it is the depositor's. -/
theorem belongs_admin :
    Belongs ⟨0⟩ (run step (World.deployed Store.empty userFunds) (heldRun ⟨2⟩)) 1 heldEscrow :=
  (belongs_iff userFunds (heldRun ⟨2⟩) (by decide) rfl).mpr (by decide)

/-- When it is not, its call fails after the expiry, and the admin's call refunds the escrow. -/
theorem not_belongs :
    (run step (World.deployed Store.empty userFunds) (heldRun ⟨1⟩)).shared.escrows.lookup 1 =
        some heldEscrow ∧
      ((exec (.signedBy ⟨0⟩ 11 11 [⟨2⟩]) (.refundEscrowEntry ⟨2⟩ 1) (run step
        (World.deployed Store.empty userFunds) (heldRun ⟨1⟩))).shared.escrows.lookup 1).map
          EscrowRecord.state = some .active ∧
      ((exec (.signedBy ⟨0⟩ 11 11 [⟨1⟩]) (.refundEscrowEntry ⟨1⟩ 1) (run step
        (World.deployed Store.empty userFunds) (heldRun ⟨1⟩))).shared.escrows.lookup 1).map
          EscrowRecord.state = some .refunded ∧
      ¬ Belongs ⟨0⟩ (run step (World.deployed Store.empty userFunds) (heldRun ⟨1⟩)) 1
        heldEscrow := by
  refine ⟨by decide, by decide, by decide, fun h => ?_⟩
  have hkept :=
    h.only (.signedBy ⟨0⟩ 11 11 [⟨1⟩]) (.refundEscrowEntry ⟨1⟩ 1) (by decide) (by decide)
  revert hkept
  decide

end Trellis.Payments
