import Trellis.Payments.Solvency
import Trellis.Shared.Escrow

/-!
# Escrows of the payments contract

An escrow of the payments contract leaves the active state once, and its amount is paid in that
step.

Results:
* `escrow_cases`: a step leaves the records alone and pays for none, or opens one, or settles one
  and pays it.
* `paidOut_step`: what has been paid for an escrow is what its record says.
* `escrowBook`: ids, records and payments along a run from `initialize`.
-/

namespace Trellis.Payments

open Exec

variable {me : Address}

/-! ## What is paid for an escrow -/

/-- The transfers that a record says have been made for it. -/
def settlement (me token : Address) (r : EscrowRecord) : List TokenTransfer :=
  match r.state with
  | .active => []
  | .released => [⟨token, me, r.beneficiary, r.amount⟩]
  | .refunded => [⟨token, me, r.depositor, r.amount⟩]

/-- The transfers that have been made for an escrow, as its record says. -/
def paidOut (me token : Address) (id : ℕ) (w : World Store) : List TokenTransfer :=
  (w.shared.escrows.lookup id).elim [] (settlement me token)

/-- The transfers that a step adds to the log of the tokens. -/
def outlay (w : World Store) (s : Step me Entry) : List TokenTransfer :=
  (step s w).tokens.log.drop w.tokens.log.length

/-- The transfers that a step makes for an escrow: those of a release or refund of it. -/
def paidFor (id : ℕ) (w : World Store) : Step me Entry → List TokenTransfer
  | .call env (.releaseEscrowEntry caller escrowId) =>
    if escrowId = id then outlay w (.call env (.releaseEscrowEntry caller escrowId)) else []
  | .call env (.refundEscrowEntry caller escrowId) =>
    if escrowId = id then outlay w (.call env (.refundEscrowEntry caller escrowId)) else []
  | _ => []

/-- The id that a call of `create_escrow_entry` returns. -/
def createdId (w : World Store) : Step me Entry → Option ℕ
  | .call env (.createEscrowEntry depositor beneficiary amount expiryLedger) =>
    (createEscrowEntry env depositor beneficiary amount expiryLedger).value w
  | _ => none

theorem outlay_of_move {w : World Store} {s : Step me Entry} {x : TokenTransfer}
    (h : (step s w).tokens = w.tokens.move x) : outlay w s = [x] := by
  rw [outlay, h, Ledger.log_move, List.drop_left]

theorem outlay_of_same {w : World Store} {s : Step me Entry} (h : step s w = w) :
    outlay w s = [] := by
  rw [outlay, h, List.drop_length]

/-- A step that changes nothing pays for no escrow. -/
theorem paidFor_of_same {w : World Store} {s : Step me Entry} (h : step s w = w) (id : ℕ) :
    paidFor id w s = [] := by
  unfold paidFor
  split
  · rw [outlay_of_same h, ite_self]
  · rw [outlay_of_same h, ite_self]
  · rfl

/-! ## One step -/

/-- What a step from `w` to `w'` does to the escrows. -/
inductive EscrowMove (me token : Address) (w : World Store) (s : Step me Entry) (w' : World Store) :
    Prop where
  | quiet (hescrows : w'.shared.escrows = w.shared.escrows) (hpaid : ∀ id, paidFor id w s = [])
  | opened (r : EscrowRecord) (hid : r.id = w.shared.nextEscrow) (hactive : r.state = .active)
      (htoken : r.token = token)
      (hescrows : w'.shared.escrows = w.shared.escrows.insert w.shared.nextEscrow r)
      (hpaid : ∀ id, paidFor id w s = [])
  | settled (id : ℕ) (r r' : EscrowRecord) (x : TokenTransfer)
      (hr : w.shared.escrows.lookup id = some r) (hactive : r.state = .active)
      (hexit : r' = { r with state := .released } ∨ r' = { r with state := .refunded })
      (hsettlement : settlement me token r' = [x])
      (hescrows : w'.shared.escrows = w.shared.escrows.insert id r')
      (htokens : w'.tokens = w.tokens.move x)
      (hpaid : ∀ i, paidFor i w s = if id = i then [x] else [])

theorem escrow_cases {token : Address} {w : World Store} (h : Inv token w) {s : Step me Entry}
    (hs : ¬ Initializes s) : EscrowMove me token w s (step s w) := by
  cases s with
  | outside env x => exact .quiet (congrArg _ (shared_outsideTransfer env x w)) fun _ => rfl
  | call env c =>
    rcases exec_cases env c w with hsame | hdone
    · exact .quiet (by rw [step, Step.apply, hsame]) (paidFor_of_same hsame)
    · have hsame : ∀ {t}, w.store.token = some t → t = token := by
        intro t ht
        rw [h.token_eq] at ht
        exact (Option.some.inj ht).symm
      have hdone' : Done env w c (step (.call env c) w) := hdone
      generalize hw' : step (.call env c) w = w' at hdone' ⊢
      cases hdone' with
      | init => exact absurd trivial hs
      | setFeeRate | deposit | withdraw | withdrawAmount | batchPayout =>
        exact .quiet rfl fun _ => rfl
      | createEscrowEntry events t htoken =>
        exact .opened _ rfl rfl (hsame htoken) rfl fun _ => rfl
      | @releaseEscrowEntry caller id events t r htoken hadmin hsigned hr hactive =>
        obtain rfl := hsame htoken
        have houtlay := outlay_of_move (congrArg World.tokens hw')
        refine .settled id r _ _ hr hactive (.inl rfl) rfl rfl rfl fun i => ?_
        rw [paidFor, houtlay]
      | @refundEscrowEntry caller id events t r htoken hadmin hsigned hr hactive =>
        obtain rfl := hsame htoken
        have houtlay := outlay_of_move (congrArg World.tokens hw')
        refine .settled id r _ _ hr hactive (.inr rfl) rfl rfl rfl fun i => ?_
        rw [paidFor, houtlay]

/-- What has been paid for an escrow grows by what a step pays for it. -/
theorem paidOut_step {token : Address} {w : World Store} (h : Inv token w) {s : Step me Entry}
    (hs : ¬ Initializes s) (id : ℕ) :
    paidOut me token id (step s w) = paidOut me token id w ++ paidFor id w s := by
  unfold paidOut
  rcases escrow_cases h hs with ⟨hescrows, hpaid⟩ | ⟨r, -, hactive, -, hescrows, hpaid⟩ |
    ⟨id', r, r', x, hr, hactive, -, hsettlement, hescrows, -, hpaid⟩
  · rw [hescrows, hpaid, List.append_nil]
  · rw [hescrows, hpaid, List.append_nil, Table.lookup_set]
    split_ifs with hid
    · rw [hid, h.fresh, Option.elim_some, settlement, hactive]
      rfl
    · rfl
  · rw [hescrows, hpaid, Table.lookup_set]
    by_cases hid : id = id'
    · rw [if_pos hid, if_pos hid.symm, hid, hr, Option.elim_some, Option.elim_some, hsettlement,
        settlement, hactive]
      rfl
    · rw [if_neg hid, if_neg (Ne.symm hid), List.append_nil]

theorem evolves_step {token : Address} {w : World Store} (h : Inv token w) {s : Step me Entry}
    (hs : ¬ Initializes s) :
    Table.Evolves EscrowRecord.Later w.shared.escrows (step s w).shared.escrows := by
  rcases escrow_cases h hs with ⟨hescrows, -⟩ | ⟨r, -, -, -, hescrows, -⟩ |
    ⟨id', r, r', x, hr, hactive, hexit, -, hescrows, -⟩
  · rw [hescrows]
    exact Table.Evolves.refl EscrowRecord.Later.refl _
  · rw [hescrows]
    exact Table.Evolves.set_new EscrowRecord.Later.refl h.fresh r
  · rw [hescrows]
    exact Table.Evolves.set_old EscrowRecord.Later.refl hr (.inr ⟨hactive, hexit⟩)

/-- A step that changes a record pays what the new record says. -/
theorem paid_of_changed {token : Address} {w : World Store} (h : Inv token w) {s : Step me Entry}
    (hs : ¬ Initializes s) {id : ℕ} {r r' : EscrowRecord} (hr : w.shared.escrows.lookup id = some r)
    (hr' : (step s w).shared.escrows.lookup id = some r') (hne : r' ≠ r) :
    ∃ x, settlement me token r' = [x] ∧ paidFor id w s = [x] ∧
      (step s w).tokens = w.tokens.move x := by
  rcases escrow_cases h hs with ⟨hescrows, -⟩ | ⟨r₀, -, -, -, hescrows, -⟩ |
    ⟨id₀, r₀, r₁, x, hr₀, hactive, hexit, hsettlement, hescrows, htokens, hpaid⟩
  · rw [hescrows, hr] at hr'
    exact absurd (Option.some.inj hr').symm hne
  · rw [hescrows, Table.lookup_set] at hr'
    split_ifs at hr' with hid
    · rw [hid, h.fresh] at hr
      cases hr
    · rw [hr] at hr'
      exact absurd (Option.some.inj hr').symm hne
  · rw [hescrows, Table.lookup_set] at hr'
    split_ifs at hr' with hid
    · obtain rfl := Option.some.inj hr'
      exact ⟨x, hsettlement, by rw [hpaid, if_pos hid.symm], htokens⟩
    · rw [hr] at hr'
      exact absurd (Option.some.inj hr').symm hne

/-- Only `create_escrow_entry` moves the counter of the ids. -/
theorem escrowIdSeq_step (env : Env me) {c : Entry}
    (hc : ∀ depositor beneficiary amount expiry,
      c ≠ .createEscrowEntry depositor beneficiary amount expiry) (w : World Store) :
    (step (.call env c) w).shared.escrowIdSeq = w.shared.escrowIdSeq := by
  show (exec env c w).shared.escrowIdSeq = _
  rcases exec_cases env c w with hsame | hdone
  · rw [hsame]
  · generalize exec env c w = w' at hdone ⊢
    cases hdone with
    | createEscrowEntry => exact absurd rfl (hc _ _ _ _)
    | _ => rfl

/-- A new escrow is recorded as active under an id that had no record. -/
theorem opened_of_created {token : Address} {w : World Store} (h : Inv token w) {env : Env me}
    {depositor beneficiary : Address} {amount : ℤ} {expiry id : ℕ}
    (hid : createdId w (.call env (.createEscrowEntry depositor beneficiary amount expiry)) =
      some id) : w.shared.escrows.lookup id = none ∧
      (step (.call env (.createEscrowEntry depositor beneficiary amount expiry))
        w).shared.escrows.lookup id =
          some ⟨id, depositor, beneficiary, token, amount, expiry, .active⟩ := by
  have hok := value_eq_some.mp hid
  obtain rfl := createEscrowEntry_id hok
  refine ⟨h.fresh, ?_⟩
  show ((createEscrowEntry env depositor beneficiary amount expiry).commit
    w).shared.escrows.lookup w.shared.nextEscrow = _
  have hdone := createEscrowEntry_done hok
  generalize commit _ w = w' at hdone ⊢
  cases hdone with
  | createEscrowEntry events t htoken =>
    rw [h.token_eq] at htoken
    obtain rfl := Option.some.inj htoken
    exact (Table.lookup_set _ _ _ _).trans (if_pos rfl)

/-- A call of `create_escrow_entry` returns the next id, and nothing else moves the counter. -/
theorem createdId_cases (w : World Store) (s : Step me Entry) :
    (createdId w s = none ∧
        (step s w).shared.escrowIdSeq.getD 0 = w.shared.escrowIdSeq.getD 0) ∨
      (createdId w s = some (w.shared.escrowIdSeq.getD 0 + 1) ∧
        (step s w).shared.escrowIdSeq.getD 0 = w.shared.escrowIdSeq.getD 0 + 1) := by
  cases s with
  | outside env x =>
    refine .inl ⟨rfl, ?_⟩
    rw [step, Step.apply, shared_outsideTransfer]
  | call env c =>
    cases c with
    | createEscrowEntry depositor beneficiary amount expiry =>
      refine value_commit_induct (G := fun o (w' : World Store) =>
        (o = none ∧ w'.shared.escrowIdSeq.getD 0 = w.shared.escrowIdSeq.getD 0) ∨
          o = some (w.shared.escrowIdSeq.getD 0 + 1) ∧
            w'.shared.escrowIdSeq.getD 0 = w.shared.escrowIdSeq.getD 0 + 1)
        (.inl ⟨rfl, rfl⟩) fun id w' hok => .inr ?_
      have hid := createEscrowEntry_id hok
      cases createEscrowEntry_done hok with
      | createEscrowEntry => exact ⟨congrArg some hid, rfl⟩
    | _ => exact .inl ⟨rfl, congrArg (Option.getD · 0) (escrowIdSeq_step env (by simp) w)⟩

/-! ## Runs -/

/-- The escrows of a run from `w`, in which `token` is configured. -/
structure EscrowBook (me token : Address) (w : World Store) (steps : List (Step me Entry)) :
    Prop where
  /-- The ids given out are `1, 2, 3, …`. -/
  ids : yields step createdId w steps = List.range' 1 (yields step createdId w steps).length
  /-- A new escrow is recorded as active under an id that had no record. -/
  opened : ∀ x ∈ trace step w steps, ∀ env depositor beneficiary amount expiry id,
    x.2 = .call env (.createEscrowEntry depositor beneficiary amount expiry) →
    createdId x.1 x.2 = some id → x.1.shared.escrows.lookup id = none ∧
      (step x.2 x.1).shared.escrows.lookup id =
        some ⟨id, depositor, beneficiary, token, amount, expiry, .active⟩
  /-- From then on only its state changes, and that at most once. -/
  kept : ∀ pre post, steps = pre ++ post → Table.Evolves EscrowRecord.Later
    (run step w pre).shared.escrows (run step w steps).shared.escrows
  /-- The step that changes the state makes the one transfer that the new state stands for. -/
  settled : ∀ x ∈ trace step w steps, ∀ id r r', x.1.shared.escrows.lookup id = some r →
    (step x.2 x.1).shared.escrows.lookup id = some r' → r' ≠ r →
    ∃ t, settlement me token r' = [t] ∧ paidFor id x.1 x.2 = [t] ∧
      (step x.2 x.1).tokens = x.1.tokens.move t
  /-- All the transfers made for an escrow in the run are those that its record stands for. -/
  paid : ∀ id, ((trace step w steps).flatMap fun x => paidFor id x.1 x.2) =
    paidOut me token id (run step w steps)
  /-- A release goes through up to the expiry ledger only. -/
  due : ∀ x ∈ trace step w steps, ∀ env caller id r,
    x.2 = .call env (.releaseEscrowEntry caller id) →
    (releaseEscrowEntry env caller id).Succeeds x.1 → x.1.shared.escrows.lookup id = some r →
    env.sequence ≤ r.expiryLedger

theorem inv_run {token : Address} {w : World Store} (h : Inv token w) {steps : List (Step me Entry)}
    (honce : ∀ s ∈ steps, ¬ Initializes s) : Inv token (run step w steps) :=
  run_induct_of_trace (Q := fun _ s => ¬ Initializes s) (fun _ _ h hs => h.step hs) h
    fun x hx => honce x.2 (mem_of_mem_trace hx)

theorem inv_trace {token : Address} {w : World Store} (h : Inv token w)
    {steps : List (Step me Entry)} (honce : ∀ s ∈ steps, ¬ Initializes s)
    {x : World Store × Step me Entry} (hx : x ∈ trace step w steps) :
    Inv token x.1 ∧ ¬ Initializes x.2 :=
  ⟨trace_induct_of_trace (Q := fun _ s => ¬ Initializes s) (fun _ _ h hs => h.step hs) h
    (fun y hy => honce y.2 (mem_of_mem_trace hy)) hx, honce x.2 (mem_of_mem_trace hx)⟩

theorem evolves_run {token : Address} {w : World Store} (h : Inv token w)
    {steps : List (Step me Entry)} (honce : ∀ s ∈ steps, ¬ Initializes s) :
    Table.Evolves EscrowRecord.Later w.shared.escrows (run step w steps).shared.escrows :=
  Table.Evolves.run_of_trace (P := Inv token) (Q := fun _ s => ¬ Initializes s)
    (fun v => v.shared.escrows) EscrowRecord.Later.refl (fun _ _ _ => EscrowRecord.Later.trans)
    (fun _ _ h hs => h.step hs) (fun _ _ h hs => evolves_step h hs) h
    fun x hx => honce x.2 (mem_of_mem_trace hx)

/-- In a run from the one `initialize` of the contract, every escrow gets an id of its own, settles
    at most once, and is paid in the step that settles it and in no other. -/
theorem escrowBook {env : Env me} {admin token recipient : Address} {rate : ℤ}
    {tokens : TokenLedger} {w : World Store}
    (hinit : init env admin token rate recipient (World.deployed Store.empty tokens) = .ok () w)
    (steps : List (Step me Entry)) (honce : ∀ s ∈ steps, ¬ Initializes s) :
    EscrowBook me token w steps := by
  have hinv := Inv.start hinit
  have hfresh : w.shared.escrowIdSeq = none ∧ w.shared.escrows = ∅ := by
    cases init_done hinit with
    | init => exact ⟨rfl, rfl⟩
  constructor
  · have hids := yields_counter (fun v : World Store => v.shared.escrowIdSeq.getD 0)
      (fun v s => createdId_cases v s) w steps
    rw [hfresh.1] at hids
    exact hids
  · intro x hx env' depositor beneficiary amount expiry id hcall hid
    obtain ⟨hx₁, -⟩ := inv_trace hinv honce hx
    rw [hcall] at hid ⊢
    exact opened_of_created hx₁ hid
  · rintro pre post rfl
    rw [run_append]
    have hpre := inv_run hinv fun s hs => honce s (List.mem_append_left post hs)
    exact evolves_run hpre fun s hs => honce s (List.mem_append_right pre hs)
  · intro x hx id r r' hr hr' hne
    obtain ⟨hx₁, hx₂⟩ := inv_trace hinv honce hx
    exact paid_of_changed hx₁ hx₂ hr hr' hne
  · intro id
    have hrun := run_eq_append (P := Inv token) (N := fun _ s => ¬ Initializes s)
      (paidOut me token id) (fun _ _ hv hs => hv.step hs) (fun _ _ hv hs => paidOut_step hv hs id)
      hinv fun x hx => honce x.2 (mem_of_mem_trace hx)
    rw [hrun, paidOut, hfresh.2]
    rfl
  · intro x hx env' caller id r hcall hsucceeds hr
    obtain ⟨u, w', hok⟩ := hsucceeds
    have hdone := releaseEscrowEntry_done hok
    cases hdone with
    | releaseEscrowEntry events t r₀ htoken hadmin hsigned hr₀ hactive hdue =>
      obtain rfl := Option.some.inj (hr.symm.trans hr₀)
      exact hdue

/-- The user puts 60 and then 40 in escrow; the admin releases the first and refunds the second
    after its expiry ledger. -/
def escrowRun : List (Step ⟨0⟩ Entry) :=
  [.call (.signedBy ⟨0⟩ 2 2 [⟨2⟩]) (.createEscrowEntry ⟨2⟩ ⟨3⟩ 60 10),
    .call (.signedBy ⟨0⟩ 3 3 [⟨2⟩]) (.createEscrowEntry ⟨2⟩ ⟨4⟩ 40 10),
    .call (.signedBy ⟨0⟩ 4 4 [⟨1⟩]) (.releaseEscrowEntry ⟨1⟩ 1),
    .call (.signedBy ⟨0⟩ 11 11 [⟨1⟩]) (.refundEscrowEntry ⟨1⟩ 2)]

/-- The first was paid to `⟨3⟩`, once. -/
theorem escrowBook_released :
    ((trace step opened escrowRun).flatMap fun x => paidFor 1 x.1 x.2) =
      [⟨⟨9⟩, ⟨0⟩, ⟨3⟩, 60⟩] := by
  have honce : ∀ s ∈ escrowRun, ¬ Initializes s := by
    intro s hs
    fin_cases hs <;> exact id
  rw [(escrowBook init_opened escrowRun honce).paid 1]
  decide

end Trellis.Payments
