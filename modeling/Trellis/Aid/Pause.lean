import Trellis.Aid.Indexes
import Trellis.Aid.Mirror

/-!
# Pausing the aid contract

The shared helper `require_not_paused` is for the top of every entry point that changes state
(shared/src/auth.rs:147–156). Of the aid contract `claim_aid` looks at the flag; `create_aid` and
`refund_aid` do not.

Results:
* `pausedChange_step`: what a step from a paused state can do.
* `untouched_run`: over steps from paused states, of which none creates or refunds, the records and
  the escrow stay.
* `pause_stops_iff`: over every run, pausing stops the contract exactly when no creation and no
  refund goes through in a paused state.
-/

namespace Trellis.Aid

open Exec

variable {me : Address}

/-! ## What a pause is for -/

/-- The step is a call of `set_paused` or of `update_config` that the stored admin has signed. -/
def AdminCall (w : World Store) : Step me Entry → Prop
  | .call env (.setPaused admin _) => w.shared.admin = some admin ∧ env.signed admin = true
  | .call env (.updateConfig admin _ _) => w.shared.admin = some admin ∧ env.signed admin = true
  | _ => False

/-- The steps from `w` leave the records as they are, and the escrow but for what outside transfers
    bring. -/
structure Untouched (w : World Store) (steps : List (Step me Entry)) : Prop where
  aids : (run step w steps).store.aids = w.store.aids
  copies : (run step w steps).store.keyAids = w.store.keyAids
  counter : (run step w steps).store.aidCounter = w.store.aidCounter
  held (t : Address) : (run step w steps).tokens.balance t me = w.tokens.balance t me +
    ((trace step w steps).map fun x => x.2.received t x.1).sum

/-- Pausing stops the contract in the run. -/
structure PauseStops (tokens : TokenLedger) (steps : List (Step me Entry)) : Prop where
  /-- In a paused state no call changes anything, but for the admin's `set_paused` and
      `update_config`. -/
  calls : ∀ x ∈ trace step (World.deployed Store.empty tokens) steps, x.1.IsPaused →
    (∃ env c, x.2 = .call env c) → ¬ AdminCall x.1 x.2 → step x.2 x.1 = x.1
  /-- A stretch of steps from paused states, the last of which may clear the flag, leaves the
      records and the escrow as they were when it began. -/
  stretches : ∀ pre mid post, steps = pre ++ mid ++ post →
    (∀ x ∈ trace step (reached tokens pre) mid, x.1.IsPaused) → Untouched (reached tokens pre) mid

/-! ## The admin comes with the initialised mark -/

/-- An admin is stored, and the flag set, in an initialised contract only. -/
structure Marked (w : World Store) : Prop where
  admin : ∀ a, w.shared.admin = some a → w.store.isInitialized = true
  paused : w.IsPaused → w.store.isInitialized = true

theorem Marked.deployed (tokens : TokenLedger) : Marked (World.deployed Store.empty tokens) := by
  constructor
  · intro a ha
    cases ha
  · intro hpaused
    cases hpaused

theorem Marked.step {w : World Store} (h : Marked w) (s : Step me Entry) : Marked (step s w) := by
  rcases step_cases s w with ⟨env, x, hstep⟩ | hstep | ⟨env, c, w', -, hstep, hdone⟩
  · rw [hstep]
    constructor
    · rw [shared_outsideTransfer, store_outsideTransfer]
      exact h.admin
    · unfold World.IsPaused
      rw [shared_outsideTransfer, store_outsideTransfer]
      exact h.paused
  · rw [hstep]
    exact h
  · rw [hstep]
    cases hdone with
    | init => exact ⟨fun _ _ => rfl, fun _ => rfl⟩
    | setPaused events hadmin hsigned => exact ⟨h.admin, fun _ => h.admin _ hadmin⟩
    | updateConfig => exact ⟨h.admin, h.paused⟩
    | createAid => exact ⟨h.admin, h.paused⟩
    | claimAid => exact ⟨h.admin, h.paused⟩
    | refundAid => exact ⟨h.admin, h.paused⟩

theorem marked_reached (tokens : TokenLedger) (steps : List (Step me Entry)) :
    Marked (reached tokens steps) :=
  run_induct (fun _ s h => h.step s) (Marked.deployed tokens) steps

/-! ## A step from a paused state -/

/-- What a step from a paused state can do. -/
inductive PausedChange (w : World Store) (s : Step me Entry) (w' : World Store) : Prop where
  | outside (env : Env me) (x : TokenTransfer) (hs : s = .outside env x)
  | nothing (env : Env me) (c : Entry) (hs : s = .call env c) (hsame : w' = w)
  | admin (env : Env me) (c : Entry) (hs : s = .call env c) (hadmin : AdminCall w s)
      (haids : w'.store.aids = w.store.aids) (hcopies : w'.store.keyAids = w.store.keyAids)
      (hcounter : w'.store.aidCounter = w.store.aidCounter) (htokens : w'.tokens = w.tokens)
  | created (hcreates : CreatesAid w s)
  | settled (hsettles : SettlesAid w s)

/-- Every step from a paused state makes one of these changes. -/
theorem pausedChange_step {w : World Store} (h : Marked w) (hpaused : w.IsPaused)
    (s : Step me Entry) :
    PausedChange w s (step s w) := by
  cases s with
  | outside env x => exact .outside env x rfl
  | call env c =>
    rcases exec_cases env c w with hsame | hdone
    · exact .nothing env c rfl hsame
    · show PausedChange w _ (exec env c w)
      generalize exec env c w = w' at hdone
      cases hdone with
      | init events hnot hsigned =>
        rw [h.paused hpaused] at hnot
        cases hnot
      | updateConfig hadmin hsigned => exact .admin env _ rfl ⟨hadmin, hsigned⟩ rfl rfl rfl rfl
      | setPaused events hadmin hsigned => exact .admin env _ rfl ⟨hadmin, hsigned⟩ rfl rfl rfl rfl
      | createAid r events hr hsigned hpos hexpiry hnew hconf hallows =>
        have hid : r.id = w.store.getAidCounter := congrArg AidRecord.id hr
        rw [hid] at hnew
        exact .created ⟨hsigned, hpos, hexpiry, hnew, r.token, hconf, hallows⟩
      | claimAid r events hactive =>
        unfold World.IsPaused at hpaused
        rw [hactive] at hpaused
        cases hpaused
      | refundAid r events hr hpending hdue hallows =>
        exact .settled ⟨r, hr, hpending, hdue, hallows⟩

theorem step_ne_of_creates {w : World Store} {s : Step me Entry} (h : CreatesAid w s) :
    step s w ≠ w := by
  intro hsame
  cases idsChange_step w s with
  | same hnot hid hids => exact hnot h
  | created id r hcreates hid hnew haids =>
    rw [hsame] at haids
    rw [haids, Table.lookup_set, if_pos rfl] at hnew
    cases hnew

theorem step_ne_of_settles {w : World Store} {s : Step me Entry} (h : SettlesAid w s) :
    step s w ≠ w := by
  intro hsame
  cases storesChange_step w s with
  | same hnot => exact hnot h
  | created id r hnot => exact hnot h
  | closed id r status hsettles hr hpending hstatus haids hcopies =>
    rw [hsame] at haids
    rw [haids, Table.lookup_set, if_pos rfl] at hr
    have hsame := congrArg AidRecord.status (Option.some.inj hr)
    exact hstatus (hsame.trans hpending)

/-- Creations, claims and refunds are not for the admin. -/
theorem not_adminCall {w : World Store} {s : Step me Entry} (h : CreatesAid w s ∨ SettlesAid w s) :
    (∃ env c, s = .call env c) ∧ ¬ AdminCall w s := by
  cases s with
  | outside env x => simp [CreatesAid, SettlesAid] at h
  | call env c =>
    refine ⟨⟨env, c, rfl⟩, fun hadmin => ?_⟩
    cases c with
    | setPaused => simp [CreatesAid, SettlesAid] at h
    | updateConfig => simp [CreatesAid, SettlesAid] at h
    | _ => exact hadmin

/-! ## Every run -/

/-- The step neither creates an aid nor settles or refunds one. -/
def Idle (w : World Store) (s : Step me Entry) : Prop := ¬ CreatesAid w s ∧ ¬ SettlesAid w s

/-- A step from a paused state that neither creates nor refunds leaves the records and the
    escrow. -/
theorem untouched_step {w : World Store} (h : Marked w) {s : Step me Entry}
    (hs : w.IsPaused ∧ Idle w s) : (step s w).store.aids = w.store.aids ∧
      (step s w).store.keyAids = w.store.keyAids ∧
      (step s w).store.aidCounter = w.store.aidCounter ∧
      ∀ t, (step s w).tokens.balance t me = w.tokens.balance t me + s.received t w := by
  cases pausedChange_step h hs.1 s with
  | outside env x hx =>
    rw [hx, store_outside]
    exact ⟨rfl, rfl, rfl, fun t => balance_outsideTransfer env x w t⟩
  | nothing env c hc hsame =>
    rw [hsame, hc]
    exact ⟨rfl, rfl, rfl, fun t => by rw [Step.received_call, add_zero]⟩
  | admin env c hc hadmin haids hcopies hcounter htokens =>
    refine ⟨haids, hcopies, hcounter, fun t => ?_⟩
    rw [htokens, hc, Step.received_call, add_zero]
  | created hcreates => exact absurd hcreates hs.2.1
  | settled hsettles => exact absurd hsettles hs.2.2

/-- Over steps from paused states, of which none creates or refunds, records and escrow stay. -/
theorem untouched_run {w : World Store} (h : Marked w) {steps : List (Step me Entry)}
    (hsteps : ∀ x ∈ trace step w steps, x.1.IsPaused ∧ Idle x.1 x.2) : Untouched w steps := by
  have hmarked : ∀ (w : World Store) (s : Step me Entry), Marked w → w.IsPaused ∧ Idle w s →
      Marked (step s w) := fun w s h _ => h.step s
  have hrecords : Marked (run step w steps) ∧ (run step w steps).store.aids = w.store.aids ∧
      (run step w steps).store.keyAids = w.store.keyAids ∧
      (run step w steps).store.aidCounter = w.store.aidCounter := by
    refine run_induct_of_trace
      (P := fun w' : World Store => Marked w' ∧ w'.store.aids = w.store.aids ∧
        w'.store.keyAids = w.store.keyAids ∧ w'.store.aidCounter = w.store.aidCounter)
      (Q := fun w s => w.IsPaused ∧ Idle w s) (fun w₁ s hw hs => ?_) ⟨h, rfl, rfl, rfl⟩ hsteps
    obtain ⟨haids, hcopies, hcounter, -⟩ := untouched_step hw.1 hs
    rw [haids, hcopies, hcounter]
    exact ⟨hw.1.step s, hw.2⟩
  refine ⟨hrecords.2.1, hrecords.2.2.1, hrecords.2.2.2, fun t => ?_⟩
  apply run_eq_add_sum_of_trace (P := Marked) (fun w : World Store => w.tokens.balance t me) hmarked
  · intro w₁ s hw hs
    exact (untouched_step hw hs).2.2.2 t
  · exact h
  · exact hsteps

/-- Over every run, pausing stops the contract exactly when no creation, claim or refund passes its
    checks in a paused state. -/
theorem pause_stops_iff (tokens : TokenLedger) (steps : List (Step me Entry)) :
    PauseStops tokens steps ↔
      ∀ x ∈ trace step (World.deployed Store.empty tokens) steps, x.1.IsPaused →
        ¬ CreatesAid x.1 x.2 ∧ ¬ SettlesAid x.1 x.2 := by
  constructor
  · intro h x hx hpaused
    constructor
    · intro hcreates
      obtain ⟨hcall, hadmin⟩ := not_adminCall (.inl hcreates)
      exact step_ne_of_creates hcreates (h.calls x hx hpaused hcall hadmin)
    · intro hsettles
      obtain ⟨hcall, hadmin⟩ := not_adminCall (.inr hsettles)
      exact step_ne_of_settles hsettles (h.calls x hx hpaused hcall hadmin)
  · intro h
    constructor
    · intro x hx hpaused hcall hadmin
      have hmarked : Marked x.1 := trace_induct (P := Marked) (fun _ s h => h.step s)
        (Marked.deployed tokens) hx
      cases pausedChange_step hmarked hpaused x.2 with
      | outside env y hy =>
        obtain ⟨env', c, hc⟩ := hcall
        rw [hy] at hc
        cases hc
      | nothing env c hc hsame => exact hsame
      | admin env c hc hadmin' => exact absurd hadmin' hadmin
      | created hcreates => exact absurd hcreates (h x hx hpaused).1
      | settled hsettles => exact absurd hsettles (h x hx hpaused).2
    · rintro pre mid post rfl hpaused
      refine untouched_run (marked_reached tokens pre) fun x hx =>
        ⟨hpaused x hx, h x ?_ (hpaused x hx)⟩
      rw [trace_append, trace_append]
      exact List.mem_append_left _ (List.mem_append_right _ hx)

/-- The contract is paused after the creation of an aid. -/
def pausedRun : List (Step ⟨0⟩ Entry) :=
  createdRun ++ [.call (.signedBy ⟨0⟩ 3 3 [⟨5⟩]) (.setPaused ⟨5⟩ true)]

/-- While it is paused a stranger refunds the aid, and its donor creates another. -/
def paidWhilePaused : List (Step ⟨0⟩ Entry) :=
  [.call (.signedBy ⟨0⟩ 11 11 []) (.refundAid 0),
    .call (.signedBy ⟨0⟩ 12 12 [⟨1⟩]) (.createAid ⟨1⟩ ⟨3⟩ 40 20)]

/-- Both go through, and the contract is paused before and after them. -/
theorem not_pause_stops :
    (reached (.ofList [(⟨9⟩, ⟨1⟩, 100)]) pausedRun).IsPaused ∧
      (reached (.ofList [(⟨9⟩, ⟨1⟩, 100)]) (pausedRun ++ paidWhilePaused)).IsPaused ∧
      (reached (.ofList [(⟨9⟩, ⟨1⟩, 100)]) pausedRun).tokens.balance ⟨9⟩ ⟨0⟩ = 60 ∧
      (reached (.ofList [(⟨9⟩, ⟨1⟩, 100)]) (pausedRun ++ paidWhilePaused)).tokens.balance ⟨9⟩ ⟨0⟩ =
        40 ∧
      ¬ PauseStops (.ofList [(⟨9⟩, ⟨1⟩, 100)]) (pausedRun ++ paidWhilePaused) := by
  refine ⟨by decide, by decide, by decide, by decide, fun h => ?_⟩
  have hstretch := (h.stretches pausedRun paidWhilePaused [] (List.append_nil _).symm ?_).counter
  · revert hstretch
    decide
  · intro x hx
    simp only [paidWhilePaused, trace_cons, trace_nil, List.mem_cons, List.not_mem_nil,
      or_false] at hx
    rcases hx with rfl | rfl
    · decide
    · decide

end Trellis.Aid
