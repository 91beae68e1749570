import Trellis.Aid.Contract
import Trellis.Governance.Contract
import Trellis.Lib.Run
import Trellis.Market.Transitions
import Trellis.Payments.Contract
import Trellis.Referral.Contract
import Trellis.Registry.Contract
import Trellis.Treasury.Contract
import Trellis.Upgrade.Contract

/-!
# The stored admin of the eight contracts

Eight contracts of the suite keep their admin under the key `KEY_ADMIN` of the shared crate and
write it in `initialize` only. The aid contract refuses a second `initialize`; the others do not,
and ask for no signature.

Results:
* `exec_admin` for each contract: the admin after a call is the one an accepted `initialize` names,
  or the one before the call.
* `keepsAdmin_iff`: a step takes no admin's place exactly when it is no `initialize` by which
  another than the stored admin is appointed without its signature.
* `noTakeover_iff`: the same over the runs of the eight contracts.
-/

namespace Trellis

variable {me : Address} {S C : Type}

/-! ## Takeovers -/

/-- The address signs the step. -/
def Step.SignedBy : Step me C → Address → Prop
  | .call env _, a => env.signed a = true
  | .outside env _, a => env.signed a = true

/-- The step leaves the stored admin in place, unless that admin signs it. -/
def KeepsAdmin (step : Step me C → World S → World S) (w : World S) (s : Step me C) : Prop :=
  ∀ admin, w.shared.admin = some admin →
    (step s w).shared.admin = some admin ∨ s.SignedBy admin

/-- In no step of the run another takes the place of the stored admin without its signature. -/
def NoTakeover (step : Step me C → World S → World S) (w : World S) (steps : List (Step me C)) :
    Prop :=
  ∀ x ∈ trace step w steps, KeepsAdmin step x.1 x.2

/-- A call that appoints an admin is signed by the stored one, or appoints it again. `appoints c` is
    the admin that the call `c` appoints, if it is an `initialize` with arguments that are
    accepted. -/
def Admits (appoints : C → Option Address) (w : World S) : Step me C → Prop
  | .call env c => ∀ admin next, w.shared.admin = some admin → appoints c = some next →
      next = admin ∨ env.signed admin = true
  | .outside _ _ => True

/-- Every step of the run is so. -/
def Guarded (appoints : C → Option Address) (step : Step me C → World S → World S) (w : World S)
    (steps : List (Step me C)) : Prop :=
  ∀ x ∈ trace step w steps, Admits appoints x.1 x.2

section

variable {exec : Env me → C → World S → World S} {appoints : C → Option Address}

/-- When a call that appoints an admin succeeds, and a success stores the appointed admin or keeps
    the stored one, so does every call. -/
theorem exec_admin_of {D : Env me → World S → C → World S → Prop}
    (hcases : ∀ env c w, exec env c w = w ∨ D env w c (exec env c w))
    (hadmin : ∀ env w c w', D env w c w' → w'.shared.admin = (appoints c).or w.shared.admin)
    (happoint : ∀ env c w a, appoints c = some a → D env w c (exec env c w)) (env : Env me) (c : C)
    (w : World S) : (exec env c w).shared.admin = (appoints c).or w.shared.admin := by
  cases happ : appoints c with
  | none =>
    rcases hcases env c w with h | h
    · rw [h]
      rfl
    · rw [hadmin env w c _ h, happ]
  | some a => rw [hadmin env w c _ (happoint env c w a happ), happ]

/-- A step takes no admin's place exactly when it admits no unsigned appointment of another. -/
theorem keepsAdmin_iff
    (hexec : ∀ env c w, (exec env c w).shared.admin = (appoints c).or w.shared.admin) (w : World S)
    (s : Step me C) : KeepsAdmin (Step.apply exec) w s ↔ Admits appoints w s := by
  cases s with
  | outside env x =>
    refine iff_of_true (fun admin hadmin => .inl ?_) trivial
    rw [Step.apply, shared_outsideTransfer]
    exact hadmin
  | call env c =>
    unfold KeepsAdmin Admits
    refine forall_congr' fun admin => ?_
    rw [Step.apply, hexec, Step.SignedBy]
    cases appoints c with
    | none => exact iff_of_true (fun hadmin => .inl hadmin) fun next _ hnext => by cases hnext
    | some next =>
      constructor
      · intro h next' hadmin hnext
        rw [← Option.some.inj hnext]
        exact (h hadmin).imp_left Option.some.inj
      · intro h hadmin
        exact (h next hadmin rfl).imp_left fun hnext => by rw [hnext]; rfl

/-- The same over a run. -/
theorem noTakeover_iff_guarded
    (hexec : ∀ env c w, (exec env c w).shared.admin = (appoints c).or w.shared.admin) (w : World S)
    (steps : List (Step me C)) :
    NoTakeover (Step.apply exec) w steps ↔ Guarded appoints (Step.apply exec) w steps :=
  forall₂_congr fun x _ => keepsAdmin_iff hexec x.1 x.2

end

/-! ## The contracts -/

namespace Treasury

/-- The admin that the call appoints. -/
def Entry.appoints : Entry → Option Address
  | .init admin limit => if 0 < limit then some admin else none
  | _ => none

theorem done_admin {env : Env me} {w w' : World Store} {c : Entry} (h : Done env w c w') :
    w'.shared.admin = c.appoints.or w.shared.admin := by
  cases h with
  | init hpos =>
    rw [Entry.appoints, if_pos hpos]
    rfl
  | _ => rfl

theorem done_of_appoints {env : Env me} {w : World Store} {c : Entry} {a : Address}
    (h : c.appoints = some a) : Done env w c (exec env c w) := by
  cases c with
  | init admin limit =>
    obtain ⟨hpos, -⟩ := Option.ite_none_right_eq_some.mp h
    exact Exec.commit_of_succeeds (fun _ _ => init_done) (by simp [Exec.Succeeds, init, hpos])
  | _ => cases h

/-- The admin after a call. -/
theorem exec_admin (env : Env me) (c : Entry) (w : World Store) :
    (exec env c w).shared.admin = c.appoints.or w.shared.admin :=
  exec_admin_of exec_cases (fun _ _ _ _ => done_admin) (fun _ _ _ _ => done_of_appoints) env c w

end Treasury

namespace Payments

/-- The admin that the call appoints. -/
def Entry.appoints : Entry → Option Address
  | .init admin _ rate _ => if 0 ≤ rate ∧ rate ≤ 10000 then some admin else none
  | _ => none

theorem done_admin {env : Env me} {w w' : World Store} {c : Entry} (h : Done env w c w') :
    w'.shared.admin = c.appoints.or w.shared.admin := by
  cases h with
  | init events h₀ h₁ =>
    rw [Entry.appoints, if_pos ⟨h₀, h₁⟩]
    rfl
  | _ => rfl

theorem done_of_appoints {env : Env me} {w : World Store} {c : Entry} {a : Address}
    (h : c.appoints = some a) : Done env w c (exec env c w) := by
  cases c with
  | init admin token rate recipient =>
    obtain ⟨hrate, -⟩ := Option.ite_none_right_eq_some.mp h
    exact Exec.commit_of_succeeds (fun _ _ => init_done) (by simp [Exec.Succeeds, init, hrate])
  | _ => cases h

/-- The admin after a call. -/
theorem exec_admin (env : Env me) (c : Entry) (w : World Store) :
    (exec env c w).shared.admin = c.appoints.or w.shared.admin :=
  exec_admin_of exec_cases (fun _ _ _ _ => done_admin) (fun _ _ _ _ => done_of_appoints) env c w

end Payments

namespace Governance

/-- The admin that the call appoints. -/
def Entry.appoints : Entry → Option Address
  | .init admin threshold adminSet =>
    if 1 ≤ threshold ∧ threshold ≤ adminSet.length then some admin else none
  | _ => none

theorem done_admin {env : Env me} {w w' : World Store} {c : Entry} (h : Done env w c w') :
    w'.shared.admin = c.appoints.or w.shared.admin := by
  cases h with
  | init events hpos hlen =>
    rw [Entry.appoints, if_pos ⟨hpos, hlen⟩]
    rfl
  | execute events p => exact effect_admin w p.action
  | _ => rfl

theorem done_of_appoints {env : Env me} {w : World Store} {c : Entry} {a : Address}
    (h : c.appoints = some a) : Done env w c (exec env c w) := by
  cases c with
  | init admin threshold adminSet =>
    obtain ⟨⟨hpos, hlen⟩, -⟩ := Option.ite_none_right_eq_some.mp h
    refine Exec.commit_of_succeeds (fun _ _ => init_done) ?_
    simp [Exec.Succeeds, init, seedDefaults, Nat.ne_of_gt hpos, hlen]
  | _ => cases h

/-- The admin after a call. -/
theorem exec_admin (env : Env me) (c : Entry) (w : World Store) :
    (exec env c w).shared.admin = c.appoints.or w.shared.admin :=
  exec_admin_of exec_cases (fun _ _ _ _ => done_admin) (fun _ _ _ _ => done_of_appoints) env c w

end Governance

namespace Registry

/-- The admin that the call appoints. -/
def Entry.appoints : Entry → Option Address
  | .init admin => some admin
  | _ => none

theorem done_admin {env : Env me} {w w' : World Store} {c : Entry} (h : Done env w c w') :
    w'.shared.admin = c.appoints.or w.shared.admin := by
  cases h <;> rfl

theorem done_of_appoints {env : Env me} {w : World Store} {c : Entry} {a : Address}
    (h : c.appoints = some a) : Done env w c (exec env c w) := by
  cases c with
  | init admin =>
    exact Exec.commit_of_succeeds (fun _ _ => init_done) (by simp [Exec.Succeeds, init])
  | _ => cases h

/-- The admin after a call. -/
theorem exec_admin (env : Env me) (c : Entry) (w : World Store) :
    (exec env c w).shared.admin = c.appoints.or w.shared.admin :=
  exec_admin_of exec_cases (fun _ _ _ _ => done_admin) (fun _ _ _ _ => done_of_appoints) env c w

end Registry

namespace Upgrade

variable {X : Type}

/-- The admin that the call appoints. -/
def Entry.appoints : Entry X → Option Address
  | .init admin => some admin
  | _ => none

theorem done_admin {env : Env me} {w w' : World (Linked Store X)} {c : Entry X}
    (h : Done env w c w') : w'.shared.admin = c.appoints.or w.shared.admin := by
  cases h <;> rfl

theorem done_of_appoints {env : Env me} {w : World (Linked Store X)} {c : Entry X} {a : Address}
    (h : c.appoints = some a) : Done env w c (exec env c w) := by
  cases c with
  | init admin =>
    exact Exec.commit_of_succeeds (fun _ _ => init_done) (by simp [Exec.Succeeds, init])
  | _ => cases h

/-- The admin after a call. -/
theorem exec_admin (env : Env me) (c : Entry X) (w : World (Linked Store X)) :
    (exec env c w).shared.admin = c.appoints.or w.shared.admin :=
  exec_admin_of exec_cases (fun _ _ _ _ => done_admin) (fun _ _ _ _ => done_of_appoints) env c w

end Upgrade

namespace Referral

variable {X : Type}

/-- The admin that the call appoints. -/
def Entry.appoints : Entry X → Option Address
  | .init admin => some admin
  | _ => none

theorem shared_of_credited {baseAmount rewardCap : ℤ} {xs : List (Address × ℤ)}
    {w w' : World (Linked Store X)} (h : Each (Credited baseAmount rewardCap) xs w w') :
    w'.shared = w.shared := by
  have hitem : ∀ (x : Address × ℤ) (w w' : World (Linked Store X)),
      Credited baseAmount rewardCap x w w' → w'.shared = w.shared := by
    rintro x w w' ⟨commission, events, -, rfl⟩
    rfl
  induction h with
  | nil => rfl
  | cons hx _ ih => rw [ih, hitem _ _ _ hx]

theorem done_admin {env : Env me} {w w' : World (Linked Store X)} {c : Entry X}
    (h : Done env w c w') : w'.shared.admin = c.appoints.or w.shared.admin := by
  cases h with
  | accrue w' maxTiers rewardCap rates hadmin hsigned hpos hmaxTiers hcap hrates heach =>
    rw [shared_of_credited heach]
    rfl
  | _ => rfl

theorem done_of_appoints {env : Env me} {w : World (Linked Store X)} {c : Entry X} {a : Address}
    (h : c.appoints = some a) : Done env w c (exec env c w) := by
  cases c with
  | init admin =>
    exact Exec.commit_of_succeeds (fun _ _ => init_done) (by simp [Exec.Succeeds, init])
  | _ => cases h

/-- The admin after a call. -/
theorem exec_admin (env : Env me) (c : Entry X) (w : World (Linked Store X)) :
    (exec env c w).shared.admin = c.appoints.or w.shared.admin :=
  exec_admin_of exec_cases (fun _ _ _ _ => done_admin) (fun _ _ _ _ => done_of_appoints) env c w

end Referral

namespace Market

/-- The admin that the call appoints. -/
def Entry.appoints : Entry → Option Address
  | .init admin fee _ increment _ =>
    if (0 ≤ fee ∧ fee ≤ maxFeeBps) ∧ 0 ≤ increment ∧ increment ≤ 5000 then some admin else none
  | _ => none

theorem shared_of_listed {env : Env me} {seller : Address} {items : List BulkListingItem}
    {w w' : World Store} (h : Each (ListedOrSkipped env seller) items w w') :
    w'.shared = w.shared := by
  induction h with
  | nil => rfl
  | cons hitem _ ih =>
    unfold ListedOrSkipped at hitem
    split_ifs at hitem
    · rw [ih, hitem.shared]
    · rw [ih, hitem]

theorem shared_of_auctioned {env : Env me} {seller : Address} {items : List BulkAuctionItem}
    {w w' : World Store} (h : Each (AuctionedOrSkipped env seller) items w w') :
    w'.shared = w.shared := by
  induction h with
  | nil => rfl
  | cons hitem _ ih =>
    unfold AuctionedOrSkipped at hitem
    split_ifs at hitem
    · rw [ih, hitem.shared]
    · rw [ih, hitem]

theorem done_admin {env : Env me} {w w' : World Store} {c : Entry} (h : Done env w c w') :
    w'.shared.admin = c.appoints.or w.shared.admin := by
  cases h with
  | init events hfee hincrement =>
    rw [Entry.appoints, if_pos ⟨hfee, hincrement⟩]
    rfl
  | listNft w₁ events hactive hsigned hprice hcurrency hhash hcollection hlisted =>
    exact congrArg SharedStore.admin hlisted.shared
  | buyNft l feeRecipient fee w₁ s events hactive hsigned hl hopen hsold hstats =>
    exact congrArg SharedStore.admin hsold.shared
  | createEnglishAuction w₁ e events hactive hsigned hstart hcurrency hhash hcollection hduration
      hend hauctioned => exact congrArg SharedStore.admin hauctioned.shared
  | settleSold a feeRecipient fee w₁ s events hactive ha hopen htime hbid hsold hstats =>
    exact congrArg SharedStore.admin hsold.shared
  | createDutchAuction w₁ e events hactive hsigned hstart hfloor hcurrency hhash hcollection hprices
      hduration hend hauctioned => exact congrArg SharedStore.admin hauctioned.shared
  | buyDutchAuction a price feeRecipient fee w₁ s events hactive hsigned ha hopen htype hprice hne
      hsold hstats => exact congrArg SharedStore.admin hsold.shared
  | bulkList w' hactive hsigned hlength heach =>
    exact congrArg SharedStore.admin (shared_of_listed heach)
  | bulkCreateAuctions w' hactive hsigned hlength heach =>
    exact congrArg SharedStore.admin (shared_of_auctioned heach)
  | _ => rfl

theorem done_of_appoints {env : Env me} {w : World Store} {c : Entry} {a : Address}
    (h : c.appoints = some a) : Done env w c (exec env c w) := by
  cases c with
  | init admin fee recipient increment extension =>
    obtain ⟨⟨hfee, hincrement⟩, -⟩ := Option.ite_none_right_eq_some.mp h
    exact Exec.commit_of_succeeds (fun _ _ => init_done)
      (by simp [Exec.Succeeds, init, hfee, hincrement])
  | _ => cases h

/-- The admin after a call. -/
theorem exec_admin (env : Env me) (c : Entry) (w : World Store) :
    (exec env c w).shared.admin = c.appoints.or w.shared.admin :=
  exec_admin_of exec_cases (fun _ _ _ _ => done_admin) (fun _ _ _ _ => done_of_appoints) env c w

end Market

namespace Aid

/-- A call keeps the admin and the flag that `initialize` sets, or it is the first `initialize`. -/
def AdminMove (w w' : World Store) : Prop :=
  w'.shared.admin = w.shared.admin ∧ w'.store.initialized = w.store.initialized ∨
    w.store.isInitialized = false ∧ w'.store.isInitialized = true

theorem exec_admin (env : Env me) (c : Entry) (w : World Store) : AdminMove w (exec env c w) := by
  have hsame : AdminMove w w := .inl ⟨rfl, rfl⟩
  cases c with
  | init admin treasury token secs =>
    refine Exec.commit_induct hsame fun u w' h => ?_
    simp [init] at h
    obtain ⟨hnot, -, rfl⟩ := h
    exact .inr ⟨hnot, rfl⟩
  | updateConfig admin treasury secs =>
    refine Exec.commit_induct hsame fun u w' h => ?_
    simp [updateConfig] at h
    obtain ⟨-, -, rfl⟩ := h
    exact .inl ⟨rfl, rfl⟩
  | createAid donor recipient amount expiry =>
    refine Exec.commit_induct hsame fun id w' h => ?_
    simp [createAid] at h
    obtain ⟨-, -, -, -, token, -, ⟨-, rfl⟩, rfl⟩ := h
    exact .inl ⟨rfl, rfl⟩
  | claimAid id recipient =>
    refine Exec.commit_induct hsame fun u w' h => ?_
    simp [claimAid] at h
    obtain ⟨-, -, r, -, -, -, -, -, rfl⟩ := h
    exact .inl ⟨rfl, rfl⟩
  | refundAid id =>
    refine Exec.commit_induct hsame fun u w' h => ?_
    simp [refundAid] at h
    obtain ⟨r, -, -, -, -, -, rfl⟩ := h
    exact .inl ⟨rfl, rfl⟩
  | setPaused admin paused =>
    refine Exec.commit_induct hsame fun u w' h => ?_
    simp [setPaused] at h
    obtain ⟨-, -, rfl⟩ := h
    exact .inl ⟨rfl, rfl⟩

/-- Before the first `initialize` there is no admin. -/
def AdminFlagged (w : World Store) : Prop := w.store.isInitialized = false → w.shared.admin = none

theorem adminFlagged_step {w : World Store} (h : AdminFlagged w) (s : Step me Entry) :
    AdminFlagged (step s w) := by
  cases s with
  | outside env x =>
    unfold AdminFlagged step Step.apply
    rw [store_outsideTransfer, shared_outsideTransfer]
    exact h
  | call env c =>
    intro hnot
    rcases exec_admin env c w with ⟨hadmin, hflag⟩ | ⟨-, hyes⟩
    · refine hadmin.trans (h ?_)
      have hnot' : (exec env c w).store.isInitialized = false := hnot
      rwa [Store.isInitialized, hflag] at hnot'
    · exact absurd hnot (by rw [step, Step.apply, hyes]; decide)

theorem keepsAdmin_of_flagged {w : World Store} (h : AdminFlagged w) (s : Step me Entry) :
    KeepsAdmin step w s := by
  intro admin hadmin
  refine .inl ?_
  cases s with
  | outside env x =>
    rw [step, Step.apply, shared_outsideTransfer]
    exact hadmin
  | call env c =>
    rcases exec_admin env c w with ⟨hsame, -⟩ | ⟨hnot, -⟩
    · exact hsame.trans hadmin
    · rw [h hnot] at hadmin
      cases hadmin

theorem noTakeover (tokens : TokenLedger) (steps : List (Step me Entry)) :
    NoTakeover step (World.deployed Store.empty tokens) steps := by
  intro x hx
  have hflagged : AdminFlagged x.1 :=
    trace_induct (P := AdminFlagged) (fun _ s h => adminFlagged_step h s) (fun _ => rfl) hx
  exact keepsAdmin_of_flagged hflagged x.2

end Aid

/-! ## The suite -/

/-- In every run of the aid contract the admin stays; in every run of the other seven no other
    address takes the place of the stored admin without its signature exactly when no accepted
    `initialize` of the run appoints another than the stored admin without its signature. -/
theorem noTakeover_iff {X : Type} :
    (∀ tokens (steps : List (Step me Aid.Entry)),
      NoTakeover Aid.step (World.deployed Aid.Store.empty tokens) steps) ∧
    (∀ tokens (steps : List (Step me Treasury.Entry)),
      NoTakeover Treasury.step (World.deployed Treasury.Store.empty tokens) steps ↔
        Guarded Treasury.Entry.appoints Treasury.step
          (World.deployed Treasury.Store.empty tokens) steps) ∧
    (∀ tokens (steps : List (Step me Payments.Entry)),
      NoTakeover Payments.step (World.deployed Payments.Store.empty tokens) steps ↔
        Guarded Payments.Entry.appoints Payments.step
          (World.deployed Payments.Store.empty tokens) steps) ∧
    (∀ tokens (x : X) (steps : List (Step me (Referral.Entry X))),
      NoTakeover Referral.step (World.deployed ⟨Referral.Store.empty, x⟩ tokens) steps ↔
        Guarded Referral.Entry.appoints Referral.step
          (World.deployed ⟨Referral.Store.empty, x⟩ tokens) steps) ∧
    (∀ tokens (steps : List (Step me Governance.Entry)),
      NoTakeover Governance.step (World.deployed Governance.Store.empty tokens) steps ↔
        Guarded Governance.Entry.appoints Governance.step
          (World.deployed Governance.Store.empty tokens) steps) ∧
    (∀ tokens (steps : List (Step me Registry.Entry)),
      NoTakeover Registry.step (World.deployed Registry.Store.empty tokens) steps ↔
        Guarded Registry.Entry.appoints Registry.step
          (World.deployed Registry.Store.empty tokens) steps) ∧
    (∀ tokens (x : X) (steps : List (Step me (Upgrade.Entry X))),
      NoTakeover Upgrade.step (World.deployed ⟨Upgrade.Store.empty, x⟩ tokens) steps ↔
        Guarded Upgrade.Entry.appoints Upgrade.step
          (World.deployed ⟨Upgrade.Store.empty, x⟩ tokens) steps) ∧
    (∀ tokens (steps : List (Step me Market.Entry)),
      NoTakeover Market.step (World.deployed Market.Store.empty tokens) steps ↔
        Guarded Market.Entry.appoints Market.step
          (World.deployed Market.Store.empty tokens) steps) :=
  ⟨Aid.noTakeover,
    fun _ => noTakeover_iff_guarded Treasury.exec_admin _,
    fun _ => noTakeover_iff_guarded Payments.exec_admin _,
    fun _ _ => noTakeover_iff_guarded Referral.exec_admin _,
    fun _ => noTakeover_iff_guarded Governance.exec_admin _,
    fun _ => noTakeover_iff_guarded Registry.exec_admin _,
    fun _ _ => noTakeover_iff_guarded Upgrade.exec_admin _,
    fun _ => noTakeover_iff_guarded Market.exec_admin _⟩

/-! ## A takeover -/

/-- Two calls in environments in which nobody signs. -/
def twice (first second : C) : List (Step ⟨0⟩ C) :=
  [.call (.signedBy ⟨0⟩ 1 1 []) first, .call (.signedBy ⟨0⟩ 2 2 []) second]

/-- A second `initialize` that nobody signs replaces the admin `⟨1⟩` by `⟨2⟩`. -/
theorem takeover_of {step : Step ⟨0⟩ C → World S → World S} {w : World S} {first second : C}
    (hfirst : (step (.call (.signedBy ⟨0⟩ 1 1 []) first) w).shared.admin = some ⟨1⟩)
    (hsecond : (run step w (twice first second)).shared.admin = some ⟨2⟩) :
    ¬ NoTakeover step w (twice first second) := by
  intro h
  have hlast := h (step (.call (.signedBy ⟨0⟩ 1 1 []) first) w,
    .call (.signedBy ⟨0⟩ 2 2 []) second) (by simp [twice]) ⟨1⟩ hfirst
  rcases hlast with hadmin | hsigned
  · have hne := hsecond.symm.trans hadmin
    cases hne
  · have hno : (Env.signedBy ⟨0⟩ 2 2 []).signed ⟨1⟩ = false := by decide
    rw [Step.SignedBy, hno] at hsigned
    cases hsigned

/-- Seven contracts let anyone replace the admin. -/
theorem takeover :
    ¬ NoTakeover Treasury.step (World.deployed Treasury.Store.empty (Ledger.ofList []))
      (twice (.init ⟨1⟩ 1) (.init ⟨2⟩ 1)) ∧
    ¬ NoTakeover Payments.step (World.deployed Payments.Store.empty (Ledger.ofList []))
      (twice (.init ⟨1⟩ ⟨9⟩ 0 ⟨8⟩) (.init ⟨2⟩ ⟨9⟩ 0 ⟨8⟩)) ∧
    ¬ NoTakeover Referral.step (World.deployed ⟨Referral.Store.empty, ()⟩ (Ledger.ofList []))
      (twice (.init ⟨1⟩) (.init ⟨2⟩)) ∧
    ¬ NoTakeover Governance.step (World.deployed Governance.Store.empty (Ledger.ofList []))
      (twice (.init ⟨1⟩ 1 [⟨1⟩]) (.init ⟨2⟩ 1 [⟨2⟩])) ∧
    ¬ NoTakeover Registry.step (World.deployed Registry.Store.empty (Ledger.ofList []))
      (twice (.init ⟨1⟩) (.init ⟨2⟩)) ∧
    ¬ NoTakeover Upgrade.step (World.deployed ⟨Upgrade.Store.empty, ()⟩ (Ledger.ofList []))
      (twice (.init ⟨1⟩) (.init ⟨2⟩)) ∧
    ¬ NoTakeover Market.step (World.deployed Market.Store.empty (Ledger.ofList []))
      (twice (.init ⟨1⟩ 0 ⟨8⟩ 0 0) (.init ⟨2⟩ 0 ⟨8⟩ 0 0)) :=
  ⟨takeover_of rfl rfl, takeover_of rfl rfl, takeover_of rfl rfl, takeover_of rfl rfl,
    takeover_of rfl rfl, takeover_of rfl rfl, takeover_of rfl rfl⟩

end Trellis
