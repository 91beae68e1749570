import Trellis.Lib.Lockstep
import Trellis.Shared.Auth
import Trellis.Shared.Storage

/-!
# How long a role lasts

The role functions of `shared::auth` over persistent storage whose entries expire. `has_role` is
documented to extend the role entry on every successful check, but reads it with `persistent_has`,
which extends nothing: only a grant sets the live-until ledger.

Results:
* `finds_iff`: a check finds a role up to the live-until ledger of its entry.
* `sameEntry_step`: a step that neither grants nor revokes a role leaves its entry alone.
* `lookup_step_of_grants`: a grant sets the live-until ledger.
* `first_check_finds`: the first check after a grant finds the role.
* `roles_stay_iff`: the checks of a role that is in use all find it exactly when none is past the
  ledger that the last grant reached.
* `outgrown_use`: checks less than the threshold apart, the second of which does not find the role.
* `grantRole_seenAt` and the like: within one ledger these are the role functions of
  `Trellis.Shared.Auth`.
-/

namespace Trellis.Roles

open Exec

variable {me : Address} {ε : Type}

/-! ## The role functions -/

/-- The entries `DataKey::Role(address, role)`. -/
abbrev Store : Type := Leases (Address × Role) Bool

/-- Model of `has_role` (shared/src/auth.rs:87–89). -/
def hasRole (env : Env me) (user : Address) (role : Role) : Invocation Store ε Bool :=
  persistentHas env (user, role)

/-- Model of `grant_role` (shared/src/auth.rs:97–106). -/
def grantRole (term : ℕ) (env : Env me) (adminCaller user : Address) (role : Role) :
    Invocation Store Error Unit := do
  requireAdmin env adminCaller
  persistentSet term env (user, role) true

/-- Model of `revoke_role` (shared/src/auth.rs:116–125). -/
def revokeRole (env : Env me) (adminCaller user : Address) (role : Role) :
    Invocation Store Error Unit := do
  requireAdmin env adminCaller
  persistentRemove (user, role)

/-- Model of `require_role` (shared/src/auth.rs:135–141). -/
def requireRole (env : Env me) (caller : Address) (role : Role) : Invocation Store Error Unit := do
  let held ← hasRole env caller role
  failIf (held = false) .unauthorized
  requireAuth env caller

@[simp] theorem hasRole_ok {env : Env me} {user : Address} {role : Role} {w w' : World Store}
    {b : Bool} : (hasRole env user role : Invocation Store ε Bool) w = .ok b w' ↔
      b = (Leases.find w.store env.sequence (user, role)).isSome ∧ w' = w := persistentHas_ok

@[simp] theorem grantRole_ok {term : ℕ} {env : Env me} {adminCaller user : Address} {role : Role}
    {w w' : World Store} {u : Unit} :
    grantRole term env adminCaller user role w = .ok u w' ↔
      w.shared.admin = some adminCaller ∧ env.signed adminCaller = true ∧
        w' = { w with store := Leases.written w.store term env.sequence (user, role) true } := by
  simp [grantRole, and_assoc]

@[simp] theorem revokeRole_ok {env : Env me} {adminCaller user : Address} {role : Role}
    {w w' : World Store} {u : Unit} :
    revokeRole env adminCaller user role w = .ok u w' ↔
      w.shared.admin = some adminCaller ∧ env.signed adminCaller = true ∧
        w' = { w with store := w.store.erase (user, role) } := by
  simp [revokeRole, and_assoc]

@[simp] theorem requireRole_ok {env : Env me} {caller : Address} {role : Role} {w w' : World Store}
    {u : Unit} :
    requireRole env caller role w = .ok u w' ↔
      (Leases.find w.store env.sequence (caller, role)).isSome = true ∧ env.signed caller = true ∧
        w' = w := by
  simp [requireRole, and_assoc]

/-! ## The role functions without expiry -/

/-- The role entries that are there at the ledger `now`. -/
def present (now : ℕ) (m : Store) : Finset (Address × Role) :=
  m.keys.filter fun key => (Leases.find m now key).isSome = true

/-- The state at the ledger `now`, with the set of the roles that are there. -/
def seenAt (now : ℕ) (w : World Store) : World Unit where
  shared := { w.shared with roles := present now w.store }
  store := ()
  tokens := w.tokens
  events := w.events

theorem mem_present {now : ℕ} {m : Store} {key : Address × Role} :
    key ∈ present now m ↔ (Leases.find m now key).isSome = true := by
  rw [present, Finset.mem_filter]
  refine and_iff_right_of_imp fun hfind => ?_
  obtain ⟨e, he, -⟩ := Leases.isSome_find.mp hfind
  exact Table.mem_keys_of_lookup he

theorem present_written (m : Store) (term now : ℕ) (key : Address × Role) (value : Bool) :
    present now (Leases.written m term now key value) = insert key (present now m) := by
  ext key'
  rw [Finset.mem_insert, mem_present, mem_present, Leases.isSome_find, Leases.isSome_find]
  by_cases hkey : key' = key
  · subst hkey
    rw [Leases.lookup_written]
    refine iff_of_true ⟨_, rfl, ?_⟩ (.inl rfl)
    exact (Nat.le_add_right now _).trans (add_le_writtenUntil m term now key')
  · rw [Leases.lookup_written_of_ne _ _ _ hkey, or_iff_right hkey]

theorem present_erase (m : Store) (now : ℕ) (key : Address × Role) :
    present now (m.erase key) = (present now m).erase key := by
  ext key'
  rw [Finset.mem_erase, mem_present, mem_present, Leases.isSome_find, Leases.isSome_find,
    Table.lookup_unset]
  by_cases hkey : key' = key
  · simp [hkey]
  · rw [if_neg hkey, and_iff_right hkey]

/-- The admin guard does not look at the roles. -/
theorem requireAdmin_seenAt (now : ℕ) (env : Env me) (caller : Address) :
    SeenThrough (seenAt now) (requireAdmin env caller) (requireAdmin env caller) := by
  refine .bind (.bind (.gets fun _ => rfl) fun admin => .expect admin _) fun admin => ?_
  exact .bind (.failIf _ _) fun _ => .trapIf _ _

theorem hasRole_seenAt (env : Env me) (user : Address) (role : Role) :
    SeenThrough (seenAt env.sequence) (hasRole env user role : Invocation Store ε Bool)
      (Trellis.hasRole user role) := by
  refine .gets fun w => ?_
  rw [Bool.eq_iff_iff, decide_eq_true_iff]
  exact mem_present.symm

theorem grantRole_seenAt (term : ℕ) (env : Env me) (adminCaller user : Address) (role : Role) :
    SeenThrough (seenAt env.sequence) (grantRole term env adminCaller user role)
      (Trellis.grantRole env adminCaller user role) := by
  refine .bind (requireAdmin_seenAt _ env adminCaller) fun _ => .of_ok fun w => ?_
  refine ⟨(), _, persistentSet_ok.mpr rfl, writeShared_ok.mpr ?_⟩
  rw [seenAt, present_written]
  rfl

theorem revokeRole_seenAt (env : Env me) (adminCaller user : Address) (role : Role) :
    SeenThrough (seenAt env.sequence) (revokeRole env adminCaller user role)
      (Trellis.revokeRole env adminCaller user role) := by
  refine .bind (requireAdmin_seenAt _ env adminCaller) fun _ => .of_ok fun w => ?_
  refine ⟨(), _, persistentRemove_ok.mpr rfl, writeShared_ok.mpr ?_⟩
  rw [seenAt, present_erase]
  rfl

theorem requireRole_seenAt (env : Env me) (caller : Address) (role : Role) :
    SeenThrough (seenAt env.sequence) (requireRole env caller role)
      (Trellis.requireRole env caller role) := by
  refine .bind (hasRole_seenAt env caller role) fun held => ?_
  exact .bind (.failIf _ _) fun _ => .trapIf _ _

/-! ## Calls -/

/-- A call of the role functions, or of `persistent_set` at the key of a role. -/
inductive Entry where
  | grantRole (adminCaller user : Address) (role : Role)
  | revokeRole (adminCaller user : Address) (role : Role)
  | hasRole (user : Address) (role : Role)
  | requireRole (caller : Address) (role : Role)
  | persistentSet (user : Address) (role : Role) (value : Bool)

/-- The state after a call: committed on `Ok`, rolled back otherwise. -/
def exec (term : ℕ) (env : Env me) : Entry → World Store → World Store
  | .grantRole adminCaller user role => (grantRole term env adminCaller user role).commit
  | .revokeRole adminCaller user role => (revokeRole env adminCaller user role).commit
  | .hasRole user role => (hasRole env user role : Invocation Store Error Bool).commit
  | .requireRole caller role => (requireRole env caller role).commit
  | .persistentSet user role value =>
    (persistentSet term env (user, role) value : Invocation Store Error Unit).commit

/-- A step of the chain as a contract with these functions sees it. -/
def step (term : ℕ) : Step me Entry → World Store → World Store := Step.apply (exec term)

/-- The ledger in which a step is made. -/
def ledger : Step me Entry → ℕ
  | .call env _ => env.sequence
  | .outside env _ => env.sequence

/-- The role entry that a step checks. -/
def checked : Step me Entry → Option (Address × Role)
  | .call _ (.hasRole user role) => some (user, role)
  | .call _ (.requireRole caller role) => some (caller, role)
  | _ => none

/-- The check finds the role: `has_role` returns true, or `require_role` does not return
    `Unauthorized`. -/
def Finds (w : World Store) : Step me Entry → Prop
  | .call env (.hasRole user role) =>
    (hasRole env user role : Invocation Store Error Bool).value w = some true
  | .call env (.requireRole caller role) =>
    ∀ w', requireRole env caller role w ≠ .fail (.err .unauthorized) w'
  | _ => True

/-- The step grants the role: by a `grant_role` that returns `Ok`, or by a `persistent_set`. -/
def Grants (term : ℕ) (key : Address × Role) (w : World Store) : Step me Entry → Prop
  | .call env (.grantRole adminCaller user role) =>
    (user, role) = key ∧ (grantRole term env adminCaller user role).Succeeds w
  | .call _ (.persistentSet user role _) => (user, role) = key
  | _ => False

/-- The step revokes the role, by a `revoke_role` that returns `Ok`. -/
def Revokes (key : Address × Role) (w : World Store) : Step me Entry → Prop
  | .call env (.revokeRole adminCaller user role) =>
    (user, role) = key ∧ (revokeRole env adminCaller user role).Succeeds w
  | _ => False

/-! ## One step -/

variable {term : ℕ} {key : Address × Role} {w : World Store} {s : Step me Entry}

/-- A check finds a role up to the live-until ledger of its entry. -/
theorem finds_iff (hs : checked s = some key) :
    Finds w s ↔ ∃ e, w.store.lookup key = some e ∧ ledger s ≤ e.liveUntil := by
  cases s with
  | outside env x => cases hs
  | call env c =>
    cases c with
    | hasRole user role =>
      cases hs
      rw [Finds, value_of_ok (hasRole_ok.mpr ⟨rfl, rfl⟩), Option.some_inj]
      exact Leases.isSome_find
    | requireRole caller role =>
      cases hs
      -- without the signature it finds the role and then traps
      have hfound : Finds w (.call env (.requireRole caller role)) ↔
          Leases.find w.store env.sequence (caller, role) ≠ none := by
        simp [Finds, requireRole, hasRole, persistentHas, storageHas]
      rw [hfound, Option.ne_none_iff_isSome]
      exact Leases.isSome_find
    | grantRole adminCaller user role => cases hs
    | revokeRole adminCaller user role => cases hs
    | persistentSet user role value => cases hs

/-- The role entry is in `w'` what it is in `w`. -/
def SameEntry (key : Address × Role) (w w' : World Store) : Prop :=
  w'.store.lookup key = w.store.lookup key

/-- A step that neither grants nor revokes the role leaves its entry alone. -/
theorem sameEntry_step (hgrants : ¬ Grants term key w s) (hrevokes : ¬ Revokes key w s) :
    SameEntry key w (step term s w) := by
  cases s with
  | outside env x => rw [SameEntry, step, Step.apply, store_outsideTransfer]
  | call env c =>
    cases c with
    | grantRole adminCaller user role =>
      show SameEntry key w (commit _ w)
      refine commit_induct rfl fun u w' hok => ?_
      have hne : key ≠ (user, role) := fun heq => hgrants ⟨heq.symm, u, w', hok⟩
      obtain ⟨-, -, rfl⟩ := grantRole_ok.mp hok
      exact Leases.lookup_written_of_ne _ _ _ hne _
    | revokeRole adminCaller user role =>
      show SameEntry key w (commit _ w)
      refine commit_induct rfl fun u w' hok => ?_
      have hne : key ≠ (user, role) := fun heq => hrevokes ⟨heq.symm, u, w', hok⟩
      obtain ⟨-, -, rfl⟩ := revokeRole_ok.mp hok
      exact (Table.lookup_unset _ _ _).trans (if_neg hne)
    | hasRole user role =>
      show SameEntry key w (commit _ w)
      refine commit_induct rfl fun b w' hok => ?_
      obtain ⟨-, rfl⟩ := hasRole_ok.mp hok
      rfl
    | requireRole caller role =>
      show SameEntry key w (commit _ w)
      refine commit_induct rfl fun u w' hok => ?_
      obtain ⟨-, -, rfl⟩ := requireRole_ok.mp hok
      rfl
    | persistentSet user role value =>
      show SameEntry key w (commit _ w)
      refine commit_induct rfl fun u w' hok => ?_
      have hne : key ≠ (user, role) := fun heq => hgrants heq.symm
      obtain rfl := persistentSet_ok.mp hok
      exact Leases.lookup_written_of_ne _ _ _ hne _

/-- The live-until ledger of the role entry, if the entry is there at `now`. -/
def liveUntil (now : ℕ) (key : Address × Role) (w : World Store) : Option ℕ :=
  (Leases.live w.store now key).map Lease.liveUntil

/-- A grant sets the live-until ledger of the role entry. -/
theorem lookup_step_of_grants (hgrants : Grants term key w s) :
    ∃ value, (step term s w).store.lookup key =
      some ⟨value, writtenUntil term (ledger s) (liveUntil (ledger s) key w)⟩ := by
  cases s with
  | outside env x => cases hgrants
  | call env c =>
    cases c with
    | grantRole adminCaller user role =>
      obtain ⟨rfl, u, w', hok⟩ := hgrants
      refine ⟨true, ?_⟩
      show (commit _ w).store.lookup _ = _
      rw [commit_of_ok hok, (grantRole_ok.mp hok).2.2]
      exact Leases.lookup_written _ _ _ _ _
    | persistentSet user role value =>
      obtain rfl : (user, role) = key := hgrants
      refine ⟨value, ?_⟩
      show (commit _ w).store.lookup _ = _
      rw [commit_of_ok (persistentSet_ok (u := ()).mpr rfl)]
      exact Leases.lookup_written _ _ _ _ _
    | revokeRole adminCaller user role => cases hgrants
    | hasRole user role => cases hgrants
    | requireRole caller role => cases hgrants

/-! ## Runs -/

/-- The ledgers of the checks of the role. -/
def checkLedgers (key : Address × Role) (steps : List (Step me Entry)) : List ℕ :=
  (steps.filter fun s => checked s = some key).map ledger

/-- Two ledgers are less than the threshold apart. -/
def BelowThreshold (l l' : ℕ) : Prop := l' < l + persistentTtlThreshold

/-- The role is granted by the step `g` in the state `w`, and is in use up to the check `c`: it is
    not revoked in the steps `mid` between, and its checks are less than the threshold apart. -/
structure InUse (term : ℕ) (key : Address × Role) (w : World Store) (g : Step me Entry)
    (mid : List (Step me Entry)) (c : Step me Entry) : Prop where
  granted : Grants term key w g
  kept : ∀ x ∈ trace (step term) (step term g w) mid, ¬ Revokes key x.1 x.2
  checks : checked c = some key
  ordered : ((g :: (mid ++ [c])).map ledger).Pairwise (· ≤ ·)
  spaced : (ledger g :: checkLedgers key (mid ++ [c])).IsChain BelowThreshold

/-- Every check of the role in the run that is part of its use finds it. -/
def Stays (term : ℕ) (key : Address × Role) (w : World Store) (steps : List (Step me Entry)) :
    Prop :=
  ∀ pre g mid c post, steps = pre ++ g :: (mid ++ c :: post) →
    InUse term key (run (step term) w pre) g mid c →
    Finds (run (step term) (step term g (run (step term) w pre)) mid) c

/-- No check of the role that is part of its use is made later than the ledger that the last grant
    before it reached. -/
def WithinGrants (term : ℕ) (key : Address × Role) (w : World Store)
    (steps : List (Step me Entry)) : Prop :=
  ∀ pre g mid c post, steps = pre ++ g :: (mid ++ c :: post) →
    InUse term key (run (step term) w pre) g mid c →
    (∀ x ∈ trace (step term) (step term g (run (step term) w pre)) mid, ¬ Grants term key x.1 x.2) →
    ledger c ≤ writtenUntil term (ledger g) (liveUntil (ledger g) key (run (step term) w pre))

variable {g c : Step me Entry} {mid : List (Step me Entry)}

/-- With no other grant between, the check finds the role up to the ledger that the grant
    reached. -/
theorem finds_iff_of_inUse (h : InUse term key w g mid c)
    (honce : ∀ x ∈ trace (step term) (step term g w) mid, ¬ Grants term key x.1 x.2) :
    Finds (run (step term) (step term g w) mid) c ↔
      ledger c ≤ writtenUntil term (ledger g) (liveUntil (ledger g) key w) := by
  obtain ⟨value, hentry⟩ := lookup_step_of_grants h.granted
  have hkept : SameEntry key (step term g w) (run (step term) (step term g w) mid) := by
    refine run_induct_of_trace (P := SameEntry key (step term g w))
      (Q := fun v s => ¬ Grants term key v s ∧ ¬ Revokes key v s) ?_ rfl ?_
    · intro v s hv hs
      exact (sameEntry_step hs.1 hs.2).trans hv
    · intro x hx
      exact ⟨honce x hx, h.kept x hx⟩
  rw [finds_iff h.checks, hkept.trans hentry]
  constructor
  · rintro ⟨e, he, hle⟩
    obtain rfl := Option.some.inj he
    exact hle
  · intro hle
    exact ⟨_, rfl, hle⟩

/-- The first check after a grant finds the role: the grant reaches the threshold at least. -/
theorem first_check_finds (h : InUse term key w g mid c) (hfirst : checkLedgers key mid = [])
    (honce : ∀ x ∈ trace (step term) (step term g w) mid, ¬ Grants term key x.1 x.2) :
    Finds (run (step term) (step term g w) mid) c := by
  rw [finds_iff_of_inUse h honce]
  have hgap : ledger c < ledger g + persistentTtlThreshold := by
    have hspaced := h.spaced
    rw [checkLedgers, List.filter_append, List.map_append, ← checkLedgers, hfirst] at hspaced
    simpa [h.checks, BelowThreshold] using hspaced
  exact hgap.le.trans (add_le_writtenUntil w.store term (ledger g) key)

/-- A step that grants the role does not check it. -/
theorem checked_ne_of_grants (h : Grants term key w s) : checked s ≠ some key := by
  cases s with
  | outside env x => cases h
  | call env c =>
    cases c with
    | grantRole => exact nofun
    | persistentSet => exact nofun
    | revokeRole => cases h
    | hasRole => cases h
    | requireRole => cases h

/-- The use of a role goes on from a later grant. -/
theorem InUse.regrant {p : List (Step me Entry)} {g' : Step me Entry}
    (h : InUse term key w g (p ++ g' :: mid) c)
    (hgrants : Grants term key (run (step term) (step term g w) p) g') :
    InUse term key (run (step term) (step term g w) p) g' mid c := by
  have hordered := h.ordered
  have hspaced := h.spaced
  have hsteps : g :: (p ++ g' :: mid ++ [c]) = (g :: p) ++ g' :: (mid ++ [c]) := by simp
  have hchecks : checkLedgers key (p ++ g' :: mid ++ [c]) =
      checkLedgers key p ++ checkLedgers key (mid ++ [c]) := by
    simp [checkLedgers, checked_ne_of_grants hgrants]
  rw [hsteps, List.map_append, List.pairwise_append] at hordered
  rw [hchecks, ← List.cons_append, List.isChain_append] at hspaced
  obtain ⟨-, hlater, hbefore⟩ := hordered
  obtain ⟨-, hrest, hlink⟩ := hspaced
  refine ⟨hgrants, ?_, h.checks, hlater, ?_⟩
  · intro x hx
    apply h.kept
    rw [trace_append, List.mem_append, trace_cons]
    exact .inr (List.mem_cons_of_mem _ hx)
  · -- the first check after `g'` is near the last one before it, and `g'` is no earlier than that
    refine List.isChain_cons.mpr ⟨fun l' hl' => ?_, hrest⟩
    have hlast := List.getLast?_eq_some_getLast (List.cons_ne_nil (ledger g) (checkLedgers key p))
    have hgap := hlink _ hlast l' hl'
    have hsubset : ledger g :: checkLedgers key p ⊆ (g :: p).map ledger :=
      List.cons_subset_cons _ (List.map_subset _ (List.filter_subset_self p))
    have hle := hbefore _ (hsubset (List.mem_of_getLast? hlast)) _ List.mem_cons_self
    unfold BelowThreshold at hgap ⊢
    omega

/-- In every run, the checks of a role in use all find it exactly when none is made later than the
    ledger that the last grant before it reached. -/
theorem roles_stay_iff (term : ℕ) (key : Address × Role) (w : World Store)
    (steps : List (Step me Entry)) :
    Stays term key w steps ↔ WithinGrants term key w steps := by
  constructor
  · intro hstays pre g mid c post hsplit huse honce
    exact (finds_iff_of_inUse huse honce).mp (hstays pre g mid c post hsplit huse)
  · intro hwithin pre g mid c post hsplit huse
    by_cases hagain : ∃ x ∈ trace (step term) (step term g (run (step term) w pre)) mid,
        Grants term key x.1 x.2
    · -- the check counts from the last grant before it
      obtain ⟨p, g', mid', rfl, hgrants, hlast⟩ := exists_last_step hagain
      have huse' := huse.regrant hgrants
      have hrun : run (step term) w (pre ++ g :: p) =
          run (step term) (step term g (run (step term) w pre)) p := by
        rw [run_append, run_cons]
      rw [run_append, run_cons]
      rw [← hrun] at huse' hlast ⊢
      refine (finds_iff_of_inUse huse' hlast).mpr
        (hwithin (pre ++ g :: p) g' mid' c post ?_ huse' hlast)
      rw [hsplit]
      simp
    · refine (finds_iff_of_inUse huse ?_).mpr (hwithin pre g mid c post hsplit huse ?_)
      · exact fun x hx hx' => hagain ⟨x, hx, hx'⟩
      · exact fun x hx hx' => hagain ⟨x, hx, hx'⟩

/-- The admin `⟨1⟩` is set. -/
def administered : World Store :=
  { World.deployed ∅ (.ofList []) with shared := { SharedStore.empty with admin := some ⟨1⟩ } }

/-- The role of `⟨2⟩` is granted in the ledger 1000. -/
def granting : Step ⟨0⟩ Entry :=
  .call (.signedBy ⟨0⟩ 1000 0 [⟨1⟩]) (.grantRole ⟨1⟩ ⟨2⟩ .upgrader)

/-- It is checked 103679 ledgers later. -/
def checking : Step ⟨0⟩ Entry := .call (.signedBy ⟨0⟩ 104679 0 []) (.hasRole ⟨2⟩ .upgrader)

/-- It is used 103679 ledgers after that. -/
def requiring : Step ⟨0⟩ Entry := .call (.signedBy ⟨0⟩ 208358 0 [⟨2⟩]) (.requireRole ⟨2⟩ .upgrader)

theorem inUse_granting :
    InUse 4095 (⟨2⟩, .upgrader) administered granting [checking] requiring := by
  have hgranting : ledger granting = 1000 := rfl
  have hchecking : ledger checking = 104679 := rfl
  have hrequiring : ledger requiring = 208358 := rfl
  refine ⟨⟨rfl, (), _, rfl⟩, ?_, rfl, ?_, ?_⟩
  · intro x hx
    obtain rfl := List.mem_singleton.mp hx
    exact id
  · simp [hgranting, hchecking, hrequiring]
  · have hchecks : checkLedgers (⟨2⟩, .upgrader) ([checking] ++ [requiring]) =
        [ledger checking, ledger requiring] := rfl
    rw [hchecks, hgranting, hchecking, hrequiring]
    have hthreshold : persistentTtlThreshold = 103680 := rfl
    simp [BelowThreshold, hthreshold]

/-- The first of two checks, both less than the threshold after what comes before, finds the role,
    and the second does not: the first has not extended the entry. -/
theorem outgrown_use :
    Finds (run (step 4095) administered [granting]) checking ∧
      ¬ Finds (run (step 4095) administered [granting, checking]) requiring ∧
      ¬ Stays 4095 (⟨2⟩, .upgrader) administered [granting, checking, requiring] := by
  have hexpired : ¬ Finds (run (step 4095) administered [granting, checking]) requiring := by
    have hchecks : checked requiring = some (⟨2⟩, .upgrader) := rfl
    rw [finds_iff hchecks]
    rintro ⟨e, he, hle⟩
    obtain rfl : (⟨true, 121960⟩ : Lease Bool) = e := Option.some.inj he
    exact absurd hle (by decide)
  refine ⟨rfl, hexpired, ?_⟩
  intro hstays
  exact hexpired (hstays [] granting [checking] requiring [] rfl inUse_granting)

end Trellis.Roles
