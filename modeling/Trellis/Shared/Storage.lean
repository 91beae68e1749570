import Trellis.Lib.Lease
import Trellis.Shared.World

/-!
# Persistent storage and its time to live

Model of the persistent helpers of `shared::storage` (shared/src/storage.rs), for a contract whose
storage is a table of entries with a live-until ledger. The first section is
`env.storage().persistent()` of the host: an entry past its live-until ledger is absent, a new entry
lives for `term` ledgers (a setting of the network), and `extend_ttl` extends an entry with less
than `threshold` ledgers left. The most that the network lets an entry live is not part of it.

Results:
* `persistentGet_ok`, `persistentSet_ok`, `persistentHas_ok`: what the helpers return and write.
* `Leases.lookup_written`, `add_le_writtenUntil`: the live-until ledger of an entry that is written.
* `persistentGet_keeps`: an entry that is read with `persistent_get` at gaps of at most
  `PERSISTENT_TTL_THRESHOLD` ledgers is found every time.
-/

namespace Trellis

open Exec

variable {me : Address} {K V ε : Type} [DecidableEq K]

/-! ## Persistent storage of the host -/

/-- `env.storage().persistent().get(key)`. -/
def storageGet (env : Env me) (key : K) : Invocation (Leases K V) ε (Option V) :=
  read fun m => Leases.find m env.sequence key

/-- `env.storage().persistent().has(key)`. -/
def storageHas (env : Env me) (key : K) : Invocation (Leases K V) ε Bool :=
  read fun m => (Leases.find m env.sequence key).isSome

/-- `env.storage().persistent().set(key, value)`. -/
def storageSet (term : ℕ) (env : Env me) (key : K) (value : V) : Invocation (Leases K V) ε Unit :=
  write fun m => Leases.put m term env.sequence key value

/-- `env.storage().persistent().remove(key)`. -/
def storageRemove (key : K) : Invocation (Leases K V) ε Unit := write fun m => m.erase key

/-- `env.storage().persistent().extend_ttl(key, threshold, extend_to)`: traps when there is no
    entry. -/
def storageExtendTtl (env : Env me) (key : K) (threshold extendTo : ℕ) :
    Invocation (Leases K V) ε Unit := do
  let present ← storageHas env key
  trapIf (present = false) .missing
  write fun m => Leases.extend m threshold extendTo env.sequence key

@[simp] theorem storageGet_ok {env : Env me} {key : K} {w w' : World (Leases K V)} {o : Option V} :
    (storageGet env key : Invocation (Leases K V) ε (Option V)) w = .ok o w' ↔
      o = Leases.find w.store env.sequence key ∧ w' = w := by
  simp [storageGet]

@[simp] theorem storageHas_ok {env : Env me} {key : K} {w w' : World (Leases K V)} {b : Bool} :
    (storageHas env key : Invocation (Leases K V) ε Bool) w = .ok b w' ↔
      b = (Leases.find w.store env.sequence key).isSome ∧ w' = w := by
  simp [storageHas]

@[simp] theorem storageSet_ok {term : ℕ} {env : Env me} {key : K} {value : V}
    {w w' : World (Leases K V)} {u : Unit} :
    (storageSet term env key value : Invocation (Leases K V) ε Unit) w = .ok u w' ↔
      w' = { w with store := Leases.put w.store term env.sequence key value } := by
  simp [storageSet]

@[simp] theorem storageRemove_ok {key : K} {w w' : World (Leases K V)} {u : Unit} :
    (storageRemove key : Invocation (Leases K V) ε Unit) w = .ok u w' ↔
      w' = { w with store := w.store.erase key } := by
  simp [storageRemove]

@[simp] theorem storageExtendTtl_ok {env : Env me} {key : K} {threshold extendTo : ℕ}
    {w w' : World (Leases K V)} {u : Unit} :
    (storageExtendTtl env key threshold extendTo : Invocation (Leases K V) ε Unit) w = .ok u w' ↔
      (Leases.find w.store env.sequence key).isSome = true ∧
        w' = { w with store := Leases.extend w.store threshold extendTo env.sequence key } := by
  simp [storageExtendTtl]

/-! ## The helpers -/

/-- `PERSISTENT_BUMP_AMOUNT` (shared/src/storage.rs:34). -/
def persistentBumpAmount : ℕ := 120960

/-- `PERSISTENT_TTL_THRESHOLD` (shared/src/storage.rs:36). -/
def persistentTtlThreshold : ℕ := persistentBumpAmount - 17280

/-- Model of `persistent_get` (shared/src/storage.rs:96–110). -/
def persistentGet (env : Env me) (key : K) : Invocation (Leases K V) ε (Option V) := do
  let value ← storageGet env key
  onlyIf (value.isSome = true)
    (storageExtendTtl env key persistentTtlThreshold persistentBumpAmount)
  pure value

/-- Model of `persistent_set` (shared/src/storage.rs:133–142). -/
def persistentSet (term : ℕ) (env : Env me) (key : K) (value : V) :
    Invocation (Leases K V) ε Unit := do
  storageSet term env key value
  storageExtendTtl env key persistentTtlThreshold persistentBumpAmount

/-- Model of `persistent_has` (shared/src/storage.rs:148–153): extends nothing. -/
def persistentHas (env : Env me) (key : K) : Invocation (Leases K V) ε Bool := storageHas env key

/-- Model of `persistent_remove` (shared/src/storage.rs:156–161). -/
def persistentRemove (key : K) : Invocation (Leases K V) ε Unit := storageRemove key

/-- The storage after `persistent_set`. -/
def Leases.written (m : Leases K V) (term ledger : ℕ) (key : K) (value : V) : Leases K V :=
  extend (put m term ledger key value) persistentTtlThreshold persistentBumpAmount ledger key

/-- The storage after `persistent_get`. -/
def Leases.touched (m : Leases K V) (ledger : ℕ) (key : K) : Leases K V :=
  extend m persistentTtlThreshold persistentBumpAmount ledger key

@[simp] theorem persistentGet_ok {env : Env me} {key : K} {w w' : World (Leases K V)}
    {o : Option V} : (persistentGet env key : Invocation (Leases K V) ε (Option V)) w = .ok o w' ↔
      o = Leases.find w.store env.sequence key ∧
        w' = { w with store := Leases.touched w.store env.sequence key } := by
  simp only [persistentGet, bind_ok, storageGet_ok, onlyIf_ok, storageExtendTtl_ok, pure_ok]
  constructor
  · rintro ⟨o', w₁, ⟨rfl, rfl⟩, -, w₂, ⟨-, -, rfl⟩ | ⟨hnone, rfl⟩, rfl, rfl⟩
    · exact ⟨rfl, rfl⟩
    · -- there was nothing to extend
      rw [Option.not_isSome_iff_eq_none] at hnone
      rw [Leases.touched, Leases.extend_of_find_none hnone]
      exact ⟨rfl, rfl⟩
  · rintro ⟨rfl, rfl⟩
    refine ⟨_, w, ⟨rfl, rfl⟩, (), _, ?_, rfl, rfl⟩
    by_cases hsome : (Leases.find w.store env.sequence key).isSome = true
    · exact .inl ⟨hsome, hsome, rfl⟩
    · refine .inr ⟨hsome, ?_⟩
      rw [Leases.touched, Leases.extend_of_find_none (Option.not_isSome_iff_eq_none.mp hsome)]

@[simp] theorem persistentSet_ok {term : ℕ} {env : Env me} {key : K} {value : V}
    {w w' : World (Leases K V)} {u : Unit} :
    (persistentSet term env key value : Invocation (Leases K V) ε Unit) w = .ok u w' ↔
      w' = { w with store := Leases.written w.store term env.sequence key value } := by
  have hthere : (Leases.find (Leases.put w.store term env.sequence key value) env.sequence
      key).isSome = true := by
    rw [Leases.find, Leases.live_put]
    rfl
  simp [persistentSet, hthere, Leases.written]

@[simp] theorem persistentHas_ok {env : Env me} {key : K} {w w' : World (Leases K V)} {b : Bool} :
    (persistentHas env key : Invocation (Leases K V) ε Bool) w = .ok b w' ↔
      b = (Leases.find w.store env.sequence key).isSome ∧ w' = w := storageHas_ok

@[simp] theorem persistentRemove_ok {key : K} {w w' : World (Leases K V)} {u : Unit} :
    (persistentRemove key : Invocation (Leases K V) ε Unit) w = .ok u w' ↔
      w' = { w with store := w.store.erase key } := storageRemove_ok

/-! ## The live-until ledger of an entry -/

/-- The live-until ledger after a `persistent_set` at `ledger`, when `before` is the one of the
    entry that was there, if there was one. A new entry lives for `term` ledgers; what has less than
    the threshold left then lives for the bump. -/
def writtenUntil (term ledger : ℕ) (before : Option ℕ) : ℕ :=
  Lease.renew persistentTtlThreshold persistentBumpAmount ledger (before.getD (ledger + term))

theorem threshold_le_bump : persistentTtlThreshold ≤ persistentBumpAmount := Nat.sub_le _ _

/-- At least the threshold is left of an entry that was just written. -/
theorem add_le_writtenUntil (m : Leases K V) (term ledger : ℕ) (key : K) :
    ledger + persistentTtlThreshold ≤
      writtenUntil term ledger ((Leases.live m ledger key).map Lease.liveUntil) :=
  Lease.add_le_renew threshold_le_bump (Leases.le_liveUntil m term ledger key)

theorem Leases.lookup_written (m : Leases K V) (term ledger : ℕ) (key : K) (value : V) :
    (written m term ledger key value).lookup key =
      some ⟨value, writtenUntil term ledger ((live m ledger key).map Lease.liveUntil)⟩ :=
  lookup_extend (live_put m term ledger key value)

theorem Leases.lookup_written_of_ne (m : Leases K V) (term ledger : ℕ) {key key' : K}
    (hne : key' ≠ key) (value : V) :
    (written m term ledger key value).lookup key' = m.lookup key' := by
  rw [written, lookup_extend_of_ne hne, lookup_put_of_ne hne]

/-- The key has the value, and at least the threshold is left of its entry at `ledger`. -/
def Fresh (ledger : ℕ) (key : K) (value : V) (w : World (Leases K V)) : Prop :=
  ∃ e, w.store.lookup key = some e ∧ e.value = value ∧ ledger + persistentTtlThreshold ≤ e.liveUntil

theorem fresh_written {term : ℕ} {env : Env me} {key : K} {value : V} {w w' : World (Leases K V)}
    {u : Unit}
    (h : (persistentSet term env key value : Invocation (Leases K V) ε Unit) w = .ok u w') :
    Fresh env.sequence key value w' := by
  obtain rfl := persistentSet_ok.mp h
  exact ⟨_, Leases.lookup_written _ _ _ _ _, rfl, add_le_writtenUntil _ _ _ _⟩

/-- A fresh entry that is read with `persistent_get` before the threshold has passed is found, and
    is fresh again. -/
theorem Fresh.get {ledger : ℕ} {key : K} {value : V} {w : World (Leases K V)}
    (h : Fresh ledger key value w) {env : Env me}
    (hgap : env.sequence ≤ ledger + persistentTtlThreshold) :
    (persistentGet env key : Invocation (Leases K V) ε (Option V)).value w = some (some value) ∧
      Fresh env.sequence key value
        ((persistentGet env key : Invocation (Leases K V) ε (Option V)).commit w) := by
  obtain ⟨e, he, rfl, hleft⟩ := h
  have hlive : Leases.live w.store env.sequence key = some e :=
    Leases.live_eq_some.mpr ⟨he, hgap.trans hleft⟩
  have hok : (persistentGet env key : Invocation (Leases K V) ε (Option V)) w = .ok (some e.value)
      { w with store := Leases.touched w.store env.sequence key } := by
    refine persistentGet_ok.mpr ⟨?_, rfl⟩
    rw [Leases.find, hlive, Option.map_some]
  rw [commit_of_ok hok]
  refine ⟨value_of_ok hok, _, Leases.lookup_extend hlive, rfl, ?_⟩
  exact Lease.add_le_renew threshold_le_bump (Leases.live_eq_some.mp hlive).2

/-- Two ledgers are at most the threshold apart. -/
def WithinThreshold (ledger ledger' : ℕ) : Prop := ledger' ≤ ledger + persistentTtlThreshold

/-- An entry that was written with `persistent_set` and is then read with `persistent_get`, at gaps
    of at most the threshold, is found every time. -/
theorem persistentGet_keeps {term : ℕ} {env : Env me} {key : K} {value : V}
    {w w' : World (Leases K V)} {u : Unit}
    (h : (persistentSet term env key value : Invocation (Leases K V) ε Unit) w = .ok u w')
    {envs : List (Env me)} (hgaps : ((env :: envs).map Env.sequence).IsChain WithinThreshold) :
    ∀ x ∈ trace
      (fun env => (persistentGet env key : Invocation (Leases K V) ε (Option V)).commit) w' envs,
      (persistentGet x.2 key : Invocation (Leases K V) ε (Option V)).value x.1 = some
      (some value) := by
  have hfresh := fresh_written h
  clear h
  induction envs generalizing env w' with
  | nil => simp
  | cons env' envs ih =>
    rw [List.map_cons, List.map_cons, List.isChain_cons_cons] at hgaps
    obtain ⟨hfound, hagain⟩ := hfresh.get (ε := ε) hgaps.1
    intro x hx
    rcases List.mem_cons.mp hx with rfl | hx
    · exact hfound
    · exact ih hgaps.2 hagain x hx

end Trellis
