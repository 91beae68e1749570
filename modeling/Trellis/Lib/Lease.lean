import Trellis.Lib.Table

/-!
# Entries with a lease

A table whose entries expire: each has a last moment, and past it is as good as absent. A new entry
gets a first term; a write over an entry that is still there leaves its last moment alone. A lease
is extended when less than a threshold is left of it.

Results:
* `isSome_find`: an entry is found up to its last moment.
* `live_put`, `lookup_extend`: the last moment of an entry that is written or extended.
* `lookup_put_of_ne`, `lookup_extend_of_ne`: entries of other keys are not touched.
* `add_le_renew`: a lease that is extended has at least the threshold left.
-/

namespace Trellis

/-- A value and the last moment at which it is there. -/
structure Lease (V : Type) where
  value : V
  liveUntil : ℕ
  deriving DecidableEq, Repr

/-- The last moment of a lease after it is extended at `now`: it becomes `bump` moments later than
    `now` when less than `threshold` is left. -/
def Lease.renew (threshold bump now liveUntil : ℕ) : ℕ :=
  if liveUntil - now < threshold then now + bump else liveUntil

theorem Lease.add_le_renew {threshold bump now liveUntil : ℕ} (hbump : threshold ≤ bump)
    (hlive : now ≤ liveUntil) : now + threshold ≤ Lease.renew threshold bump now liveUntil := by
  unfold Lease.renew
  split_ifs with hdue
  · omega
  · omega

/-- A table of entries that expire. -/
abbrev Leases (K V : Type) : Type := Table K (Lease V)

namespace Leases

variable {K V : Type} [DecidableEq K]

/-- The entry that is there under the key at the moment `now`. -/
def live (m : Leases K V) (now : ℕ) (k : K) : Option (Lease V) :=
  (m.lookup k).filter fun e => now ≤ e.liveUntil

/-- The value under the key. -/
def find (m : Leases K V) (now : ℕ) (k : K) : Option V := (live m now k).map Lease.value

/-- Writes a value: a new entry lasts for `term` moments more. -/
def put (m : Leases K V) (term now : ℕ) (k : K) (v : V) : Leases K V :=
  m.insert k ⟨v, ((live m now k).map Lease.liveUntil).getD (now + term)⟩

/-- Extends the lease of an entry that is there. -/
def extend (m : Leases K V) (threshold bump now : ℕ) (k : K) : Leases K V :=
  (live m now k).elim m fun e =>
    m.insert k { e with liveUntil := Lease.renew threshold bump now e.liveUntil }

variable {m : Leases K V} {now : ℕ} {k : K} {e : Lease V}

theorem live_eq_some : live m now k = some e ↔ m.lookup k = some e ∧ now ≤ e.liveUntil := by
  rw [live, Option.filter_eq_some_iff, decide_eq_true_iff]

/-- An entry is found up to its last moment. -/
theorem isSome_find :
    (find m now k).isSome = true ↔ ∃ e, m.lookup k = some e ∧ now ≤ e.liveUntil := by
  rw [find, Option.isSome_map, Option.isSome_iff_exists]
  exact exists_congr fun _ => live_eq_some

theorem le_liveUntil (m : Leases K V) (term now : ℕ) (k : K) :
    now ≤ ((live m now k).map Lease.liveUntil).getD (now + term) := by
  cases hk : live m now k with
  | none => exact Nat.le_add_right now term
  | some e => exact (live_eq_some.mp hk).2

/-- An entry that is written is there, with its old last moment if it was there. -/
theorem live_put (m : Leases K V) (term now : ℕ) (k : K) (v : V) :
    live (put m term now k v) now k =
      some ⟨v, ((live m now k).map Lease.liveUntil).getD (now + term)⟩ :=
  live_eq_some.mpr ⟨(Table.lookup_set _ _ _ _).trans (if_pos rfl), le_liveUntil m term now k⟩

theorem lookup_put_of_ne {term : ℕ} {k' : K} (hne : k' ≠ k) (v : V) :
    (put m term now k v).lookup k' = m.lookup k' := by
  rw [put, Table.lookup_set, if_neg hne]

theorem extend_of_find_none {threshold bump : ℕ} (h : find m now k = none) :
    extend m threshold bump now k = m := by
  rw [find, Option.map_eq_none_iff] at h
  rw [extend, h, Option.elim_none]

theorem lookup_extend {threshold bump : ℕ} (h : live m now k = some e) :
    (extend m threshold bump now k).lookup k =
      some { e with liveUntil := Lease.renew threshold bump now e.liveUntil } := by
  rw [extend, h, Option.elim_some, Table.lookup_set, if_pos rfl]

theorem lookup_extend_of_ne {threshold bump : ℕ} {k' : K} (hne : k' ≠ k) :
    (extend m threshold bump now k).lookup k' = m.lookup k' := by
  rw [extend]
  cases live m now k with
  | none => rfl
  | some e => rw [Option.elim_some, Table.lookup_set, if_neg hne]

end Leases

end Trellis
