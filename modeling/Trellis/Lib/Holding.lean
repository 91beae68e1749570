import Trellis.Lib.Table

/-!
# Records that hold assets

A table of records can say what a custodian owes: a live record stands for an amount of some kind
of asset. `Holding` names the parts of a record that say so, and `owed` adds up a table.

Results:
* `owed_open`: opening a record under a fresh key adds what it stands for.
* `owed_change`: rewriting a record adds what it stands for now, less what it stood for before.
* `worth_le_owed`: what one record stands for is part of what is owed.
-/

namespace Trellis

/-- How a record says what it stands for: whether it is live, the kind of asset and the amount. -/
structure Holding (R κ : Type) where
  live : R → Bool
  kind : R → κ
  amount : R → ℤ

namespace Holding

variable {R κ K : Type} [DecidableEq κ] [DecidableEq K] (h : Holding R κ)

/-- What the record stands for in the kind `k`. -/
def worth (r : R) (k : κ) : ℤ := if h.live r = true ∧ h.kind r = k then h.amount r else 0

/-- What a table of records owes of the kind `k`. -/
def owed (m : Table K R) (k : κ) : ℤ := m.total fun _ r => h.worth r k

variable {h} {m : Table K R} {id : K} {r r' : R} {k : κ}

theorem worth_of_live (hl : h.live r = true) (k : κ) :
    h.worth r k = if h.kind r = k then h.amount r else 0 := by
  simp [worth, hl]

theorem worth_dead (hl : h.live r = false) (k : κ) : h.worth r k = 0 := by
  simp [worth, hl]

theorem worth_nonneg (hr : 0 ≤ h.amount r) (k : κ) : 0 ≤ h.worth r k := by
  unfold worth
  split_ifs <;> omega

@[simp] theorem owed_empty : h.owed (∅ : Table K R) k = 0 := by
  simp [owed]

theorem owed_open (hid : m.lookup id = none) :
    h.owed (m.insert id r) k = h.owed m k + h.worth r k :=
  Table.total_set_new hid r

theorem owed_change (hid : m.lookup id = some r) :
    h.owed (m.insert id r') k = h.owed m k - h.worth r k + h.worth r' k :=
  Table.total_set_old hid r'

theorem worth_le_owed (hm : m.Forall fun _ r => 0 ≤ h.amount r) (hid : m.lookup id = some r)
    (k : κ) : h.worth r k ≤ h.owed m k :=
  Table.le_total (f := fun _ r => h.worth r k)
    (fun id r hr => worth_nonneg (hm id r hr) k) hid

theorem owed_nonneg (hm : m.Forall fun _ r => 0 ≤ h.amount r) (k : κ) : 0 ≤ h.owed m k :=
  Table.total_nonneg fun id r hr => worth_nonneg (hm id r hr) k

end Holding

end Trellis
