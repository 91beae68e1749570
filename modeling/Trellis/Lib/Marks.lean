import Trellis.Lib.Table

/-!
# Marks of open items

A table holds items, each under a key, and some of them are open. A second table marks for a key the
item that is open under it. `Marks` says that the marks are right: a key is marked with an item
exactly when that item is stored and open and has this key. So at most one item is open a key.

Results:
* `Marks.unique`: two open items of one key are the same item.
* `Marks.add`, `Marks.close`, `Marks.drop`: a new item is added under an unmarked key, an open item
  is closed, or an open item is removed, each with the mark of its key.
-/

namespace Trellis

variable {K C V : Type} [DecidableEq K] [DecidableEq C]

/-- A key is marked with the item that is stored and open under it, and with no other. -/
def Marks (isOpen : V → Prop) (key : V → C) (items : Table K V) (marks : Table C K) : Prop :=
  ∀ c k, marks.lookup c = some k ↔ ∃ v, items.lookup k = some v ∧ isOpen v ∧ key v = c

namespace Marks

variable {isOpen : V → Prop} {key : V → C} {items items' : Table K V} {marks : Table C K} {k : K}
  {v : V}

theorem empty (isOpen : V → Prop) (key : V → C) : Marks isOpen key (∅ : Table K V) ∅ := by
  intro c k
  simp

theorem lookup (h : Marks isOpen key items marks) (hk : items.lookup k = some v) (hv : isOpen v) :
    marks.lookup (key v) = some k :=
  (h (key v) k).mpr ⟨v, hk, hv, rfl⟩

theorem unique (h : Marks isOpen key items marks) {k' : K} {v' : V}
    (hk : items.lookup k = some v) (hv : isOpen v) (hk' : items.lookup k' = some v')
    (hv' : isOpen v') (hkey : key v = key v') : k = k' := by
  have hmark := h.lookup hk hv
  rw [hkey, h.lookup hk' hv'] at hmark
  exact (Option.some.inj hmark).symm

theorem add (h : Marks isOpen key items marks) (hk : items.lookup k = none) (hv : isOpen v)
    (hkey : marks.lookup (key v) = none) :
    Marks isOpen key (items.insert k v) (marks.insert (key v) k) := by
  intro c k'
  rw [Table.lookup_set, Table.lookup_set]
  by_cases hc : c = key v
  · rw [if_pos hc]
    constructor
    · intro hmark
      obtain rfl := Option.some.inj hmark
      exact ⟨v, if_pos rfl, hv, hc.symm⟩
    · rintro ⟨v', hv', hopen, hkey'⟩
      split_ifs at hv' with hkk
      · rw [hkk]
      · -- no other item is open under the key, which was not marked
        have hmark := h.lookup hv' hopen
        rw [hkey', hc, hkey] at hmark
        cases hmark
  · rw [if_neg hc, h c k']
    constructor
    · rintro ⟨v', hv', hopen, hkey'⟩
      have hne : k' ≠ k := by
        rintro rfl
        rw [hk] at hv'
        cases hv'
      exact ⟨v', by rw [if_neg hne, hv'], hopen, hkey'⟩
    · rintro ⟨v', hv', hopen, hkey'⟩
      split_ifs at hv' with hkk
      · obtain rfl := Option.some.inj hv'
        exact absurd hkey'.symm hc
      · exact ⟨v', hv', hopen, hkey'⟩

/-- An open item is closed or removed, and nothing else is changed, with the mark of its key. -/
theorem settle (h : Marks isOpen key items marks) (hk : items.lookup k = some v) (hv : isOpen v)
    (hother : ∀ k', k' ≠ k → items'.lookup k' = items.lookup k')
    (hgone : ∀ v', items'.lookup k = some v' → ¬ isOpen v') :
    Marks isOpen key items' (marks.erase (key v)) := by
  intro c k'
  rw [Table.lookup_unset]
  by_cases hkk : k' = k
  · subst hkk
    refine iff_of_false ?_ ?_
    · -- the only mark of `k'` is the erased one
      intro hmark
      split_ifs at hmark with hc
      obtain ⟨v', hv', -, rfl⟩ := (h c k').mp hmark
      rw [hk] at hv'
      exact hc (congrArg key (Option.some.inj hv')).symm
    · rintro ⟨v', hv', hopen, -⟩
      exact hgone v' hv' hopen
  · rw [hother k' hkk]
    split_ifs with hc
    · refine iff_of_false (by simp) ?_
      rintro ⟨v', hv', hopen, hkey'⟩
      exact hkk (h.unique hv' hopen hk hv (hkey'.trans hc))
    · exact h c k'

theorem close (h : Marks isOpen key items marks) (hk : items.lookup k = some v) (hv : isOpen v)
    {v' : V} (hv' : ¬ isOpen v') : Marks isOpen key (items.insert k v') (marks.erase (key v)) := by
  refine h.settle hk hv (fun k' hkk => ?_) fun u hu => ?_
  · rw [Table.lookup_set, if_neg hkk]
  · rw [Table.lookup_set, if_pos rfl] at hu
    exact Option.some.inj hu ▸ hv'

theorem drop (h : Marks isOpen key items marks) (hk : items.lookup k = some v) (hv : isOpen v) :
    Marks isOpen key (items.erase k) (marks.erase (key v)) := by
  refine h.settle hk hv (fun k' hkk => ?_) fun u hu => ?_
  · rw [Table.lookup_unset, if_neg hkk]
  · rw [Table.lookup_unset, if_pos rfl] at hu
    cases hu

end Marks

end Trellis
