import Trellis.Lib.Table

/-!
# Lists of the open items

A table holds items under keys that are given out one after another, and some of the items are open.
A second list names the keys of the open ones. `Roll` says that the list is right: it has the keys
of the open items, in the order in which the keys were given out, and no other.

Results:
* `Roll.add`: a new open item is added under a fresh key at the end of the list.
* `Roll.close`: an item is closed and its key struck off the list.
* `Roll.mem_iff`, `Roll.nodup`: the list names exactly the open items, each once.
-/

namespace Trellis

variable {K V : Type} [DecidableEq K]

/-- `given` are the keys given out so far, and `listed` are those of the open items. -/
structure Roll (isOpen : V → Bool) (given : List K) (items : Table K V) (listed : List K) :
    Prop where
  distinct : given.Nodup
  stored : ∀ k, k ∈ given ↔ ∃ v, items.lookup k = some v
  listed_eq : listed = given.filter fun k => (items.lookup k).any isOpen

namespace Roll

variable {isOpen : V → Bool} {given listed : List K} {items : Table K V} {k : K} {v : V}

theorem empty (isOpen : V → Bool) : Roll isOpen ([] : List K) ∅ [] where
  distinct := List.nodup_nil
  stored := by
    intro k
    simp
  listed_eq := rfl

theorem mem_iff (h : Roll isOpen given items listed) :
    k ∈ listed ↔ ∃ v, items.lookup k = some v ∧ isOpen v = true := by
  rw [h.listed_eq, List.mem_filter, Option.any_eq_true]
  refine and_iff_right_of_imp ?_
  rintro ⟨v, hv, -⟩
  exact (h.stored k).mpr ⟨v, hv⟩

theorem nodup (h : Roll isOpen given items listed) : listed.Nodup := by
  rw [h.listed_eq]
  exact h.distinct.filter _

/-- A new open item under a key that was not given out is added at the end of the list. -/
theorem add (h : Roll isOpen given items listed) (hk : k ∉ given) (hv : isOpen v = true) :
    Roll isOpen (given ++ [k]) (items.insert k v) (listed ++ [k]) where
  distinct := h.distinct.append (List.nodup_singleton k) (List.disjoint_singleton.mpr hk)
  stored := by
    intro k'
    rw [List.mem_append, List.mem_singleton, Table.lookup_set, h.stored k']
    by_cases hkk : k' = k
    · rw [if_pos hkk]
      exact iff_of_true (.inr hkk) ⟨v, rfl⟩
    · rw [if_neg hkk, or_iff_left hkk]
  listed_eq := by
    have hold : ∀ k' ∈ given,
        (items.lookup k').any isOpen = ((items.insert k v).lookup k').any isOpen := by
      intro k' hk'
      have hne : k' ≠ k := fun heq => hk (heq ▸ hk')
      rw [Table.lookup_set, if_neg hne]
    have hnew : ((items.insert k v).lookup k).any isOpen = true := by
      rw [Table.lookup_set, if_pos rfl]
      exact hv
    rw [List.filter_append, List.filter_singleton, hnew, h.listed_eq, List.filter_congr hold]
    rfl

/-- An item is closed, and its key is struck off the list. -/
theorem close (h : Roll isOpen given items listed) {u : V} (hk : items.lookup k = some u)
    (hv : isOpen v = false) :
    Roll isOpen given (items.insert k v) (listed.filter fun k' => k' ≠ k) where
  distinct := h.distinct
  stored := by
    intro k'
    rw [h.stored k', Table.lookup_set]
    split_ifs with hkk
    · exact iff_of_true ⟨u, hkk ▸ hk⟩ ⟨v, rfl⟩
    · rfl
  listed_eq := by
    rw [h.listed_eq, List.filter_filter]
    refine List.filter_congr fun k' _ => ?_
    rw [Table.lookup_set]
    by_cases hkk : k' = k
    · simp [hkk, hv]
    · simp [hkk]

end Roll

end Trellis
