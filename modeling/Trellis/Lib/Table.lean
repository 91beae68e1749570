import Trellis.Lib.Run

/-!
# Finite tables and their totals

A `Table K V` is a finite map: Mathlib's `Finmap` with a constant value type. `total f m` adds
`f k v` over the entries of `m`.

Results:
* `lookup_set`: a lookup after a write.
* `total_set`: a write changes a total by the new entry less the one it replaces.
* `total_nonneg`, `le_total`: bounds of a total from bounds of its entries.
* `countIf_set_new`, `countIf_set_old`: how a write changes the number of entries of a kind.
* `Evolves.set_new`, `Evolves.set_old`: which writes let every entry evolve along a relation.
* `Evolves.run`, `Evolves.run_of_trace`: entries that evolve in every step evolve along every run.
* `Forall.setAll`, `isSome_lookup_setAll`: what a list of writes keeps, and which keys it leaves.
* `filterMap_range`: looking up the numbers below a bound finds the entries of a table with smaller
  keys, in the order of the keys.
-/

namespace Trellis

/-- Finite maps from `K` to `V`. -/
abbrev Table (K V : Type) : Type := Finmap fun _ : K => V

namespace Table

variable {K V : Type} [DecidableEq K]

/-- The sum of `f k v` over the entries of the table. -/
def total (f : K → V → ℤ) (m : Table K V) : ℤ :=
  ∑ k ∈ m.keys, (m.lookup k).elim 0 (f k)

theorem lookup_set (m : Table K V) (k k' : K) (v : V) :
    (m.insert k v).lookup k' = if k' = k then some v else m.lookup k' := by
  split_ifs with h
  · subst h; exact Finmap.lookup_insert m
  · exact Finmap.lookup_insert_of_ne m h

theorem lookup_unset (m : Table K V) (k k' : K) :
    (m.erase k).lookup k' = if k' = k then none else m.lookup k' := by
  split_ifs with h
  · subst h; exact Finmap.lookup_erase k' m
  · exact Finmap.lookup_erase_ne h

/-- A write that adds `x` to the number stored at a key. -/
theorem getD_lookup_add (m : Table K ℤ) (k k' : K) (x : ℤ) :
    ((m.insert k ((m.lookup k).getD 0 + x)).lookup k').getD 0 =
      (m.lookup k').getD 0 + if k' = k then x else 0 := by
  rw [lookup_set]
  split_ifs with h
  · rw [h, Option.getD_some]
  · rw [add_zero]

theorem eq_of_lookup_set_ne {m : Table K V} {k k' : K} {u v v' : V} (hu : m.lookup k' = some u)
    (hv' : (m.insert k v).lookup k' = some v') (hne : v' ≠ u) : k' = k ∧ v' = v := by
  rw [lookup_set] at hv'
  split_ifs at hv' with hk
  · exact ⟨hk, (Option.some.inj hv').symm⟩
  · rw [hu] at hv'
    exact absurd (Option.some.inj hv').symm hne

theorem eq_of_lookup_set_new {m : Table K V} {k k' : K} {v v' : V} (hu : m.lookup k' = none)
    (hv' : (m.insert k v).lookup k' = some v') : k' = k ∧ v' = v := by
  rw [lookup_set] at hv'
  split_ifs at hv' with hk
  · exact ⟨hk, (Option.some.inj hv').symm⟩
  · rw [hu] at hv'
    cases hv'

theorem keys_set (m : Table K V) (k : K) (v : V) : (m.insert k v).keys = insert k m.keys := by
  ext k'
  simp [Finmap.mem_keys, Finmap.mem_insert]

theorem lookup_eq_none_of_notMem {m : Table K V} {k : K} (h : k ∉ m.keys) : m.lookup k = none :=
  Finmap.lookup_eq_none.mpr fun hk => h (Finmap.mem_keys.mpr hk)

theorem mem_keys_of_lookup {m : Table K V} {k : K} {v : V} (h : m.lookup k = some v) : k ∈ m.keys :=
  Finmap.mem_keys.mpr (Finmap.mem_of_lookup_eq_some h)

@[simp] theorem total_empty (f : K → V → ℤ) : total f (∅ : Table K V) = 0 := by
  simp [total]

/-- A write at `k` replaces the contribution of `k`. -/
theorem total_set (f : K → V → ℤ) (m : Table K V) (k : K) (v : V) :
    total f (m.insert k v) = total f m - (m.lookup k).elim 0 (f k) + f k v := by
  have hrest : ∀ s : Finset K, k ∉ s →
      ∑ x ∈ s, ((m.insert k v).lookup x).elim 0 (f x) = ∑ x ∈ s, (m.lookup x).elim 0 (f x) := by
    intro s hs
    refine Finset.sum_congr rfl fun x hx => ?_
    rw [lookup_set, if_neg (by rintro rfl; exact hs hx)]
  unfold total
  rw [keys_set, ← Finset.sum_erase_add _ _ (Finset.mem_insert_self k m.keys),
    Finset.erase_insert_eq_erase, hrest _ (Finset.notMem_erase k _), lookup_set, if_pos rfl]
  by_cases hk : k ∈ m.keys
  · rw [← Finset.sum_erase_add _ _ hk]
    simp
  · rw [Finset.erase_eq_of_notMem hk, lookup_eq_none_of_notMem hk]
    simp

theorem total_set_new {f : K → V → ℤ} {m : Table K V} {k : K} (h : m.lookup k = none) (v : V) :
    total f (m.insert k v) = total f m + f k v := by
  rw [total_set, h]
  simp

/-- A write at a key that was present adds the new contribution less the old one. -/
theorem total_set_old {f : K → V → ℤ} {m : Table K V} {k : K} {u : V} (h : m.lookup k = some u)
    (v : V) : total f (m.insert k v) = total f m - f k u + f k v := by
  rw [total_set, h]
  simp

theorem total_congr {f g : K → V → ℤ} {m : Table K V}
    (h : ∀ k v, m.lookup k = some v → f k v = g k v) : total f m = total g m := by
  refine Finset.sum_congr rfl fun k _ => ?_
  cases hk : m.lookup k with
  | none => rfl
  | some v => exact h k v hk

theorem total_nonneg {f : K → V → ℤ} {m : Table K V}
    (h : ∀ k v, m.lookup k = some v → 0 ≤ f k v) : 0 ≤ total f m := by
  refine Finset.sum_nonneg fun k _ => ?_
  cases hk : m.lookup k with
  | none => simp
  | some v => exact h k v hk

/-- One entry contributes at most the total when no entry is negative. -/
theorem le_total {f : K → V → ℤ} {m : Table K V} (h : ∀ k v, m.lookup k = some v → 0 ≤ f k v)
    {k : K} {v : V} (hk : m.lookup k = some v) : f k v ≤ total f m := by
  have hle := Finset.single_le_sum (f := fun k => (m.lookup k).elim 0 (f k))
    (fun x _ => by
      cases hx : m.lookup x with
      | none => simp
      | some w => exact h x w hx) (mem_keys_of_lookup hk)
  simpa [total, hk] using hle

/-! ## Counting entries -/

/-- The number of entries that satisfy `p`. -/
def countIf (p : V → Bool) (m : Table K V) : ℕ :=
  (m.keys.filter fun k => (m.lookup k).any p = true).card

theorem countIf_eq_total (p : V → Bool) (m : Table K V) :
    (countIf p m : ℤ) = total (fun _ v => if p v = true then 1 else 0) m := by
  unfold countIf total
  rw [Finset.card_filter]
  push_cast
  refine Finset.sum_congr rfl fun k _ => ?_
  cases m.lookup k <;> simp

/-- A write at a key that was absent counts the new entry. -/
theorem countIf_set_new {p : V → Bool} {m : Table K V} {k : K} (h : m.lookup k = none) (v : V) :
    (countIf p (m.insert k v) : ℤ) = countIf p m + if p v = true then 1 else 0 := by
  rw [countIf_eq_total, countIf_eq_total, total_set_new h]

/-- A write at a key that was present counts the new entry instead of the old one. -/
theorem countIf_set_old {p : V → Bool} {m : Table K V} {k : K} {u : V} (h : m.lookup k = some u)
    (v : V) : (countIf p (m.insert k v) : ℤ) =
      countIf p m - (if p u = true then 1 else 0) + if p v = true then 1 else 0 := by
  rw [countIf_eq_total, countIf_eq_total, total_set_old h]

theorem countIf_pos {p : V → Bool} {m : Table K V} {k : K} {v : V} (h : m.lookup k = some v)
    (hv : p v = true) : 0 < countIf p m := by
  apply Finset.card_pos.mpr
  refine ⟨k, Finset.mem_filter.mpr ⟨mem_keys_of_lookup h, ?_⟩⟩
  rw [h]
  exact hv

theorem countIf_eq_zero {p : V → Bool} {m : Table K V}
    (h : ∀ k v, m.lookup k = some v → p v = false) : countIf p m = 0 := by
  apply Finset.card_eq_zero.mpr
  apply Finset.filter_eq_empty_iff.mpr
  intro k _
  cases hk : m.lookup k with
  | none => exact Bool.false_ne_true
  | some v =>
    rw [Option.any_some, h k v hk]
    exact Bool.false_ne_true

/-! ## Tables whose entries evolve -/

/-- Every entry of `m` is still there in `m'`, evolved along `R`. -/
def Evolves (R : V → V → Prop) (m m' : Table K V) : Prop :=
  ∀ k v, m.lookup k = some v → ∃ v', m'.lookup k = some v' ∧ R v v'

variable {R : V → V → Prop} {m m' m'' : Table K V}

theorem Evolves.refl (hR : ∀ v, R v v) (m : Table K V) : Evolves R m m :=
  fun _ v hv => ⟨v, hv, hR v⟩

theorem Evolves.trans (hR : ∀ u v w, R u v → R v w → R u w) (h : Evolves R m m')
    (h' : Evolves R m' m'') : Evolves R m m'' := by
  intro k u hu
  obtain ⟨v, hv, huv⟩ := h k u hu
  obtain ⟨w, hw, hvw⟩ := h' k v hv
  exact ⟨w, hw, hR u v w huv hvw⟩

/-- A write at an absent key touches no entry. -/
theorem Evolves.set_new (hR : ∀ v, R v v) {k : K} (hk : m.lookup k = none) (v : V) :
    Evolves R m (m.insert k v) := by
  intro k' u hu
  have hne : k' ≠ k := by
    rintro rfl
    rw [hk] at hu
    cases hu
  exact ⟨u, by rw [lookup_set, if_neg hne, hu], hR u⟩

/-- A write that evolves the entry at its key touches no other. -/
theorem Evolves.set_old (hR : ∀ v, R v v) {k : K} {u v : V} (hk : m.lookup k = some u)
    (huv : R u v) : Evolves R m (m.insert k v) := by
  intro k' u' hu'
  by_cases hkk : k' = k
  · subst hkk
    rw [hk] at hu'
    cases hu'
    exact ⟨v, by rw [lookup_set, if_pos rfl], huv⟩
  · exact ⟨u', by rw [lookup_set, if_neg hkk, hu'], hR u'⟩

/-- The entries of the table `f` of the state evolve along a run when they evolve in each of its
    steps. -/
theorem Evolves.run_of_trace {σ ι : Type} {step : ι → σ → σ} {P : σ → Prop} {Q : σ → ι → Prop}
    (f : σ → Table K V) (hrefl : ∀ v, R v v) (htrans : ∀ u v w, R u v → R v w → R u w)
    (hP : ∀ s i, P s → Q s i → P (step i s))
    (hR : ∀ s i, P s → Q s i → Evolves R (f s) (f (step i s))) {s : σ} (hs : P s) {is : List ι}
    (hQ : ∀ x ∈ trace step s is, Q x.1 x.2) : Evolves R (f s) (f (Trellis.run step s is)) := by
  refine run_related_of_trace (R := fun s s' => Evolves R (f s) (f s')) ?_ ?_ hP hR hs hQ
  · intro s
    exact Evolves.refl hrefl (f s)
  · intro s s' s'' h h'
    exact Evolves.trans htrans h h'

theorem Evolves.run {σ ι : Type} {step : ι → σ → σ} {P : σ → Prop} (f : σ → Table K V)
    (hrefl : ∀ v, R v v) (htrans : ∀ u v w, R u v → R v w → R u w) (hP : ∀ s i, P s → P (step i s))
    (hR : ∀ s i, P s → Evolves R (f s) (f (step i s))) {s : σ} (hs : P s) (is : List ι) :
    Evolves R (f s) (f (Trellis.run step s is)) :=
  Evolves.run_of_trace (Q := fun _ _ => True) f hrefl htrans (fun s i h _ => hP s i h)
    (fun s i h _ => hR s i h) hs fun _ _ => trivial

/-! ## Properties of all entries -/

/-- Every entry satisfies `P`. -/
def Forall (P : K → V → Prop) (m : Table K V) : Prop := ∀ k v, m.lookup k = some v → P k v

theorem Forall.empty (P : K → V → Prop) : Forall P (∅ : Table K V) := by
  intro k v hv
  simp at hv

theorem Forall.set {P : K → V → Prop} (h : Forall P m) {k : K} {v : V} (hv : P k v) :
    Forall P (m.insert k v) := by
  intro k' v' hv'
  rw [lookup_set] at hv'
  split_ifs at hv' with hk
  · cases hv'
    exact hk ▸ hv
  · exact h k' v' hv'

theorem Forall.unset {P : K → V → Prop} (h : Forall P m) (k : K) : Forall P (m.erase k) := by
  intro k' v' hv'
  rw [lookup_unset] at hv'
  split_ifs at hv' with hk
  exact h k' v' hv'

theorem Forall.imp {P Q : K → V → Prop} (h : Forall P m) (hPQ : ∀ k v, P k v → Q k v) :
    Forall Q m :=
  fun k v hv => hPQ k v (h k v hv)

/-! ## Writing a list of entries -/

/-- The table with the entries written over it, in order. -/
def setAll (m : Table K V) (entries : List (K × V)) : Table K V :=
  entries.foldl (fun m kv => m.insert kv.1 kv.2) m

theorem Forall.setAll {P : K → V → Prop} {entries : List (K × V)} (h : Forall P m)
    (hentries : ∀ kv ∈ entries, P kv.1 kv.2) : Forall P (m.setAll entries) := by
  induction entries generalizing m with
  | nil => exact h
  | cons kv entries ih =>
    rw [List.forall_mem_cons] at hentries
    exact ih (h.set hentries.1) hentries.2

theorem isSome_lookup_set {k : K} (h : (m.lookup k).isSome = true) (k' : K) (v : V) :
    ((m.insert k' v).lookup k).isSome = true := by
  rw [lookup_set]
  split_ifs
  · rfl
  · exact h

/-- Every key that was there, and every key that was written, is there. -/
theorem isSome_lookup_setAll {entries : List (K × V)} {k : K}
    (h : (m.lookup k).isSome = true ∨ k ∈ entries.map Prod.fst) :
    ((m.setAll entries).lookup k).isSome = true := by
  induction entries generalizing m with
  | nil => simpa [setAll] using h
  | cons kv entries ih =>
    apply ih
    rw [List.map_cons, List.mem_cons] at h
    rcases h with hold | hnow | hlater
    · exact .inl (isSome_lookup_set hold kv.1 kv.2)
    · refine .inl ?_
      rw [lookup_set, if_pos hnow]
      rfl
    · exact .inr hlater

/-! ## Tables with numbers as keys -/

/-- The values in the order of their keys. -/
def inOrder (m : Table ℕ V) : List V := (m.keys.sort (· ≤ ·)).filterMap m.lookup

theorem mem_inOrder {m : Table ℕ V} {v : V} : v ∈ m.inOrder ↔ ∃ k, m.lookup k = some v := by
  unfold inOrder
  rw [List.mem_filterMap]
  refine exists_congr fun k => and_iff_right_of_imp fun hv => ?_
  rw [Finset.mem_sort]
  exact mem_keys_of_lookup hv

theorem pairwise_inOrder {m : Table ℕ V} {R : V → V → Prop}
    (h : ∀ k k', k < k' → ∀ v, m.lookup k = some v → ∀ v', m.lookup k' = some v' → R v v') :
    m.inOrder.Pairwise R :=
  List.Pairwise.filterMap _ h (Finset.sortedLT_sort _).pairwise

theorem sort_keys {m : Table ℕ V} {n : ℕ} (h : m.Forall fun k _ => k < n) :
    m.keys.sort (· ≤ ·) = (List.range n).filter (· ∈ m.keys) := by
  have hkeys : ((List.range n).filter (· ∈ m.keys)).toFinset = m.keys := by
    ext k
    rw [List.mem_toFinset, List.mem_filter, List.mem_range, decide_eq_true_iff]
    refine and_iff_right_of_imp fun hk => ?_
    obtain ⟨v, hv⟩ := Option.isSome_iff_exists.mp (Finmap.lookup_isSome.mpr (Finmap.mem_keys.mp hk))
    exact h k v hv
  rw [← (List.toFinset_sort (· ≤ ·) (List.nodup_range.filter _)).mpr
    (List.pairwise_le_range.filter _), hkeys]

/-- Looking up all numbers below a bound on the keys. -/
theorem filterMap_range {m : Table ℕ V} {n : ℕ} (h : m.Forall fun k _ => k < n) :
    (List.range n).filterMap m.lookup = m.inOrder := by
  unfold inOrder
  rw [sort_keys h, List.filterMap_filter]
  refine List.filterMap_congr fun k _ => ?_
  split_ifs with hk
  · rfl
  · exact lookup_eq_none_of_notMem (by simpa using hk)

end Table

end Trellis
