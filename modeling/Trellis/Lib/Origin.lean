import Trellis.Lib.Table

/-!
# Where the entries of a table come from

A step keeps the entries of a table, changes some of them along a relation, and puts in new ones.

Results:
* `Stems.setNew`, `Stems.setOld`: the writes that do so.
* `Stems.each`: many writes, each for an item of a list.
* `Stems.run`: over a run the entries evolve along the relation, and every entry at its end goes
  back to one at its start or to one that a step of the run put in.
-/

namespace Trellis

namespace Table

variable {K V : Type} [DecidableEq K] {R : V → V → Prop} {N N' : K → V → Prop}
  {m m' m'' : Table K V}

/-- The entries of `m` evolve, and every entry of `m'` goes back to one of `m` or is an `N`. -/
structure Stems (R : V → V → Prop) (N : K → V → Prop) (m m' : Table K V) : Prop where
  kept : Evolves R m m'
  origin (k : K) (v' : V) : m'.lookup k = some v' → (∃ v, m.lookup k = some v ∧ R v v') ∨ N k v'

namespace Stems

theorem refl (hR : ∀ v, R v v) (m : Table K V) : Stems R N m m :=
  ⟨Evolves.refl hR m, fun _ v hv => .inl ⟨v, hv, hR v⟩⟩

theorem mono (h : Stems R N m m') (hN : ∀ k v, N k v → N' k v) : Stems R N' m m' :=
  ⟨h.kept, fun k v' hv' => (h.origin k v' hv').imp_right (hN k v')⟩

theorem trans (hR : ∀ u v w, R u v → R v w → R u w) (hN : ∀ k u v, N k u → R u v → N k v)
    (h : Stems R N m m') (h' : Stems R N m' m'') : Stems R N m m'' := by
  refine ⟨Evolves.trans hR h.kept h'.kept, fun k w hw => ?_⟩
  rcases h'.origin k w hw with ⟨v, hv, hvw⟩ | hnew
  · rcases h.origin k v hv with ⟨u, hu, huv⟩ | hnew
    · exact .inl ⟨u, hu, hR u v w huv hvw⟩
    · exact .inr (hN k v w hnew hvw)
  · exact .inr hnew

theorem setNew (hR : ∀ v, R v v) {k : K} (hk : m.lookup k = none) {v : V} (hv : N k v) :
    Stems R N m (m.insert k v) := by
  refine ⟨Evolves.set_new hR hk v, fun k' v' hv' => ?_⟩
  rw [lookup_set] at hv'
  split_ifs at hv' with hkk
  · obtain rfl := Option.some.inj hv'
    exact .inr (hkk ▸ hv)
  · exact .inl ⟨v', hv', hR v'⟩

theorem setOld (hR : ∀ v, R v v) {k : K} {u v : V} (hk : m.lookup k = some u) (huv : R u v) :
    Stems R N m (m.insert k v) := by
  refine ⟨Evolves.set_old hR hk huv, fun k' v' hv' => ?_⟩
  rw [lookup_set] at hv'
  split_ifs at hv' with hkk
  · obtain rfl := Option.some.inj hv'
    exact .inl ⟨u, hkk ▸ hk, huv⟩
  · exact .inl ⟨v', hv', hR v'⟩

variable {σ ι : Type} (f : σ → Table K V) {P : σ → Prop}

theorem each (hrefl : ∀ v, R v v) (htrans : ∀ u v w, R u v → R v w → R u w)
    (hN : ∀ k u v, N k u → R u v → N k v) {T : ι → σ → σ → Prop} {is : List ι} {s s' : σ}
    (h : Each T is s s') (hT : ∀ i ∈ is, ∀ s s', P s → T i s s' → P s' ∧ Stems R N (f s) (f s'))
    (hs : P s) :
    P s' ∧ Stems R N (f s) (f s') := by
  induction h with
  | nil s => exact ⟨hs, Stems.refl hrefl (f s)⟩
  | cons hi _ ih =>
    obtain ⟨hp, hstems⟩ := hT _ List.mem_cons_self _ _ hs hi
    obtain ⟨hp', hstems'⟩ := ih (fun i hmem => hT i (List.mem_cons_of_mem _ hmem)) hp
    exact ⟨hp', Stems.trans htrans hN hstems hstems'⟩

/-- When every step changes a table so, the entries at the end of a run go back to those at its
    start and to those that the steps put in. -/
theorem run {step : ι → σ → σ} {Q : σ → ι → Prop} {N : ι → K → V → Prop} (hrefl : ∀ v, R v v)
    (htrans : ∀ u v w, R u v → R v w → R u w) (hN : ∀ i k u v, N i k u → R u v → N i k v)
    (hP : ∀ s i, P s → Q s i → P (step i s))
    (hstep : ∀ s i, P s → Q s i → Stems R (N i) (f s) (f (step i s))) {s : σ} (hs : P s)
    {is : List ι} (hQ : ∀ x ∈ trace step s is, Q x.1 x.2) :
    Stems R (fun k v => ∃ i ∈ is, N i k v) (f s) (f (Trellis.run step s is)) := by
  induction is generalizing s with
  | nil => exact Stems.refl hrefl (f s)
  | cons i is ih =>
    simp only [trace_cons, List.forall_mem_cons] at hQ
    have hfirst := hstep s i hs hQ.1
    have hrest := ih (hP s i hs hQ.1) hQ.2
    refine Stems.trans htrans ?_ (hfirst.mono fun k v hnew => ⟨i, List.mem_cons_self, hnew⟩)
      (hrest.mono fun k v ⟨j, hj, hnew⟩ => ⟨j, List.mem_cons_of_mem i hj, hnew⟩)
    rintro k u v ⟨j, hj, hnew⟩ huv
    exact ⟨j, hj, hN j k u v hnew huv⟩

end Stems

end Table

end Trellis
