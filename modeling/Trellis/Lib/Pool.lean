import Trellis.Lib.Run

/-!
# Payments from one pool

Something is due to each of several holders, and all of it is paid from one pool. A call pays a
holder all that is due, and goes through exactly when the pool covers it.

Results:
* `Pool.all_ok_iff`: a list of calls, in any order and with any repetitions, goes through from end
  to end exactly when the pool covers what is due to the holders in it.
* `Pool.run`: what such a list leaves.
-/

namespace Trellis

variable {σ ι κ K : Type} [DecidableEq K]

/-- In the states where `P` holds, a call `c` that its `holder` `may` make goes through exactly when
    the pool covers what is due to the holder; then it takes this from the pool, nothing is due to
    the holder any more, and `P` is kept. -/
structure Pool (step : ι → σ → σ) (P : σ → Prop) (due : σ → K → ℤ) (pool : σ → ℤ)
    (ok : σ → ι → Prop)
    (call : κ → ι) (holder : κ → K) (may : κ → Prop) : Prop where
  nonneg : ∀ {s}, P s → ∀ k, 0 ≤ due s k
  covered : ∀ {s}, P s → 0 ≤ pool s
  ok_iff : ∀ {s c}, P s → may c → (ok s (call c) ↔ due s (holder c) ≤ pool s)
  keeps : ∀ {s c}, P s → ok s (call c) → P (step (call c) s)
  due_step : ∀ {s c}, P s → ok s (call c) → ∀ k,
    due (step (call c) s) k = if k = holder c then 0 else due s k
  pool_step : ∀ {s c}, P s → ok s (call c) → pool (step (call c) s) = pool s - due s (holder c)

namespace Pool

variable {step : ι → σ → σ} {P : σ → Prop} {due : σ → K → ℤ} {pool : σ → ℤ} {ok : σ → ι → Prop}
  {call : κ → ι} {holder : κ → K} {may : κ → Prop} (h : Pool step P due pool ok call holder may)

include h

/-- After a call its holder adds nothing to what is due to the rest. -/
theorem sum_due_step {s : σ} {c : κ} (hs : P s) (hok : ok s (call c)) (ks : Finset K) :
    ∑ k ∈ insert (holder c) ks, due s k = due s (holder c) + ∑ k ∈ ks, due (step (call c) s) k := by
  have hrest : ∑ k ∈ ks, due (step (call c) s) k = ∑ k ∈ ks.erase (holder c), due s k := by
    rw [← Finset.sum_erase ks (a := holder c) (by rw [h.due_step hs hok, if_pos rfl])]
    refine Finset.sum_congr rfl fun k hk => ?_
    rw [h.due_step hs hok, if_neg (Finset.ne_of_mem_erase hk)]
  rw [hrest, ← Finset.add_sum_erase _ _ (Finset.mem_insert_self _ ks), Finset.erase_insert_eq_erase]

/-- A list of calls goes through from end to end exactly when the pool covers what is due to their
    holders, whatever the order and however often each of them comes. -/
theorem all_ok_iff {cs : List κ} (hcs : ∀ c ∈ cs, may c) {s : σ} (hs : P s) :
    (∀ x ∈ trace step s (cs.map call), ok x.1 x.2) ↔ ∑ k ∈ (cs.map holder).toFinset,
      due s k ≤ pool s := by
  induction cs generalizing s with
  | nil => exact iff_of_true (fun x hx => absurd hx List.not_mem_nil) (h.covered hs)
  | cons c cs ih =>
    rw [List.forall_mem_cons] at hcs
    rw [List.map_cons, trace_cons, List.forall_mem_cons, List.map_cons, List.toFinset_cons]
    constructor
    · rintro ⟨hfirst, hrest⟩
      have hle := (ih hcs.2 (h.keeps hs hfirst)).mp hrest
      rw [h.pool_step hs hfirst] at hle
      rw [h.sum_due_step hs hfirst]
      omega
    · intro hle
      have hfirst : ok s (call c) := by
        refine (h.ok_iff hs hcs.1).mpr (le_trans ?_ hle)
        exact Finset.single_le_sum (fun k _ => h.nonneg hs k) (Finset.mem_insert_self _ _)
      refine ⟨hfirst, (ih hcs.2 (h.keeps hs hfirst)).mpr ?_⟩
      rw [h.sum_due_step hs hfirst] at hle
      rw [h.pool_step hs hfirst]
      omega

/-- What a list of calls that goes through leaves. -/
theorem run {cs : List κ} {s : σ} (hs : P s) (hok : ∀ x ∈ trace step s (cs.map call), ok x.1 x.2) :
    P (Trellis.run step s (cs.map call)) ∧
      (∀ k, due (Trellis.run step s (cs.map call)) k = if k ∈ cs.map holder then 0 else due s k) ∧
      pool (Trellis.run step s (cs.map call)) = pool s - ∑ k ∈ (cs.map holder).toFinset,
        due s k := by
  induction cs generalizing s with
  | nil => exact ⟨hs, fun k => (if_neg List.not_mem_nil).symm, (sub_zero _).symm⟩
  | cons c cs ih =>
    rw [List.map_cons, trace_cons, List.forall_mem_cons] at hok
    obtain ⟨hkept, hdue, hpool⟩ := ih (h.keeps hs hok.1) hok.2
    rw [List.map_cons, run_cons, List.map_cons]
    refine ⟨hkept, fun k => ?_, ?_⟩
    · rw [hdue, h.due_step hs hok.1]
      by_cases hk : k = holder c
      · rw [if_pos hk, ite_self, if_pos (List.mem_cons.mpr (.inl hk))]
      · simp only [List.mem_cons, hk, false_or, if_false]
    · rw [hpool, h.pool_step hs hok.1, List.toFinset_cons, h.sum_due_step hs hok.1]
      omega

end Pool

end Trellis
