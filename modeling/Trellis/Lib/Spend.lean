import Trellis.Lib.Run

/-!
# Spending from accounts

A system keeps an account for each of several holders, and a step can spend from one of them. It
goes through exactly when the account covers it.

Results:
* `Spends.all_ok_iff`: a list of spendings, in any order, goes through from end to end exactly when
  no account is asked for more than it holds in all.
* `Spends.run`: what such a list leaves in the accounts.
-/

namespace Trellis

variable {σ ι K T : Type} [DecidableEq K]

/-- What the list spends from the account of `k`. -/
def spentOn (k : K) (xs : List (K × ℤ)) : ℤ := ((xs.filter fun x => x.1 = k).map Prod.snd).sum

@[simp] theorem spentOn_nil (k : K) : spentOn k [] = 0 := rfl

theorem spentOn_cons (k : K) (x : K × ℤ) (xs : List (K × ℤ)) :
    spentOn k (x :: xs) = (if k = x.1 then x.2 else 0) + spentOn k xs := by
  unfold spentOn
  by_cases hx : x.1 = k
  · rw [List.filter_cons_of_pos (by simpa using hx), List.map_cons, List.sum_cons, if_pos hx.symm]
  · rw [List.filter_cons_of_neg (by simpa using hx), if_neg (Ne.symm hx), zero_add]

theorem spentOn_append (k : K) (xs ys : List (K × ℤ)) :
    spentOn k (xs ++ ys) = spentOn k xs + spentOn k ys := by
  unfold spentOn
  rw [List.filter_append, List.map_append, List.sum_append]

theorem spentOn_nonneg {xs : List (K × ℤ)} (h : ∀ x ∈ xs, 0 ≤ x.2) (k : K) : 0 ≤ spentOn k xs := by
  refine List.sum_nonneg fun n hn => ?_
  obtain ⟨x, hx, rfl⟩ := List.mem_map.mp hn
  exact h x (List.mem_filter.mp hx).1

/-- In the states where `P` holds, the call that spends `n` from the account of `k`, if `n` is
    positive and `fits`, goes through exactly when the account holds as much; then it takes `n` from
    this account and nothing from the others, acts on the tally as `act` says, and keeps `P`. -/
structure Spends (step : ι → σ → σ) (P : σ → Prop) (account : σ → K → ℤ) (ok : σ → ι → Prop)
    (call : K → ℤ → ι) (fits : K → ℤ → Prop) (tally : σ → T) (act : K → ℤ → T → T) : Prop where
  nonneg : ∀ {s}, P s → ∀ k, 0 ≤ account s k
  ok_iff : ∀ {s k n}, P s → 0 < n → fits k n → (ok s (call k n) ↔ n ≤ account s k)
  keeps : ∀ {s k n}, P s → ok s (call k n) → P (step (call k n) s)
  spent : ∀ {s k n}, P s → ok s (call k n) → ∀ k',
    account (step (call k n) s) k' = account s k' - if k' = k then n else 0
  tally : ∀ {s k n}, P s → ok s (call k n) → tally (step (call k n) s) = act k n (tally s)

/-- One call for each of the spendings. -/
def spendings (call : K → ℤ → ι) (xs : List (K × ℤ)) : List ι := xs.map fun x => call x.1 x.2

namespace Spends

variable {step : ι → σ → σ} {P : σ → Prop} {account : σ → K → ℤ} {ok : σ → ι → Prop}
  {call : K → ℤ → ι} {fits : K → ℤ → Prop} {tally : σ → T} {act : K → ℤ → T → T}
  (h : Spends step P account ok call fits tally act)

include h

/-- A list of spendings goes through from end to end exactly when no account is asked for more than
    it holds, whatever the order. -/
theorem all_ok_iff {xs : List (K × ℤ)} (hxs : ∀ x ∈ xs, 0 < x.2 ∧ fits x.1 x.2) {s : σ} (hs : P s) :
    (∀ y ∈ trace step s (spendings call xs), ok y.1 y.2) ↔ ∀ k, spentOn k xs ≤ account s k := by
  induction xs generalizing s with
  | nil => exact iff_of_true (fun y hy => absurd hy List.not_mem_nil) (h.nonneg hs)
  | cons x xs ih =>
    rw [List.forall_mem_cons] at hxs
    obtain ⟨⟨hpos, hfits⟩, hrest⟩ := hxs
    have hok := h.ok_iff hs hpos hfits
    show (∀ y ∈ (s, call x.1 x.2) :: trace step (step (call x.1 x.2) s) (spendings call xs),
      ok y.1 y.2) ↔ _
    rw [List.forall_mem_cons]
    constructor
    · rintro ⟨hfirst, hothers⟩ k
      have hle := (ih hrest (h.keeps hs hfirst)).mp hothers k
      rw [h.spent hs hfirst] at hle
      rw [spentOn_cons]
      omega
    · intro hle
      have hfirst : ok s (call x.1 x.2) := by
        -- what the rest spends is not negative, so the account covers the first one
        have hx := hle x.1
        have hnonneg := spentOn_nonneg (fun y hy => (hrest y hy).1.le) x.1
        rw [spentOn_cons, if_pos rfl] at hx
        exact hok.mpr (by omega)
      refine ⟨hfirst, (ih hrest (h.keeps hs hfirst)).mpr fun k => ?_⟩
      have hk := hle k
      rw [spentOn_cons] at hk
      rw [h.spent hs hfirst]
      omega

/-- What a list of spendings that goes through leaves. -/
theorem run {xs : List (K × ℤ)} {s : σ} (hs : P s)
    (hok : ∀ y ∈ trace step s (spendings call xs), ok y.1 y.2) :
    P (run step s (spendings call xs)) ∧
      (∀ k, account (Trellis.run step s (spendings call xs)) k = account s k - spentOn k xs) ∧
      tally (Trellis.run step s (spendings call xs)) =
        xs.foldl (fun t x => act x.1 x.2 t) (tally s) := by
  induction xs generalizing s with
  | nil => exact ⟨hs, fun k => (sub_zero _).symm, rfl⟩
  | cons x xs ih =>
    have hall : ok s (call x.1 x.2) ∧
        ∀ y ∈ trace step (step (call x.1 x.2) s) (spendings call xs), ok y.1 y.2 :=
      List.forall_mem_cons.mp hok
    obtain ⟨hkept, haccounts, htally⟩ := ih (h.keeps hs hall.1) hall.2
    refine ⟨hkept, fun k => ?_, ?_⟩
    · have hk := haccounts k
      rw [h.spent hs hall.1] at hk
      rw [spentOn_cons, ← sub_sub]
      exact hk
    · rw [List.foldl_cons, ← h.tally hs hall.1]
      exact htally

end Spends

end Trellis
