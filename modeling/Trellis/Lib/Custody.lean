import Trellis.Lib.Run

/-!
# Custody of pooled assets

A custodian holds assets of several kinds on behalf of others. `held s k` is what it holds of the
kind `k` in the state `s`, `owed s k` what it owes of it. The surplus is the difference. A change
of the state is backed when it lowers no surplus; a state is solvent when no surplus is negative.

Results:
* `Custody.solvent_spend_iff`: spending from the surplus of one kind keeps a solvent state solvent
  exactly when the surplus covers it.
* `Custody.surplus_run`: when every step raises the surplus of a kind by what it receives from
  outside, the surplus at the end of a run is the one at its start plus all that was received.
-/

namespace Trellis

/-- What a custodian holds and owes of every kind of asset. -/
structure Custody (σ κ : Type) where
  held : σ → κ → ℤ
  owed : σ → κ → ℤ

namespace Custody

variable {σ κ ι : Type} (c : Custody σ κ)

/-- What is held beyond what is owed. -/
def surplus (s : σ) (k : κ) : ℤ := c.held s k - c.owed s k

/-- Everything owed is held. -/
def Solvent (s : σ) : Prop := ∀ k, c.owed s k ≤ c.held s k

/-- A change of the state that lowers no surplus. -/
def Backed (s s' : σ) : Prop := ∀ k, c.surplus s k ≤ c.surplus s' k

variable {c}

theorem solvent_iff {s : σ} : c.Solvent s ↔ ∀ k, 0 ≤ c.surplus s k := by
  simp [Solvent, surplus]

theorem Backed.refl (s : σ) : c.Backed s s := fun _ => le_rfl

theorem Backed.trans {s s' s'' : σ} (h : c.Backed s s') (h' : c.Backed s' s'') : c.Backed s s'' :=
  fun k => (h k).trans (h' k)

theorem Backed.solvent {s s' : σ} (h : c.Backed s s') (hs : c.Solvent s) : c.Solvent s' :=
  solvent_iff.mpr fun k => (solvent_iff.mp hs k).trans (h k)

/-- A change that takes `n` from the surplus of the kind `k` and leaves the others alone keeps a
    solvent state solvent exactly when the surplus covers `n`. -/
theorem solvent_spend_iff [DecidableEq κ] {s s' : σ} {k : κ} {n : ℤ} (hs : c.Solvent s)
    (h : ∀ k', c.surplus s' k' = c.surplus s k' - if k = k' then n else 0) :
    c.Solvent s' ↔ n ≤ c.surplus s k := by
  rw [solvent_iff] at hs ⊢
  constructor
  · intro hs'
    have hk := hs' k
    rw [h k, if_pos rfl] at hk
    omega
  · intro hle k'
    have hk' := hs k'
    rw [h k']
    split_ifs with heq
    · rw [← heq]
      omega
    · omega

theorem surplus_run {step : ι → σ → σ} {P : σ → Prop} {received : σ → ι → κ → ℤ}
    (hP : ∀ s i, P s → P (step i s))
    (hstep : ∀ s i k, P s → c.surplus (step i s) k = c.surplus s k + received s i k)
    {s : σ} (hs : P s) (is : List ι) (k : κ) :
    c.surplus (run step s is) k =
      c.surplus s k + ((trace step s is).map fun x => received x.1 x.2 k).sum := by
  exact run_eq_add_sum_of_trace (P := P) (N := fun _ _ => True) (fun s => c.surplus s k)
    (fun s i h _ => hP s i h) (fun s i h _ => hstep s i k h) hs fun _ _ => trivial

end Custody

end Trellis
