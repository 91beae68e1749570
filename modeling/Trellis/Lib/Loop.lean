import Trellis.Lib.Climb

/-!
# Loops without a bound

A round of a loop ends it with a value or goes on with another state. `loopWithin round n s` is the
value of the loop if it ends within `n` rounds. A loop moves along a partial function `f` when every
round that goes on takes its position to the point above it.

Results:
* `loopWithin_mono`: more rounds do not change the value.
* `loopWithin_of_acyclic`: a loop that moves along a function without cycles, which is defined on
  `n` points at most, ends within `n + 1` rounds.
* `loop_ends_iff`: a loop over the points themselves that does not end within `n + 1` rounds never
  ends, with cycles or without.
-/

namespace Trellis

variable {σ α β : Type}

/-- The value of the loop if it ends within `n` rounds. -/
def loopWithin (round : σ → α ⊕ σ) : ℕ → σ → Option α
  | 0, _ => none
  | n + 1, s => match round s with
    | .inl a => some a
    | .inr s' => loopWithin round n s'

/-- The loop ends. -/
def Terminates (round : σ → α ⊕ σ) (s : σ) : Prop := ∃ n a, loopWithin round n s = some a

/-- Every round that goes on takes the position of the loop to the point above it. -/
def MovesAlong (round : σ → α ⊕ σ) (pos : σ → β) (f : β → Option β) : Prop :=
  ∀ s s', round s = .inr s' → f (pos s) = some (pos s')

section

variable {round : σ → α ⊕ σ} {s s' : σ} {a : α} {n : ℕ}

@[simp] theorem loopWithin_zero (s : σ) : loopWithin round 0 s = none := rfl

theorem loopWithin_done (h : round s = .inl a) : loopWithin round (n + 1) s = some a := by
  rw [loopWithin, h]

theorem loopWithin_next (h : round s = .inr s') :
    loopWithin round (n + 1) s = loopWithin round n s' := by
  rw [loopWithin, h]

/-- A loop that has ended keeps its value with more rounds. -/
theorem loopWithin_mono {m : ℕ} (hmn : m ≤ n) (h : loopWithin round m s = some a) :
    loopWithin round n s = some a := by
  induction m generalizing n s with
  | zero => simp at h
  | succ m ih =>
    obtain ⟨n, rfl⟩ :=
      Nat.exists_eq_succ_of_ne_zero (Nat.ne_of_gt (Nat.lt_of_lt_of_le m.succ_pos hmn))
    cases hround : round s with
    | inl b =>
      rw [loopWithin_done hround] at h
      rw [Nat.succ_eq_add_one, loopWithin_done hround, h]
    | inr s' =>
      rw [loopWithin_next hround] at h
      rw [Nat.succ_eq_add_one, loopWithin_next hround]
      exact ih (Nat.le_of_succ_le_succ hmn) h

theorem loopWithin_unique {m : ℕ} {b : α} (h : loopWithin round m s = some a)
    (h' : loopWithin round n s = some b) : a = b := by
  have hm := loopWithin_mono (Nat.le_add_right m n) h
  have hn := loopWithin_mono (Nat.le_add_left n m) h'
  rw [hm] at hn
  exact Option.some.inj hn

variable {pos : σ → β} {f : β → Option β}

theorem climb_of_loopWithin_none (hmoves : MovesAlong round pos f)
    (h : loopWithin round n s = none) : ∃ b, climb f n (pos s) = some b := by
  induction n generalizing s with
  | zero => exact ⟨pos s, rfl⟩
  | succ n ih =>
    cases hround : round s with
    | inl a =>
      rw [loopWithin_done hround] at h
      cases h
    | inr s' =>
      rw [loopWithin_next hround] at h
      obtain ⟨b, hb⟩ := ih h
      refine ⟨b, ?_⟩
      rw [climb_succ, hmoves s s' hround, Option.bind_some, hb]

/-- A loop that moves along a function without cycles ends within one round more than the function
    has points. -/
theorem loopWithin_of_acyclic (hmoves : MovesAlong round pos f) (hacyclic : Acyclic f)
    {points : Finset β} (hpoints : ∀ b c, f b = some c → b ∈ points) (s : σ) :
    ∃ a, loopWithin round (points.card + 1) s = some a := by
  by_contra hnone
  rw [← Option.ne_none_iff_exists', not_not] at hnone
  obtain ⟨b, hb⟩ := climb_of_loopWithin_none hmoves hnone
  have hle := hacyclic.le_card_of_climb hpoints hb
  omega

end

/-! ## Loops over the points themselves -/

section

variable {round : β → α ⊕ β} {f : β → Option β} {s : β} {a : α} {n : ℕ}

/-- The rest of a loop that ends within `n` rounds, and not within fewer, from the point `k` hops
    above the start. -/
theorem loopWithin_rest (hmoves : MovesAlong round id f) (h : loopWithin round n s = some a)
    (hfirst : ∀ m < n, loopWithin round m s = none) {k : ℕ} (hk : k < n) :
    ∃ b, climb f k s = some b ∧ loopWithin round (n - k) b = some a ∧
      ∀ m < n - k, loopWithin round m b = none := by
  induction k with
  | zero => exact ⟨s, rfl, h, hfirst⟩
  | succ k ih =>
    obtain ⟨b, hb, hends, hnot⟩ := ih (Nat.lt_of_succ_lt hk)
    obtain ⟨m, hm⟩ : ∃ m, n - k = m + 1 := ⟨n - k - 1, by omega⟩
    have hrest : n - (k + 1) = m := by omega
    rw [hm] at hends hnot
    rw [hrest]
    cases hround : round b with
    | inl c =>
      -- the loop would have ended here
      have hone : loopWithin round 1 b = none := hnot 1 (by omega)
      rw [loopWithin_done hround] at hone
      cases hone
    | inr c =>
      refine ⟨c, ?_, ?_, ?_⟩
      · rw [climb_succ', hb, Option.bind_some]
        exact hmoves b c hround
      · rw [loopWithin_next hround] at hends
        exact hends
      · intro j hj
        have hlater := hnot (j + 1) (by omega)
        rw [loopWithin_next hround] at hlater
        exact hlater

/-- A loop ends, if ever, within one round more than the function it moves along has points. -/
theorem loop_ends_iff (hmoves : MovesAlong round id f) {points : Finset β}
    (hpoints : ∀ b c, f b = some c → b ∈ points) :
    (∃ n, loopWithin round n s = some a) ↔ loopWithin round (points.card + 1) s = some a := by
  refine ⟨?_, fun h => ⟨_, h⟩⟩
  intro hex
  classical
  have hends := Nat.find_spec hex
  have hfirst : ∀ m < Nat.find hex, loopWithin round m s = none := by
    intro m hm
    by_contra hne
    obtain ⟨b, hb⟩ := Option.ne_none_iff_exists'.mp hne
    rw [loopWithin_unique hb hends] at hb
    exact Nat.find_min hex hm hb
  generalize Nat.find hex = n at hends hfirst
  -- all points but the last are left upwards, and no two of them are the same
  have hle : n - 1 ≤ points.card := by
    refine card_le_of_climb (n := n - 1) (a := s) (f := f) ?_ ?_
    · intro k hk
      obtain ⟨b, hb, -, -⟩ := loopWithin_rest hmoves hends hfirst (k := k) (by omega)
      obtain ⟨c, hc, -, -⟩ := loopWithin_rest hmoves hends hfirst (k := k + 1) (by omega)
      rw [climb_succ', hb, Option.bind_some] at hc
      exact ⟨b, hb, hpoints b c hc⟩
    · intro j k b hjk hk hj hb
      obtain ⟨c, hc, hjends, -⟩ := loopWithin_rest hmoves hends hfirst (k := k) (by omega)
      obtain ⟨d, hd, -, hjnot⟩ := loopWithin_rest hmoves hends hfirst (k := j) (by omega)
      rw [hb] at hc
      rw [hj] at hd
      obtain rfl := Option.some.inj hc
      obtain rfl := Option.some.inj hd
      have hnone := hjnot (n - k) (by omega)
      rw [hjends] at hnone
      cases hnone
  exact loopWithin_mono (by omega) hends

end

end Trellis
