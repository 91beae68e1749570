import Mathlib

/-!
# Climbing along a partial function

A partial function `f : α → Option α` gives each point at most one point above it. `climb f n a` is
the point `n` hops above `a`, if there is one. A cycle of length `n` is a point `n` hops above
itself.

Results:
* `climb_update`: a path that does not leave the point `w` is not changed by a new edge of `w`.
* `cycle_of_update`: a cycle of a function with a new edge from `w` to `r` is an old one, or `w` is
  above `r` by fewer hops than its length.
* `acyclic_update_iff`: the new edge closes no cycle exactly when `w` is not above `r`.
* `NoCycle.nodup_path`: without cycles of length `n` or less, the points up to `n` hops above a
  point differ.
* `Acyclic.le_card_of_climb`: without cycles, no climb has more hops than the function has points.
-/

namespace Trellis

variable {α : Type}

/-- The point `n` hops above `a`. -/
def climb (f : α → Option α) : ℕ → α → Option α
  | 0, a => some a
  | n + 1, a => (f a).bind (climb f n)

/-- No point is above itself by `n` hops or fewer. -/
def NoCycle (f : α → Option α) (n : ℕ) : Prop := ∀ a k, 0 < k → k ≤ n → climb f k a ≠ some a

/-- No point is above itself. -/
def Acyclic (f : α → Option α) : Prop := ∀ a k, 0 < k → climb f k a ≠ some a

section

variable {f : α → Option α}

@[simp] theorem climb_zero (a : α) : climb f 0 a = some a := rfl

theorem climb_succ (n : ℕ) (a : α) : climb f (n + 1) a = (f a).bind (climb f n) := rfl

theorem climb_add (m n : ℕ) (a : α) : climb f (m + n) a = (climb f m a).bind (climb f n) := by
  induction m generalizing a with
  | zero => simp
  | succ m ih =>
    rw [Nat.succ_add, climb_succ, climb_succ, Option.bind_assoc]
    exact congrArg _ (funext ih)

theorem climb_succ' (n : ℕ) (a : α) : climb f (n + 1) a = (climb f n a).bind f := by
  rw [climb_add]
  refine congrArg _ (funext fun b => ?_)
  rw [climb_succ]
  cases f b <;> rfl

/-- The point `a` and the points up to `n` hops above it, in order. -/
def path (f : α → Option α) : ℕ → α → List α
  | 0, a => [a]
  | n + 1, a => a :: match f a with
    | none => []
    | some b => path f n b

theorem mem_path {n : ℕ} {a b : α} : b ∈ path f n a ↔ ∃ k ≤ n, climb f k a = some b := by
  induction n generalizing a with
  | zero => simp [path, eq_comm]
  | succ n ih =>
    have hrest : b ∈ (match f a with
        | none => []
        | some c => path f n c) ↔ ∃ k ≤ n, climb f (k + 1) a = some b := by
      cases hc : f a with
      | none => simp [climb_succ, hc]
      | some c => simp [climb_succ, hc, ih]
    rw [path, List.mem_cons, hrest]
    constructor
    · rintro (rfl | ⟨k, hk, hb⟩)
      · exact ⟨0, Nat.zero_le _, rfl⟩
      · exact ⟨k + 1, Nat.succ_le_succ hk, hb⟩
    · rintro ⟨k, hk, hb⟩
      cases k with
      | zero => exact .inl (Option.some.inj hb).symm
      | succ k => exact .inr ⟨k, Nat.le_of_succ_le_succ hk, hb⟩

theorem NoCycle.mono {m n : ℕ} (h : NoCycle f n) (hmn : m ≤ n) : NoCycle f m :=
  fun a k hk hkm => h a k hk (le_trans hkm hmn)

/-- Without cycles of length `n` or less, the points up to `n` hops above a point differ. -/
theorem NoCycle.nodup_path {n : ℕ} (h : NoCycle f n) (a : α) : (path f n a).Nodup := by
  induction n generalizing a with
  | zero => exact List.nodup_singleton a
  | succ n ih =>
    have hshort : NoCycle f n := h.mono (Nat.le_succ n)
    rw [path]
    cases hb : f a with
    | none => exact List.nodup_singleton a
    | some b =>
      refine List.nodup_cons.mpr ⟨?_, ih hshort b⟩
      intro ha
      obtain ⟨k, hk, hka⟩ := mem_path.mp ha
      refine h a (k + 1) (Nat.succ_pos k) (Nat.succ_le_succ hk) ?_
      rw [climb_succ, hb, Option.bind_some, hka]

theorem climb_of_climb {m n : ℕ} {a b c : α} (h : climb f m a = some b)
    (h' : climb f n b = some c) :
    climb f (m + n) a = some c := by
  rw [climb_add, h, Option.bind_some, h']

theorem climb_sub {m n : ℕ} (hmn : m ≤ n) {a b : α} (h : climb f m a = some b) :
    climb f (n - m) b = climb f n a := by
  have hadd : climb f (m + (n - m)) a = climb f (n - m) b := by rw [climb_add, h, Option.bind_some]
  rw [← hadd, Nat.add_sub_cancel' hmn]

theorem Acyclic.noCycle (h : Acyclic f) (n : ℕ) : NoCycle f n := fun a k hk _ => h a k hk

theorem acyclic_of_noCycle (h : ∀ n, NoCycle f n) : Acyclic f := fun a k hk => h k a k hk le_rfl

theorem Acyclic.eq_of_climb (h : Acyclic f) {m n : ℕ} {a b : α} (hmn : m ≤ n)
    (hm : climb f m a = some b) (hn : climb f n a = some b) : m = n := by
  by_contra hne
  rw [← climb_sub hmn hm] at hn
  exact h b (n - m) (by omega) hn

/-- A climb of `n` hops over points of a finite set, none of which comes twice, has no more hops
    than the set has points. -/
theorem card_le_of_climb {points : Finset α} {n : ℕ} {a : α}
    (hmem : ∀ k < n, ∃ b, climb f k a = some b ∧ b ∈ points)
    (hnew : ∀ j k b, j < k → k < n → climb f j a = some b → climb f k a ≠ some b) :
    n ≤ points.card := by
  have hcard : ((List.range n).map fun k => (climb f k a).getD a).Nodup := by
    refine List.Nodup.map_on ?_ List.nodup_range
    intro j hj k hk hjk
    rw [List.mem_range] at hj hk
    obtain ⟨b, hb, -⟩ := hmem j hj
    obtain ⟨c, hc, -⟩ := hmem k hk
    rw [hb, hc, Option.getD_some, Option.getD_some] at hjk
    subst hjk
    rcases Nat.lt_trichotomy j k with hlt | heq | hlt
    · exact absurd hc (hnew j k b hlt hk hb)
    · exact heq
    · exact absurd hb (hnew k j b hlt hj hc)
  have hsub : ∀ b ∈ (List.range n).map fun k => (climb f k a).getD a, b ∈ points := by
    intro b hb
    obtain ⟨k, hk, rfl⟩ := List.mem_map.mp hb
    obtain ⟨c, hc, hcmem⟩ := hmem k (List.mem_range.mp hk)
    rw [hc]
    exact hcmem
  have hle := (List.Nodup.subperm hcard fun b hb => Finset.mem_toList.mpr (hsub b hb)).length_le
  rwa [List.length_map, List.length_range, Finset.length_toList] at hle

/-- Without cycles, no climb has more hops than the function has points. -/
theorem Acyclic.le_card_of_climb (h : Acyclic f) {points : Finset α}
    (hpoints : ∀ b c, f b = some c → b ∈ points) {n : ℕ} {a b : α} (hn : climb f n a = some b) :
    n ≤ points.card := by
  have hall : ∀ k < n, ∃ c, climb f k a = some c ∧ c ∈ points := by
    intro k hk
    obtain ⟨m, rfl⟩ : ∃ m, n = k + (m + 1) := ⟨n - k - 1, by omega⟩
    rw [climb_add] at hn
    obtain ⟨c, hc, hrest⟩ := Option.bind_eq_some_iff.mp hn
    rw [climb_succ] at hrest
    obtain ⟨d, hd, -⟩ := Option.bind_eq_some_iff.mp hrest
    exact ⟨c, hc, hpoints c d hd⟩
  refine card_le_of_climb hall ?_
  intro j k c hjk _ hj hk
  exact absurd (h.eq_of_climb hjk.le hj hk) hjk.ne

end

/-! ## A new edge -/

section

variable [DecidableEq α] {f : α → Option α} {w : α} {e : Option α}

/-- A path that does not leave `w` is not changed by a new edge of `w`. -/
theorem climb_update {n : ℕ} {a : α} (h : ∀ k < n, climb f k a ≠ some w) :
    climb (Function.update f w e) n a = climb f n a := by
  induction n with
  | zero => rfl
  | succ n ih =>
    rw [climb_succ', climb_succ', ih fun k hk => h k (Nat.lt_succ_of_lt hk)]
    cases hb : climb f n a with
    | none => rfl
    | some b =>
      have hne : b ≠ w := by
        rintro rfl
        exact h n (Nat.lt_succ_self n) hb
      rw [Option.bind_some, Option.bind_some, Function.update_of_ne hne]

/-- The same for the old edge of `w`. -/
theorem climb_of_update {n : ℕ} {a : α}
    (h : ∀ k < n, climb (Function.update f w e) k a ≠ some w) :
    climb f n a = climb (Function.update f w e) n a := by
  have hback : Function.update (Function.update f w e) w (f w) = f := by
    rw [Function.update_idem, Function.update_eq_self]
  rw [← climb_update h, hback]

theorem exists_first_climb {n : ℕ} {a : α} (h : climb f n a = some w) :
    ∃ m ≤ n, climb f m a = some w ∧ ∀ k < m, climb f k a ≠ some w := by
  have hex : ∃ m, climb f m a = some w := ⟨n, h⟩
  exact ⟨Nat.find hex, Nat.find_le h, Nat.find_spec hex, fun k hk => Nat.find_min hex hk⟩

/-- The new edge closes a cycle when `w` is above its end. -/
theorem cycle_of_climb {r : α} {n : ℕ} (h : climb f n r = some w) :
    ∃ m ≤ n, climb (Function.update f w (some r)) (m + 1) w = some w := by
  obtain ⟨m, hmn, hm, hfirst⟩ := exists_first_climb h
  refine ⟨m, hmn, ?_⟩
  rw [climb_succ, Function.update_self, Option.bind_some, climb_update hfirst, hm]

/-- A cycle is an old one, or `w` is above the end of the new edge by fewer hops. -/
theorem cycle_of_update {r : α} {n : ℕ} (hn : 0 < n) {a : α}
    (h : climb (Function.update f w (some r)) n a = some a) :
    climb f n a = some a ∨ ∃ m < n, climb f m r = some w := by
  by_cases hw : ∀ k < n, climb (Function.update f w (some r)) k a ≠ some w
  · left
    rw [climb_of_update hw, h]
  · right
    push Not at hw
    obtain ⟨k, hk, hka⟩ := hw
    -- the cycle passes through `w`, so it can be climbed from there
    have hrest : climb (Function.update f w (some r)) (n - k) w = some a := by
      rw [climb_sub hk.le hka, h]
    have hround := climb_of_climb hrest hka
    rw [Nat.sub_add_cancel hk.le, ← Nat.succ_pred_eq_of_pos hn, climb_succ, Function.update_self,
      Option.bind_some] at hround
    obtain ⟨m, hm, hmw, hfirst⟩ := exists_first_climb hround
    refine ⟨m, lt_of_le_of_lt hm (Nat.pred_lt hn.ne'), ?_⟩
    rw [climb_of_update hfirst, hmw]

/-- A new edge whose end is not below `w` by fewer than `n` hops closes no cycle of length `n` or
    less. -/
theorem NoCycle.update {n : ℕ} (h : NoCycle f n) {r : α} (hr : ∀ m < n, climb f m r ≠ some w) :
    NoCycle (Function.update f w (some r)) n := by
  intro a k hk hkn hcycle
  rcases cycle_of_update hk hcycle with hold | ⟨m, hm, hmw⟩
  · exact h a k hk hkn hold
  · exact hr m (lt_of_lt_of_le hm hkn) hmw

/-- A new edge closes no cycle exactly when `w` is not above its end. -/
theorem acyclic_update_iff (h : Acyclic f) {r : α} :
    Acyclic (Function.update f w (some r)) ↔ ∀ n, climb f n r ≠ some w := by
  constructor
  · intro hacyclic n hn
    obtain ⟨m, -, hm⟩ := cycle_of_climb hn
    exact hacyclic w (m + 1) (Nat.succ_pos m) hm
  · intro hr
    exact acyclic_of_noCycle fun n => (h.noCycle n).update fun m _ => hr m

end

end Trellis
