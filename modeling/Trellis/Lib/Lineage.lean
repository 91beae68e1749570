import Trellis.Lib.Climb

/-!
# Lineages

A partial function `f` gives each point at most one point above it. The lineage of a point is the
list of the point and of everything above it, nearest first; a point has one exactly when a climb
from it reaches the top.

Results:
* `Lineage.mem_iff`: the lineage has the points that a climb reaches.
* `Lineage.update`: a new point above `w` changes no lineage without `w`.
* `Lines.update`: when every point has a lineage, a new point above `w` cuts the lineages with `w`
  off there, and the lineage of the new point follows.
-/

namespace Trellis

variable {α : Type}

/-- The list is the lineage of the point. -/
inductive Lineage (f : α → Option α) : α → List α → Prop where
  | top {a : α} (h : f a = none) : Lineage f a [a]
  | up {a b : α} {l : List α} (h : f a = some b) (hl : Lineage f b l) : Lineage f a (a :: l)

/-- Every point has the lineage that `line` says. -/
def Lines (f : α → Option α) (line : α → List α) : Prop := ∀ a, Lineage f a (line a)

namespace Lineage

variable {f : α → Option α} {a b w : α} {l l' : List α}

theorem eq_cons (h : Lineage f a l) : l = a :: l.tail := by
  cases h with
  | top => rfl
  | up => rfl

theorem unique (h : Lineage f a l) (h' : Lineage f a l') : l = l' := by
  induction h generalizing l' with
  | top hnone =>
    cases h' with
    | top => rfl
    | up hsome => exact absurd (hnone.symm.trans hsome) (Option.some_ne_none _).symm
  | up hsome _ ih =>
    cases h' with
    | top hnone => exact absurd (hnone.symm.trans hsome) (Option.some_ne_none _).symm
    | up hsome' hl' =>
      obtain rfl := Option.some.inj (hsome.symm.trans hsome')
      rw [ih hl']

theorem mem_iff (h : Lineage f a l) : b ∈ l ↔ ∃ k, climb f k a = some b := by
  induction h with
  | @top a hnone =>
    rw [List.mem_singleton]
    constructor
    · rintro rfl
      exact ⟨0, rfl⟩
    · rintro ⟨k, hk⟩
      cases k with
      | zero => exact (Option.some.inj hk).symm
      | succ k =>
        rw [climb_succ, hnone] at hk
        cases hk
  | @up a c l hsome _ ih =>
    rw [List.mem_cons, ih]
    constructor
    · rintro (rfl | ⟨k, hk⟩)
      · exact ⟨0, rfl⟩
      · refine ⟨k + 1, ?_⟩
        rw [climb_succ, hsome, Option.bind_some, hk]
    · rintro ⟨k, hk⟩
      cases k with
      | zero => exact .inl (Option.some.inj hk).symm
      | succ k =>
        rw [climb_succ, hsome, Option.bind_some] at hk
        exact .inr ⟨k, hk⟩

variable [DecidableEq α] {e : Option α}

/-- A new point above `w` changes no lineage without `w`. -/
theorem update (h : Lineage f a l) (hw : w ∉ l) : Lineage (Function.update f w e) a l := by
  induction h with
  | @top a hnone =>
    have hne : a ≠ w := fun heq => hw (heq ▸ List.mem_singleton_self a)
    refine .top ?_
    rw [Function.update_of_ne hne, hnone]
  | @up a b l hsome _ ih =>
    have hne : a ≠ w := fun heq => hw (heq ▸ List.mem_cons_self)
    refine .up (b := b) ?_ (ih fun hmem => hw (List.mem_cons_of_mem a hmem))
    rw [Function.update_of_ne hne, hsome]

/-- A lineage with `w` goes on from there as the lineage of the new point does. -/
theorem redirect {r : α} (h : Lineage f a l) (hw : w ∈ l)
    (hr : Lineage (Function.update f w (some r)) r l') :
    Lineage (Function.update f w (some r)) a (l.takeWhile (· ≠ w) ++ w :: l') := by
  have hhere : Lineage (Function.update f w (some r)) w (w :: l') :=
    .up (Function.update_self ..) hr
  induction h with
  | @top a hnone =>
    obtain rfl := List.mem_singleton.mp hw
    rw [List.takeWhile_cons_of_neg (by simp), List.nil_append]
    exact hhere
  | @up a b l hsome hl ih =>
    by_cases hne : a = w
    · subst hne
      rw [List.takeWhile_cons_of_neg (by simp), List.nil_append]
      exact hhere
    · rw [List.takeWhile_cons_of_pos (by simpa using hne), List.cons_append]
      refine .up (b := b) ?_ (ih ((List.mem_cons.mp hw).resolve_left (Ne.symm hne)))
      rw [Function.update_of_ne hne, hsome]

end Lineage

section

variable [DecidableEq α]

/-- The lineages after `r` is put above `w`. -/
def relined (line : α → List α) (w r a : α) : List α :=
  if w ∈ line a then (line a).takeWhile (· ≠ w) ++ w :: line r else line a

/-- A new point above `w` that is not below `w` cuts the lineages with `w` off there, and the
    lineage of the new point follows. -/
theorem Lines.update {f : α → Option α} {line : α → List α} (h : Lines f line) {w r : α}
    (hr : w ∉ line r) :
    Lines (Function.update f w (some r)) (relined line w r) := by
  intro a
  unfold relined
  split_ifs with hw
  · exact (h a).redirect hw ((h r).update hr)
  · exact (h a).update hw

end

end Trellis
