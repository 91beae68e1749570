import Trellis.Lib.Run

/-!
# Systems that share a resource

A family of systems, one for each party `i : I`. The state of each is made of a part of its own and
of a resource that all of them share. The joint state holds the parts and one copy of the resource;
when a party takes a step, its part and the resource change, and the parts of the others stay.

To a party `j` the steps of the others are something that happens to the resource. When each of them
looks to `j` like some inputs of its own, `j` cannot tell the joint system from a run of its own.

Results:
* `view_act_self`, `view_act_of_ne`: what a step of one party is to all of them.
* `Mirrors.run`: a run of the joint system is, to a party, a run of its own.
* `Mirrors.keeps`: what every step of a party keeps for itself, every step of the joint system
  keeps.
-/

namespace Trellis

/-- A state of type `τ` is a part of type `σ` together with a resource of type `ρ`. -/
structure Parted (σ ρ τ : Type) where
  join : σ → ρ → τ
  own : τ → σ
  common : τ → ρ
  own_join : ∀ s r, own (join s r) = s
  common_join : ∀ s r, common (join s r) = r
  join_own : ∀ t, join (own t) (common t) = t

/-- The parts of all parties and the resource. -/
structure Joint {I : Type} (σ : I → Type) (ρ : Type) where
  own : ∀ i, σ i
  common : ρ

namespace Joint

variable {I : Type} {σ τ ι : I → Type} {ρ α : Type}

/-- The state as the party `i` sees it. -/
def view (p : ∀ i, Parted (σ i) ρ (τ i)) (i : I) (g : Joint σ ρ) : τ i :=
  (p i).join (g.own i) g.common

/-- The party `i` moves to the state `t`. -/
def put [DecidableEq I] (p : ∀ i, Parted (σ i) ρ (τ i)) (i : I) (t : τ i) (g : Joint σ ρ) :
    Joint σ ρ where
  own := Function.update g.own i ((p i).own t)
  common := (p i).common t

/-- The input `x` of the party `i`. -/
def act [DecidableEq I] (p : ∀ i, Parted (σ i) ρ (τ i)) (step : ∀ i, ι i → τ i → τ i) (i : I)
    (x : ι i) (g : Joint σ ρ) : Joint σ ρ :=
  g.put p i (step i x (g.view p i))

/-- The resource changes while no party moves. -/
def disturb (f : ρ → ρ) (g : Joint σ ρ) : Joint σ ρ := { g with common := f g.common }

variable {p : ∀ i, Parted (σ i) ρ (τ i)} {step : ∀ i, ι i → τ i → τ i}

@[simp] theorem common_view (i : I) (g : Joint σ ρ) : (p i).common (g.view p i) = g.common :=
  (p i).common_join _ _

@[simp] theorem own_view (i : I) (g : Joint σ ρ) : (p i).own (g.view p i) = g.own i :=
  (p i).own_join _ _

@[simp] theorem view_put_self [DecidableEq I] (i : I) (t : τ i) (g : Joint σ ρ) :
    (g.put p i t).view p i = t := by
  show (p i).join (Function.update g.own i ((p i).own t) i) ((p i).common t) = t
  rw [Function.update_self, (p i).join_own]

/-- To another party only the resource has changed. -/
theorem view_put_of_ne [DecidableEq I] {i j : I} (h : j ≠ i) (t : τ i) (g : Joint σ ρ) :
    (g.put p i t).view p j = (p j).join (g.own j) ((p i).common t) := by
  show (p j).join (Function.update g.own i ((p i).own t) j) ((p i).common t) = _
  rw [Function.update_of_ne h]

/-- A step of a party is, to itself, its own step. -/
theorem view_act_self [DecidableEq I] (i : I) (x : ι i) (g : Joint σ ρ) :
    (g.act p step i x).view p i = step i x (g.view p i) :=
  view_put_self i _ g

theorem view_act_of_ne [DecidableEq I] {i j : I} (h : j ≠ i) (x : ι i) (g : Joint σ ρ) :
    (g.act p step i x).view p j =
      (p j).join (g.own j) ((p i).common (step i x (g.view p i))) :=
  view_put_of_ne h _ g

/-! ## What a party sees of a run -/

variable {κ : Type}

/-- Each step of the joint system is, to the party `j`, the run of the inputs `seen`. -/
def Mirrors (p : ∀ i, Parted (σ i) ρ (τ i)) (jointStep : α → Joint σ ρ → Joint σ ρ) (j : I)
    (stepOf : κ → τ j → τ j) (seen : Joint σ ρ → α → List κ) : Prop :=
  ∀ g a, (jointStep a g).view p j = Trellis.run stepOf (g.view p j) (seen g a)

/-- The inputs that a party takes a run of the joint system for. -/
def inputsSeen (jointStep : α → Joint σ ρ → Joint σ ρ) (seen : Joint σ ρ → α → List κ)
    (g : Joint σ ρ) (as : List α) : List κ :=
  (trace jointStep g as).flatMap fun x => seen x.1 x.2

variable {jointStep : α → Joint σ ρ → Joint σ ρ} {j : I} {stepOf : κ → τ j → τ j}
  {seen : Joint σ ρ → α → List κ}

@[simp] theorem inputsSeen_nil (g : Joint σ ρ) : inputsSeen jointStep seen g [] = [] := rfl

@[simp] theorem inputsSeen_cons (g : Joint σ ρ) (a : α) (as : List α) :
    inputsSeen jointStep seen g (a :: as) =
      seen g a ++ inputsSeen jointStep seen (jointStep a g) as := by
  rw [inputsSeen, trace_cons, List.flatMap_cons]
  rfl

/-- The party cannot tell the joint system from a run of its own. -/
theorem Mirrors.run (h : Mirrors p jointStep j stepOf seen) (g : Joint σ ρ) (as : List α) :
    (Trellis.run jointStep g as).view p j =
      Trellis.run stepOf (g.view p j) (inputsSeen jointStep seen g as) := by
  induction as generalizing g with
  | nil => rfl
  | cons a as ih => rw [run_cons, ih, inputsSeen_cons, run_append, h g a]

/-- What every input that the party sees keeps, the joint system keeps. -/
theorem Mirrors.keeps (h : Mirrors p jointStep j stepOf seen) {P : τ j → Prop} {N : κ → Prop}
    (hP : ∀ t x, P t → N x → P (stepOf x t)) {g : Joint σ ρ} {a : α}
    (hN : ∀ x ∈ seen g a, N x) (hg : P (g.view p j)) : P ((jointStep a g).view p j) := by
  rw [h g a]
  exact run_induct_of_trace (P := P) (Q := fun _ x => N x) hP hg
    fun x hx => hN x.2 (mem_of_mem_trace hx)

end Joint

end Trellis
