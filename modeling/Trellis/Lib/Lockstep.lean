import Trellis.Lib.Exec

/-!
# Computations in lockstep

Two computations run in lockstep up to an observation `f` of the state when, from states that `f`
does not tell apart, they fail with the same fault, or end with the same value in states that `f`
does not tell apart.

Two computations over different states can be compared along a function `f` from the one to the
other: `SeenThrough f x y` says that `x` does from every state what `y` does from the state seen
through `f`.

`collect accepts op` goes over a list of items, runs `op` for the items that are accepted in the
state it has reached, skips the others, and collects what `op` returns.

Results:
* `Lockstep.bind` and the rules of the primitive steps.
* `Outcome.Alike.hide`: a step that `f` does not see can follow.
* `SeenThrough.bind` and the rules of the primitive steps.
* `collect_alike`: two loops accept the same items and run in lockstep when each item does.
* `collect_append_ok`, `collect_succeeds_at`: where a loop is when it comes to an item.
* `collect_keeps`: what the items keep, the loop keeps.
-/

namespace Trellis

open Exec

variable {σ τ ε α β γ ι : Type}

/-! ## Lockstep -/

/-- Two ends that `f` does not tell apart. -/
inductive Outcome.Alike (f : σ → γ) : Outcome σ τ ε α → Outcome σ τ ε α → Prop where
  | ok {a : α} {s t : σ} (h : f s = f t) : Alike f (.ok a s) (.ok a t)
  | fail {e : Fault τ ε} {s t : σ} : Alike f (.fail e s) (.fail e t)

/-- Two computations that `f` does not tell apart. -/
def Lockstep (f : σ → γ) (x y : Exec σ τ ε α) : Prop :=
  ∀ s t, f s = f t → (x s).Alike f (y t)

section

variable {f : σ → γ} {s t : σ}

theorem Outcome.Alike.of_ok {o o' : Outcome σ τ ε α} {a : α} (h : o.Alike f o')
    (ho : o = .ok a s) : ∃ t, o' = .ok a t ∧ f s = f t := by
  cases h with
  | ok hst =>
    cases ho
    exact ⟨_, rfl, hst⟩
  | fail => cases ho

/-- Two ends that are alike lead to ends that are alike. -/
theorem alike_bind {x y : Exec σ τ ε α} {g h : α → Exec σ τ ε β} (hxy : (x s).Alike f (y t))
    (hgh : ∀ a s' t', x s = .ok a s' → y t = .ok a t' → f s' = f t' → (g a s').Alike f (h a t')) :
    ((x >>= g) s).Alike f ((y >>= h) t) := by
  cases hx : x s with
  | ok a s' =>
    obtain ⟨t', hy, hst⟩ := hxy.of_ok hx
    rw [bind_of_ok hx, bind_of_ok hy]
    exact hgh a s' t' hx hy hst
  | fail e s' =>
    cases hy : y t with
    | ok a t' =>
      rw [hx, hy] at hxy
      cases hxy
    | fail e' t' =>
      rw [hx, hy] at hxy
      cases hxy
      rw [bind_of_fail hx, bind_of_fail hy]
      exact .fail

theorem Lockstep.bind {x y : Exec σ τ ε α} {g h : α → Exec σ τ ε β} (hxy : Lockstep f x y)
    (hgh : ∀ a, Lockstep f (g a) (h a)) : Lockstep f (x >>= g) (y >>= h) :=
  fun s t hst => alike_bind (hxy s t hst) fun a s' t' _ _ => hgh a s' t'

theorem Lockstep.pure (a : α) : Lockstep f (Pure.pure a : Exec σ τ ε α) (Pure.pure a) :=
  fun _ _ hst => .ok hst

theorem Lockstep.gets {g : σ → α} (hg : ∀ s t, f s = f t → g s = g t) :
    Lockstep f (gets g : Exec σ τ ε α) (gets g) := by
  intro s t hst
  show Outcome.Alike f (.ok (g s) s) (.ok (g t) t)
  rw [hg s t hst]
  exact .ok hst

theorem Lockstep.update {u : σ → σ} (hu : ∀ s t, f s = f t → f (u s) = f (u t)) :
    Lockstep f (update u : Exec σ τ ε Unit) (update u) :=
  fun s t hst => .ok (hu s t hst)

theorem Lockstep.trapIf (c : Prop) [Decidable c] (e : τ) :
    Lockstep f (trapIf c e : Exec σ τ ε Unit) (trapIf c e) := by
  intro s t hst
  unfold Exec.trapIf
  split_ifs
  · exact .fail
  · exact .ok hst

theorem Lockstep.okOr (o : Option α) (e : ε) : Lockstep f (okOr o e : Exec σ τ ε α) (okOr o e) := by
  intro s t hst
  cases o with
  | none => exact .fail
  | some a => exact .ok hst

theorem Lockstep.expect (o : Option α) (e : τ) :
    Lockstep f (expect o e : Exec σ τ ε α) (expect o e) := by
  intro s t hst
  cases o with
  | none => exact .fail
  | some a => exact .ok hst

/-- What `f` does not see can follow. -/
theorem Outcome.Alike.hide {o : Outcome σ τ ε α} {y : Exec σ τ ε α} {z : α → Exec σ τ ε α}
    (h : o.Alike f (y t)) (hz : ∀ a t, ∃ t', z a t = .ok a t' ∧ f t' = f t) :
    o.Alike f ((y >>= z) t) := by
  cases hy : y t with
  | fail e t' =>
    rw [bind_of_fail hy]
    rw [hy] at h
    cases h
    exact .fail
  | ok a t' =>
    obtain ⟨t'', hza, hsame⟩ := hz a t'
    rw [bind_of_ok hy, hza]
    rw [hy] at h
    cases h with
    | ok hst => exact .ok (hst.trans hsame.symm)

end

/-! ## Computations over different states -/

/-- The end of a computation, with its state seen through `f`. -/
def Outcome.through (f : σ → γ) : Outcome σ τ ε α → Outcome γ τ ε α
  | .ok a s => .ok a (f s)
  | .fail e s => .fail e (f s)

/-- From every state, `x` does what `y` does from the state seen through `f`. -/
def SeenThrough (f : σ → γ) (x : Exec σ τ ε α) (y : Exec γ τ ε α) : Prop :=
  ∀ s, (x s).through f = y (f s)

namespace SeenThrough

variable {f : σ → γ}

theorem bind {x : Exec σ τ ε α} {y : Exec γ τ ε α} {g : α → Exec σ τ ε β} {h : α → Exec γ τ ε β}
    (hxy : SeenThrough f x y) (hgh : ∀ a, SeenThrough f (g a) (h a)) :
    SeenThrough f (x >>= g) (y >>= h) := by
  intro s
  cases hx : x s with
  | ok a s' =>
    have hy : y (f s) = .ok a (f s') := by rw [← hxy s, hx, Outcome.through]
    rw [bind_of_ok hx, bind_of_ok hy]
    exact hgh a s'
  | fail e s' =>
    have hy : y (f s) = .fail e (f s') := by rw [← hxy s, hx, Outcome.through]
    rw [bind_of_fail hx, bind_of_fail hy, Outcome.through]

theorem gets {g : σ → α} {h : γ → α} (hgh : ∀ s, g s = h (f s)) :
    SeenThrough f (Exec.gets g : Exec σ τ ε α) (Exec.gets h) := by
  intro s
  show Outcome.ok (g s) (f s) = .ok (h (f s)) (f s)
  rw [hgh]

theorem failIf (c : Prop) [Decidable c] (e : ε) :
    SeenThrough f (Exec.failIf c e : Exec σ τ ε Unit) (Exec.failIf c e) := by
  intro s
  unfold Exec.failIf
  split_ifs <;> rfl

theorem trapIf (c : Prop) [Decidable c] (e : τ) :
    SeenThrough f (Exec.trapIf c e : Exec σ τ ε Unit) (Exec.trapIf c e) := by
  intro s
  unfold Exec.trapIf
  split_ifs <;> rfl

theorem expect (o : Option α) (e : τ) :
    SeenThrough f (Exec.expect o e : Exec σ τ ε α) (Exec.expect o e) := by
  intro s
  cases o <;> rfl

/-- A computation that always returns is seen as one that always returns the same. -/
theorem of_ok {x : Exec σ τ ε α} {y : Exec γ τ ε α}
    (h : ∀ s, ∃ a s', x s = .ok a s' ∧ y (f s) = .ok a (f s')) : SeenThrough f x y := by
  intro s
  obtain ⟨a, s', hx, hy⟩ := h s
  rw [hx, hy, Outcome.through]

end SeenThrough

/-! ## Loops that skip -/

/-- Runs `op` for the items that are accepted, one after another, and collects what it returns. -/
def collect (accepts : ι → σ → Bool) (op : ι → Exec σ τ ε β) : List ι → Exec σ τ ε (List β)
  | [] => pure []
  | i :: is => do
    let accepted ← gets (accepts i)
    if accepted = true then do
      let b ← op i
      let bs ← collect accepts op is
      pure (b :: bs)
    else collect accepts op is

section

variable {accepts accepts' : ι → σ → Bool} {op op' : ι → Exec σ τ ε β} {f : σ → γ} {s s' t : σ}
  {i : ι} {is js : List ι} {b : β} {bs : List β}

theorem collect_skip (h : accepts i s = false) :
    collect accepts op (i :: is) s = collect accepts op is s := by
  show (if accepts i s = true then _ else _ : Exec σ τ ε (List β)) s = _
  rw [if_neg (by rw [h]; exact Bool.false_ne_true)]

theorem collect_take (h : accepts i s = true) :
    collect accepts op (i :: is) s =
      (op i >>= fun b => collect accepts op is >>= fun bs => pure (b :: bs)) s := by
  show (if accepts i s = true then _ else _ : Exec σ τ ε (List β)) s = _
  rw [if_pos h]

/-- A loop that succeeds at an accepted item has run it, and goes on from there. -/
theorem collect_take_ok (h : accepts i s = true) :
    collect accepts op (i :: is) s = .ok bs s' ↔
      ∃ b s₁ cs, op i s = .ok b s₁ ∧ collect accepts op is s₁ = .ok cs s' ∧ bs = b :: cs := by
  rw [collect_take h]
  simp only [bind_ok, pure_ok]
  constructor
  · rintro ⟨b, s₁, hop, cs, s₂, hrest, rfl, rfl⟩
    exact ⟨b, s₁, cs, hop, hrest, rfl⟩
  · rintro ⟨b, s₁, cs, hop, hrest, rfl⟩
    exact ⟨b, s₁, hop, cs, s', hrest, rfl, rfl⟩

theorem collect_length (h : collect accepts op is s = .ok bs s') : bs.length ≤ is.length := by
  induction is generalizing s bs with
  | nil =>
    obtain ⟨rfl, -⟩ := pure_ok.mp h
    exact le_rfl
  | cons i is ih =>
    by_cases haccepts : accepts i s = true
    · obtain ⟨b, s₁, cs, -, hrest, rfl⟩ := (collect_take_ok haccepts).mp h
      exact Nat.succ_le_succ (ih hrest)
    · rw [collect_skip (Bool.not_eq_true _ ▸ haccepts)] at h
      exact Nat.le_succ_of_le (ih h)

/-- A loop over two lists is a loop over the first and, from where that ends, over the second. -/
theorem collect_append_ok :
    collect accepts op (is ++ js) s = .ok bs s' ↔
      ∃ cs s₁ ds, collect accepts op is s = .ok cs s₁ ∧ collect accepts op js s₁ = .ok ds s' ∧
        bs = cs ++ ds := by
  induction is generalizing s bs with
  | nil =>
    constructor
    · intro h
      exact ⟨[], s, bs, rfl, h, rfl⟩
    · rintro ⟨cs, s₁, ds, hnil, hrest, rfl⟩
      obtain ⟨rfl, rfl⟩ := pure_ok.mp hnil
      exact hrest
  | cons i is ih =>
    by_cases haccepts : accepts i s = true
    · rw [List.cons_append, collect_take_ok haccepts]
      simp only [collect_take_ok haccepts, ih]
      constructor
      · rintro ⟨b, s₁, _, hop, ⟨cs, s₂, ds, hfst, hsnd, rfl⟩, rfl⟩
        exact ⟨b :: cs, s₂, ds, ⟨b, s₁, cs, hop, hfst, rfl⟩, hsnd, rfl⟩
      · rintro ⟨_, s₂, ds, ⟨b, s₁, cs, hop, hfst, rfl⟩, hsnd, rfl⟩
        exact ⟨b, s₁, cs ++ ds, hop, ⟨cs, s₂, ds, hfst, hsnd, rfl⟩, rfl⟩
    · have hskip : accepts i s = false := Bool.not_eq_true _ ▸ haccepts
      rw [List.cons_append, collect_skip hskip, collect_skip hskip]
      exact ih

/-- A loop that succeeds has run every item that was accepted when the loop came to it. -/
theorem collect_succeeds_at (h : (collect accepts op (is ++ i :: js)).Succeeds s)
    (hreach : collect accepts op is s = .ok bs t) (haccepts : accepts i t = true) :
    (op i).Succeeds t := by
  obtain ⟨_, s', hok⟩ := h
  obtain ⟨cs, s₁, ds, hfst, hsnd, -⟩ := collect_append_ok.mp hok
  rw [hreach] at hfst
  cases hfst
  obtain ⟨b, s₂, -, hop, -⟩ := (collect_take_ok haccepts).mp hsnd
  exact ⟨b, s₂, hop⟩

/-- What the items keep, the loop keeps. -/
theorem collect_keeps {I : σ → Prop}
    (hop : ∀ i ∈ is, ∀ s b s', I s → accepts i s = true → op i s = .ok b s' → I s') (hs : I s)
    (h : collect accepts op is s = .ok bs s') : I s' := by
  induction is generalizing s bs with
  | nil =>
    obtain ⟨-, rfl⟩ := pure_ok.mp h
    exact hs
  | cons i is ih =>
    have hrest : ∀ j ∈ is, ∀ s b s', I s → accepts j s = true → op j s = .ok b s' → I s' :=
      fun j hj => hop j (List.mem_cons_of_mem i hj)
    by_cases haccepts : accepts i s = true
    · obtain ⟨b, s₁, cs, hitem, hloop, -⟩ := (collect_take_ok haccepts).mp h
      exact ih hrest (hop i List.mem_cons_self s b s₁ hs haccepts hitem) hloop
    · rw [collect_skip (Bool.not_eq_true _ ▸ haccepts)] at h
      exact ih hrest hs h

/-- Loops whose items run in lockstep, from the states that `I` allows, run in lockstep. -/
theorem collect_alike {I : σ → Prop}
    (haccepts : ∀ i ∈ is, ∀ s t, I s → f s = f t → accepts i s = accepts' i t)
    (hop : ∀ i ∈ is, ∀ s t, I s → f s = f t → accepts i s = true → (op i s).Alike f (op' i t))
    (hkeeps : ∀ i ∈ is, ∀ s b s', I s → accepts i s = true → op i s = .ok b s' → I s')
    (hs : I s) (hst : f s = f t) :
    (collect accepts op is s).Alike f (collect accepts' op' is t) := by
  induction is generalizing s t with
  | nil => exact .ok hst
  | cons i is ih =>
    have hrest : ∀ {s t : σ}, I s → f s = f t →
        (collect accepts op is s).Alike f (collect accepts' op' is t) := by
      intro s t
      refine ih ?_ ?_ ?_
      · exact fun j hj => haccepts j (List.mem_cons_of_mem i hj)
      · exact fun j hj => hop j (List.mem_cons_of_mem i hj)
      · exact fun j hj => hkeeps j (List.mem_cons_of_mem i hj)
    have hsame := haccepts i List.mem_cons_self s t hs hst
    by_cases haccept : accepts i s = true
    · rw [collect_take haccept, collect_take (hsame ▸ haccept)]
      refine alike_bind (hop i List.mem_cons_self s t hs hst haccept) ?_
      intro b s' t' hb _ hst'
      refine alike_bind (hrest (hkeeps i List.mem_cons_self s b s' hs haccept hb) hst') ?_
      intro bs s'' t'' _ _ hst''
      exact .ok hst''
    · have hskip : accepts i s = false := Bool.not_eq_true _ ▸ haccept
      rw [collect_skip hskip, collect_skip (hsame ▸ hskip)]
      exact hrest hs hst

end

end Trellis
