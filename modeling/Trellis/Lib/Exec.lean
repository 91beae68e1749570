import Mathlib

/-!
# Fallible computations over a state

`Exec σ τ ε α` is a computation over a state `σ` that ends with a value in `α`, or fails. A
failure is either an error value in `ε`, which the caller of the computation sees, or a trap in
`τ`, which aborts it. The state reached so far is kept on both, so that the caller decides what
is rolled back: `commit` keeps the new state of a success and undoes a failure, `attempt` does the
same and hands the failure to the rest of the computation.

Results:
* `bind_ok` and the other `_ok` lemmas invert a successful run step by step; as a simp set they
  turn `x s = .ok a s'` into the conditions under which `x` succeeds and the state it reaches.
* `bind_fail` and the other `_fail` lemmas invert a failing run in the same way.
* `commit_induct`, `value_commit_induct`: what holds after a committed computation, and of its
  value.
* `Keeps.commit`: what every success of a computation keeps is kept when it is committed.
* `Keeps.bind`, `Steady.bind` and their like: what a sequence keeps, and that it returns no error,
  follow from its parts.
* `bind_of_ok`, `bind_congr_of_ok`, `bind_congr_head`: a sequence through its parts.
-/

namespace Trellis

/-- How a computation fails: an error value it returns, or a trap. -/
inductive Fault (τ ε : Type) where
  | err (e : ε)
  | trap (t : τ)
  deriving DecidableEq, Repr

/-- The end of a computation: a value or a failure, and the state at that point. -/
inductive Outcome (σ τ ε α : Type) where
  | ok (a : α) (s : σ)
  | fail (f : Fault τ ε) (s : σ)
  deriving DecidableEq, Repr

/-- Computations over the state `σ` with traps in `τ`, errors in `ε` and values in `α`. -/
def Exec (σ τ ε α : Type) : Type := σ → Outcome σ τ ε α

/-- A sequence of two fallible values succeeds exactly when both do. -/
theorem except_bind_ok {ε α β : Type} {x : Except ε α} {f : α → Except ε β} {b : β} :
    (x >>= f) = .ok b ↔ ∃ a, x = .ok a ∧ f a = .ok b := by
  constructor
  · intro h
    cases x with
    | ok a => exact ⟨a, rfl, h⟩
    | error e => cases h
  · rintro ⟨a, rfl, h⟩
    exact h

namespace Exec

variable {σ τ ε ε' α β γ : Type}

instance : Monad (Exec σ τ ε) where
  pure a := fun s => .ok a s
  bind x f := fun s => match x s with
    | .ok a s' => f a s'
    | .fail e s' => .fail e s'

/-! ## Primitive steps -/

/-- Ends with the error `e`. -/
def throwErr (e : ε) : Exec σ τ ε α := fun s => .fail (.err e) s

/-- Ends with the trap `t`. -/
def abort (t : τ) : Exec σ τ ε α := fun s => .fail (.trap t) s

/-- `if c then return Err(e)`. -/
def failIf (c : Prop) [Decidable c] (e : ε) : Exec σ τ ε Unit :=
  fun s => if c then .fail (.err e) s else .ok () s

/-- Traps with `t` when `c` holds. -/
def trapIf (c : Prop) [Decidable c] (t : τ) : Exec σ τ ε Unit :=
  fun s => if c then .fail (.trap t) s else .ok () s

/-- The value of an observation of the state. -/
def gets (f : σ → α) : Exec σ τ ε α := fun s => .ok (f s) s

/-- Changes the state by `f`. -/
def update (f : σ → σ) : Exec σ τ ε Unit := fun s => .ok () (f s)

/-- `o.ok_or(e)?`. -/
def okOr (o : Option α) (e : ε) : Exec σ τ ε α := fun s => match o with
  | some a => .ok a s
  | none => .fail (.err e) s

/-- `o.expect(..)`: the value of `o`, or the trap `t`. -/
def expect (o : Option α) (t : τ) : Exec σ τ ε α := fun s => match o with
  | some a => .ok a s
  | none => .fail (.trap t) s

/-- `r?` for a result computed without touching the state. -/
def ofExcept (r : Except ε α) : Exec σ τ ε α := fun s => match r with
  | .ok a => .ok a s
  | .error e => .fail (.err e) s

/-- `if c { x }`. -/
def onlyIf (c : Prop) [Decidable c] (x : Exec σ τ ε Unit) : Exec σ τ ε Unit :=
  fun s => if c then x s else .ok () s

/-- `x.map_err(g)`. -/
def mapErr (g : ε → ε') (x : Exec σ τ ε α) : Exec σ τ ε' α := fun s => match x s with
  | .ok a s' => .ok a s'
  | .fail (.err e) s' => .fail (.err (g e)) s'
  | .fail (.trap t) s' => .fail (.trap t) s'

/-- `x.unwrap()`: an error of `x` becomes the trap `t`. -/
def unwrap (t : τ) (x : Exec σ τ ε α) : Exec σ τ ε' α := fun s => match x s with
  | .ok a s' => .ok a s'
  | .fail (.err _) s' => .fail (.trap t) s'
  | .fail (.trap t') s' => .fail (.trap t') s'

/-- Runs `x` and hands its failure to the rest of the computation, undoing what `x` did. -/
def attempt (x : Exec σ τ ε α) : Exec σ τ ε' (Except (Fault τ ε) α) := fun s => match x s with
  | .ok a s' => .ok (.ok a) s'
  | .fail f _ => .ok (.error f) s

/-- The state after running `x`: the one it reaches on success, the old one on a failure. -/
def commit (x : Exec σ τ ε α) (s : σ) : σ := match x s with
  | .ok _ s' => s'
  | .fail _ _ => s

/-- `x` succeeds from the state `s`. -/
def Succeeds (x : Exec σ τ ε α) (s : σ) : Prop := ∃ a s', x s = .ok a s'

/-- What `x` returns from the state `s`, if it succeeds. -/
def value (x : Exec σ τ ε α) (s : σ) : Option α := match x s with
  | .ok a _ => some a
  | .fail _ _ => none

/-! ## Inverting a success -/

@[simp] theorem bind_ok {x : Exec σ τ ε α} {f : α → Exec σ τ ε β} {s s' : σ} {b : β} :
    (x >>= f) s = .ok b s' ↔ ∃ a s₁, x s = .ok a s₁ ∧ f a s₁ = .ok b s' := by
  show (match x s with
    | .ok a s' => f a s'
    | .fail e s' => .fail e s') = _ ↔ _
  cases h : x s <;> simp

@[simp] theorem pure_ok {a b : α} {s s' : σ} :
    (pure a : Exec σ τ ε α) s = .ok b s' ↔ b = a ∧ s' = s := by
  show Outcome.ok a s = _ ↔ _
  simp [eq_comm]

@[simp] theorem throwErr_ok {e : ε} {s s' : σ} {a : α} :
    ¬ (throwErr e : Exec σ τ ε α) s = .ok a s' := by
  simp [throwErr]

@[simp] theorem abort_ok {t : τ} {s s' : σ} {a : α} :
    ¬ (abort t : Exec σ τ ε α) s = .ok a s' := by
  simp [abort]

@[simp] theorem failIf_ok {c : Prop} [Decidable c] {e : ε} {s s' : σ} {u : Unit} :
    (failIf c e : Exec σ τ ε Unit) s = .ok u s' ↔ ¬ c ∧ s' = s := by
  unfold failIf
  split <;> simp_all [eq_comm]

@[simp] theorem trapIf_ok {c : Prop} [Decidable c] {t : τ} {s s' : σ} {u : Unit} :
    (trapIf c t : Exec σ τ ε Unit) s = .ok u s' ↔ ¬ c ∧ s' = s := by
  unfold trapIf
  split <;> simp_all [eq_comm]

@[simp] theorem gets_ok {f : σ → α} {s s' : σ} {a : α} :
    (gets f : Exec σ τ ε α) s = .ok a s' ↔ a = f s ∧ s' = s := by
  simp [gets, eq_comm]

@[simp] theorem update_ok {f : σ → σ} {s s' : σ} {u : Unit} :
    (update f : Exec σ τ ε Unit) s = .ok u s' ↔ s' = f s := by
  simp [update, eq_comm]

@[simp] theorem okOr_ok {o : Option α} {e : ε} {s s' : σ} {a : α} :
    (okOr o e : Exec σ τ ε α) s = .ok a s' ↔ o = some a ∧ s' = s := by
  cases o <;> simp [okOr, eq_comm]

@[simp] theorem expect_ok {o : Option α} {t : τ} {s s' : σ} {a : α} :
    (expect o t : Exec σ τ ε α) s = .ok a s' ↔ o = some a ∧ s' = s := by
  cases o <;> simp [expect, eq_comm]

@[simp] theorem ofExcept_ok {r : Except ε α} {s s' : σ} {a : α} :
    (ofExcept r : Exec σ τ ε α) s = .ok a s' ↔ r = .ok a ∧ s' = s := by
  cases r <;> simp [ofExcept, eq_comm]

@[simp] theorem onlyIf_ok {c : Prop} [Decidable c] {x : Exec σ τ ε Unit} {s s' : σ} {u : Unit} :
    onlyIf c x s = .ok u s' ↔ c ∧ x s = .ok u s' ∨ ¬ c ∧ s' = s := by
  unfold onlyIf
  split <;> simp_all [eq_comm]

theorem onlyIf_ok_of_fails {c : Prop} [Decidable c] {x : Exec σ τ ε Unit}
    (hx : ∀ s u s', x s ≠ .ok u s') {s s' : σ} {u : Unit} (h : onlyIf c x s = .ok u s') :
    ¬ c ∧ s' = s := by
  rcases onlyIf_ok.mp h with ⟨-, h⟩ | h
  · exact absurd h (hx s u s')
  · exact h

@[simp] theorem mapErr_ok {g : ε → ε'} {x : Exec σ τ ε α} {s s' : σ} {a : α} :
    mapErr g x s = .ok a s' ↔ x s = .ok a s' := by
  unfold mapErr
  split <;> simp_all

@[simp] theorem unwrap_ok {t : τ} {x : Exec σ τ ε α} {s s' : σ} {a : α} :
    (unwrap t x : Exec σ τ ε' α) s = .ok a s' ↔ x s = .ok a s' := by
  unfold unwrap
  split <;> simp_all

@[simp] theorem ite_ok {c : Prop} [Decidable c] {x y : Exec σ τ ε α} {s s' : σ} {a : α} :
    (if c then x else y) s = .ok a s' ↔ c ∧ x s = .ok a s' ∨ ¬ c ∧ y s = .ok a s' := by
  split <;> simp_all

/-! ## Inverting a failure -/

@[simp] theorem bind_fail {x : Exec σ τ ε α} {f : α → Exec σ τ ε β} {s s' : σ} {e : Fault τ ε} :
    (x >>= f) s = .fail e s' ↔
      x s = .fail e s' ∨ ∃ a s₁, x s = .ok a s₁ ∧ f a s₁ = .fail e s' := by
  show (match x s with
    | .ok a s' => f a s'
    | .fail e s' => .fail e s') = _ ↔ _
  cases h : x s <;> simp

@[simp] theorem pure_fail {a : α} {s s' : σ} {e : Fault τ ε} :
    ¬ (pure a : Exec σ τ ε α) s = .fail e s' := by
  show ¬ Outcome.ok a s = _
  simp

@[simp] theorem throwErr_fail {e : ε} {e' : Fault τ ε} {s s' : σ} :
    (throwErr e : Exec σ τ ε α) s = .fail e' s' ↔ e' = .err e ∧ s' = s := by
  simp [throwErr, eq_comm]

@[simp] theorem failIf_fail {c : Prop} [Decidable c] {e : ε} {e' : Fault τ ε} {s s' : σ} :
    (failIf c e : Exec σ τ ε Unit) s = .fail e' s' ↔ c ∧ e' = .err e ∧ s' = s := by
  unfold failIf
  split <;> simp_all [eq_comm]

theorem failIf_bind {c : Prop} [Decidable c] {e : ε} {y : Unit → Exec σ τ ε α} {s : σ} :
    (failIf c e >>= y) s = if c then .fail (.err e) s else y () s := by
  by_cases hc : c <;> simp [bind, failIf, hc]

@[simp] theorem trapIf_fail {c : Prop} [Decidable c] {t : τ} {e' : Fault τ ε} {s s' : σ} :
    (trapIf c t : Exec σ τ ε Unit) s = .fail e' s' ↔ c ∧ e' = .trap t ∧ s' = s := by
  unfold trapIf
  split <;> simp_all [eq_comm]

@[simp] theorem gets_fail {f : σ → α} {e : Fault τ ε} {s s' : σ} :
    ¬ (gets f : Exec σ τ ε α) s = .fail e s' := by
  simp [gets]

@[simp] theorem update_fail {f : σ → σ} {e : Fault τ ε} {s s' : σ} :
    ¬ (update f : Exec σ τ ε Unit) s = .fail e s' := by
  simp [update]

@[simp] theorem okOr_fail {o : Option α} {e : ε} {e' : Fault τ ε} {s s' : σ} :
    (okOr o e : Exec σ τ ε α) s = .fail e' s' ↔ o = none ∧ e' = .err e ∧ s' = s := by
  cases o <;> simp [okOr, eq_comm]

@[simp] theorem expect_fail {o : Option α} {t : τ} {e' : Fault τ ε} {s s' : σ} :
    (expect o t : Exec σ τ ε α) s = .fail e' s' ↔ o = none ∧ e' = .trap t ∧ s' = s := by
  cases o <;> simp [expect, eq_comm]

@[simp] theorem ofExcept_fail {r : Except ε α} {e' : Fault τ ε} {s s' : σ} :
    (ofExcept r : Exec σ τ ε α) s = .fail e' s' ↔ ∃ e, r = .error e ∧ e' = .err e ∧ s' = s := by
  cases r <;> simp [ofExcept, eq_comm]

@[simp] theorem onlyIf_fail {c : Prop} [Decidable c] {x : Exec σ τ ε Unit} {s s' : σ}
    {e : Fault τ ε} : onlyIf c x s = .fail e s' ↔ c ∧ x s = .fail e s' := by
  unfold onlyIf
  split <;> simp_all

@[simp] theorem ite_fail {c : Prop} [Decidable c] {x y : Exec σ τ ε α} {s s' : σ}
    {e : Fault τ ε} :
    (if c then x else y) s = .fail e s' ↔ c ∧ x s = .fail e s' ∨ ¬ c ∧ y s = .fail e s' := by
  split <;> simp_all

/-! ## Committing -/

theorem commit_of_ok {x : Exec σ τ ε α} {s s' : σ} {a : α} (h : x s = .ok a s') :
    x.commit s = s' := by
  simp [commit, h]

/-- A computation is committed with the state of its success, or leaves the state alone. -/
theorem commit_cases (x : Exec σ τ ε α) (s : σ) :
    (∃ a, x s = .ok a (x.commit s)) ∨ (¬ x.Succeeds s ∧ x.commit s = s) := by
  cases h : x s with
  | ok a s' => exact .inl ⟨a, by rw [commit_of_ok h]⟩
  | fail f s' => exact .inr ⟨by simp [Succeeds, h], by simp [commit, h]⟩

/-- What holds of the old state, and of every state a success can reach, holds after `commit`. -/
theorem commit_induct {P : σ → Prop} {x : Exec σ τ ε α} {s : σ} (h₀ : P s)
    (h : ∀ a s', x s = .ok a s' → P s') : P (x.commit s) := by
  rcases commit_cases x s with ⟨a, ha⟩ | ⟨-, hs⟩
  · exact h a _ ha
  · rwa [hs]

theorem commit_imp {R : σ → Prop} {x : Exec σ τ ε α} {s : σ}
    (h : ∀ a s', x s = .ok a s' → R s') : x.commit s = s ∨ R (x.commit s) := by
  rcases commit_cases x s with ⟨a, ha⟩ | ⟨-, hs⟩
  · exact .inr (h a _ ha)
  · exact .inl hs

theorem commit_returns {R : σ → Prop} {x : Exec σ τ ε α} {s : σ}
    (h : ∀ a s', x s = .ok a s' → R s') :
    (¬ x.Succeeds s ∧ x.commit s = s) ∨ (x.Succeeds s ∧ R (x.commit s)) := by
  rcases commit_cases x s with ⟨a, ha⟩ | hfails
  · exact .inr ⟨⟨a, _, ha⟩, h a _ ha⟩
  · exact .inl hfails

theorem commit_of_succeeds {R : σ → Prop} {x : Exec σ τ ε α} {s : σ}
    (h : ∀ a s', x s = .ok a s' → R s') (hs : x.Succeeds s) : R (x.commit s) := by
  obtain ⟨a, s', hok⟩ := hs
  rw [commit_of_ok hok]
  exact h a s' hok

theorem value_eq_some {x : Exec σ τ ε α} {s : σ} {a : α} :
    x.value s = some a ↔ x s = .ok a (x.commit s) := by
  unfold value commit
  cases h : x s <;> simp

theorem value_of_ok {x : Exec σ τ ε α} {s s' : σ} {a : α} (h : x s = .ok a s') :
    x.value s = some a := by
  rw [value_eq_some, commit_of_ok h, h]

theorem value_eq_none {x : Exec σ τ ε α} {s : σ} : x.value s = none ↔ ¬ x.Succeeds s := by
  unfold value Succeeds
  cases h : x s <;> simp

/-- What holds of no value and the old state, and of what every success returns and reaches, holds
    of the value and the state after `commit`. -/
theorem value_commit_induct {G : Option α → σ → Prop} {x : Exec σ τ ε α} {s : σ} (h₀ : G none s)
    (h : ∀ a s', x s = .ok a s' → G (some a) s') : G (x.value s) (x.commit s) := by
  rcases commit_cases x s with ⟨a, ha⟩ | ⟨hfails, hsame⟩
  · rw [value_of_ok ha]
    exact h a _ ha
  · rw [value_eq_none.mpr hfails, hsame]
    exact h₀

theorem commit_of_fails {x : Exec σ τ ε α} {s : σ} (h : ¬ x.Succeeds s) : x.commit s = s := by
  rcases commit_cases x s with ⟨a, ha⟩ | ⟨-, hs⟩
  · exact absurd ⟨a, _, ha⟩ h
  · exact hs

/-! ## Observations a computation keeps -/

/-- Every success of `x` keeps the observation `f` of the state. -/
def Keeps (f : σ → γ) (x : Exec σ τ ε α) : Prop := ∀ s a s', x s = .ok a s' → f s' = f s

theorem Keeps.commit {f : σ → γ} {x : Exec σ τ ε α} (h : Keeps f x) (s : σ) :
    f (x.commit s) = f s :=
  commit_induct (P := fun s' => f s' = f s) rfl fun a s' => h s a s'

theorem Keeps.pure {f : σ → γ} (a : α) : Keeps f (pure a : Exec σ τ ε α) := by
  intro s b s' h
  rw [(pure_ok.mp h).2]

theorem Keeps.bind {f : σ → γ} {x : Exec σ τ ε α} {y : α → Exec σ τ ε β} (hx : Keeps f x)
    (hy : ∀ a, Keeps f (y a)) : Keeps f (x >>= y) := by
  intro s b s' h
  obtain ⟨a, s₁, h₁, h₂⟩ := bind_ok.mp h
  exact (hy a s₁ b s' h₂).trans (hx s a s₁ h₁)

/-- `x` traps, or ends with a value and keeps the observation `f`: it returns no error. -/
def Steady (f : σ → γ) (x : Exec σ τ ε α) : Prop :=
  ∀ s, (∃ a s', x s = .ok a s' ∧ f s' = f s) ∨ ∃ t s', x s = .fail (.trap t) s'

theorem Steady.keeps {f : σ → γ} {x : Exec σ τ ε α} (hx : Steady f x) : Keeps f x := by
  intro s a s' h
  rcases hx s with ⟨b, s₁, hb, hf⟩ | ⟨t, s₁, ht⟩
  · rw [hb] at h
    cases h
    exact hf
  · rw [ht] at h
    cases h

theorem Steady.ne_err {f : σ → γ} {x : Exec σ τ ε α} (hx : Steady f x) (s : σ) (e : ε) (s' : σ) :
    x s ≠ .fail (.err e) s' := by
  rcases hx s with ⟨a, s₁, ha, -⟩ | ⟨t, s₁, ht⟩
  · simp [ha]
  · simp [ht]

theorem Steady.pure {f : σ → γ} (a : α) : Steady f (pure a : Exec σ τ ε α) :=
  fun s => .inl ⟨a, s, rfl, rfl⟩

theorem Steady.bind {f : σ → γ} {x : Exec σ τ ε α} {y : α → Exec σ τ ε β} (hx : Steady f x)
    (hy : ∀ a, Steady f (y a)) : Steady f (x >>= y) := by
  intro s
  rcases hx s with ⟨a, s₁, ha, hf⟩ | ⟨t, s₁, ht⟩
  · rcases hy a s₁ with ⟨b, s₂, hb, hf'⟩ | ⟨t, s₂, ht⟩
    · exact .inl ⟨b, s₂, bind_ok.mpr ⟨a, s₁, ha, hb⟩, hf'.trans hf⟩
    · exact .inr ⟨t, s₂, bind_fail.mpr (.inr ⟨a, s₁, ha, ht⟩)⟩
  · exact .inr ⟨t, s₁, bind_fail.mpr (.inl ht)⟩

theorem Steady.trapIf {f : σ → γ} {c : Prop} [Decidable c] {t : τ} :
    Steady f (trapIf c t : Exec σ τ ε Unit) := by
  intro s
  by_cases hc : c
  · exact .inr ⟨t, s, trapIf_fail.mpr ⟨hc, rfl, rfl⟩⟩
  · exact .inl ⟨(), s, trapIf_ok.mpr ⟨hc, rfl⟩, rfl⟩

theorem Steady.unwrap {f : σ → γ} {t : τ} {x : Exec σ τ ε α} (hx : Keeps f x) :
    Steady f (unwrap t x : Exec σ τ ε' α) := by
  intro s
  unfold Exec.unwrap
  split
  case h_1 a s' ha => exact .inl ⟨a, s', rfl, hx s a s' ha⟩
  case h_2 e s' he => exact .inr ⟨t, s', rfl⟩
  case h_3 t' s' ht => exact .inr ⟨t', s', rfl⟩

theorem Steady.attempt {f : σ → γ} {x : Exec σ τ ε α} (hx : Keeps f x) :
    Steady f (attempt x : Exec σ τ ε' (Except (Fault τ ε) α)) := by
  intro s
  unfold Exec.attempt
  split
  case h_1 a s' ha => exact .inl ⟨.ok a, s', rfl, hx s a s' ha⟩
  case h_2 e s' he => exact .inl ⟨.error e, s, rfl, rfl⟩

/-! ## Running one step after another -/

theorem bind_of_ok {x : Exec σ τ ε α} {g : α → Exec σ τ ε β} {s s' : σ} {a : α}
    (h : x s = .ok a s') : (x >>= g) s = g a s' := by
  cases hg : g a s' with
  | ok b s₁ => exact bind_ok.mpr ⟨a, s', h, hg⟩
  | fail e s₁ => exact bind_fail.mpr (.inr ⟨a, s', h, hg⟩)

theorem bind_of_fail {x : Exec σ τ ε α} {g : α → Exec σ τ ε β} {s s' : σ} {e : Fault τ ε}
    (h : x s = .fail e s') : (x >>= g) s = .fail e s' :=
  bind_fail.mpr (.inl h)

theorem bind_bind (x : Exec σ τ ε α) (g : α → Exec σ τ ε β) (h : β → Exec σ τ ε γ) :
    (x >>= g >>= h) = x >>= fun a => g a >>= h := by
  funext s
  cases hx : x s with
  | ok a s' =>
    have hxg : (x >>= g) s = g a s' := bind_of_ok hx
    cases hg : g a s' with
    | ok b s₁ => rw [bind_of_ok (hxg.trans hg), bind_of_ok hx, bind_of_ok hg]
    | fail e s₁ => rw [bind_of_fail (hxg.trans hg), bind_of_ok hx, bind_of_fail hg]
  | fail e s' => rw [bind_of_fail (bind_of_fail hx), bind_of_fail hx]

/-- What runs after `x` matters only where `x` ends. -/
theorem bind_congr_of_ok {x : Exec σ τ ε α} {g h : α → Exec σ τ ε β} {s : σ}
    (hsame : ∀ a s', x s = .ok a s' → g a s' = h a s') : (x >>= g) s = (x >>= h) s := by
  cases hx : x s with
  | ok a s' => rw [bind_of_ok hx, bind_of_ok hx, hsame a s' hx]
  | fail e s' => rw [bind_of_fail hx, bind_of_fail hx]

/-- What runs before `g` matters only through its end. -/
theorem bind_congr_head {x y : Exec σ τ ε α} {g : α → Exec σ τ ε β} {s : σ} (hsame : x s = y s) :
    (x >>= g) s = (y >>= g) s := by
  cases hx : x s with
  | ok a s' => rw [bind_of_ok hx, bind_of_ok (hsame ▸ hx)]
  | fail e s' => rw [bind_of_fail hx, bind_of_fail (hsame ▸ hx)]

theorem pure_bind_eq (a : α) (g : α → Exec σ τ ε β) : pure a >>= g = g a := rfl

theorem trapIf_of_not {c : Prop} [Decidable c] (hc : ¬ c) (t : τ) :
    (trapIf c t : Exec σ τ ε Unit) = pure () := by
  funext s
  show trapIf c t s = .ok () s
  rw [trapIf, if_neg hc]

/-- An error of either part of a sequence becomes the trap. -/
theorem unwrap_bind (t : τ) (x : Exec σ τ ε α) (y : α → Exec σ τ ε β) :
    (unwrap t (x >>= y) : Exec σ τ ε' β) = unwrap t x >>= fun a => unwrap t (y a) := by
  funext s
  show unwrap t (x >>= y) s = _
  simp only [bind, unwrap]
  cases x s with
  | ok a s' => rfl
  | fail f s' => cases f <;> rfl

theorem unwrap_trapIf (t t' : τ) (c : Prop) [Decidable c] :
    (unwrap t (trapIf c t' : Exec σ τ ε Unit) : Exec σ τ ε' Unit) = trapIf c t' := by
  funext s
  by_cases hc : c <;> simp [unwrap, trapIf, hc]

theorem unwrap_gets (t : τ) (f : σ → α) :
    (unwrap t (gets f : Exec σ τ ε α) : Exec σ τ ε' α) = gets f := rfl

theorem unwrap_update (t : τ) (f : σ → σ) :
    (unwrap t (update f : Exec σ τ ε Unit) : Exec σ τ ε' Unit) = update f := rfl

theorem unwrap_pure (t : τ) (a : α) :
    (unwrap t (pure a : Exec σ τ ε α) : Exec σ τ ε' α) = pure a := rfl

theorem attempt_bind_pure (x : Exec σ τ ε α) (g : α → β) :
    (attempt (x >>= fun a => pure (g a)) : Exec σ τ ε' _) =
      attempt x >>= fun r => pure (r.map g) := by
  funext s
  simp only [bind, attempt]
  cases x s <;> rfl

end Exec

end Trellis
