import Mathlib

/-!
# Runs of a deterministic system

A system is a function `step : ι → σ → σ`: what the input `i` makes of a state. A run is a list of
inputs, `run step s is` is the state it ends in, and `trace step s is` lists the inputs it took
together with the state each was taken in.

Results:
* `getElem?_trace`, `run_take_succ`: the `n`-th step of a run.
* `run_induct`: a property of the first state that every step keeps holds at the end of every run.
* `run_induct_of_trace`: the same when the steps keep it under a condition on the state and the
  input, and every step of the run meets the condition.
* `run_related`: a reflexive and transitive relation that holds across every step holds across
  every run.
* `run_iff_history`: a fact that is only ever established, by steps of a known kind, holds at the
  end of a run exactly when it held at its start or one of the steps was of that kind.
* `run_iff_set_since`: a fact that steps of one kind set and steps of another clear holds at the end
  of a run exactly when it was set, at the start or by a step, and not cleared since.
* `exists_last_step`: the last step of some kind.
* `exists_unique_step`: a fact that no step undoes is established by exactly one step of a run at
  whose end it holds and at whose start it does not.
* `trace_forall_iff`: when a step keeps a property exactly under a condition, every state of a run
  has the property exactly when every step meets the condition.
* `trace_forall_and_iff`: the same together with what the steps do.
* `run_eq_append`: a list to which every step appends what it puts out has grown by all that was put
  out.
* `yields_counter`: steps that each yield the next number of a counter yield all the numbers after
  the first.
* `flatMap_counter`: the same when a step can yield several numbers.
* `yields_increasing`: steps that each yield a number above a bound, and raise the bound to it,
  yield an increasing list.
* `yields_induct`: a relation between what has been yielded and the state, kept by every step, holds
  at the end of every run.
* `run_eq_last`: an observation that steps replace is what was put in its place last.
* `run_eq_add_sum_of_trace`, `run_eq_add_sum`: an observation to which every step adds what it
  yields has grown by the sum.
* `taken_run_iff`, `yields_nodup`: when each step takes what it yields, and yields what is not
  taken, a run takes what it yields, and yields nothing twice.
* `Each.induct`, `Each.keeps`: what every item of a list keeps, a pass over the list keeps.
-/

namespace Trellis

variable {σ ι : Type}

/-- The state after taking the inputs in order. -/
def run (step : ι → σ → σ) : σ → List ι → σ
  | s, [] => s
  | s, i :: is => run step (step i s) is

/-- The steps of a run: each input with the state it is taken in. -/
def trace (step : ι → σ → σ) : σ → List ι → List (σ × ι)
  | _, [] => []
  | s, i :: is => (s, i) :: trace step (step i s) is

section

variable {step : ι → σ → σ}

@[simp] theorem run_nil (s : σ) : run step s [] = s := rfl

@[simp] theorem run_cons (s : σ) (i : ι) (is : List ι) :
    run step s (i :: is) = run step (step i s) is := rfl

@[simp] theorem trace_nil (s : σ) : trace step s [] = [] := rfl

@[simp] theorem trace_cons (s : σ) (i : ι) (is : List ι) :
    trace step s (i :: is) = (s, i) :: trace step (step i s) is := rfl

theorem run_append (s : σ) (is js : List ι) :
    run step s (is ++ js) = run step (run step s is) js := by
  induction is generalizing s with
  | nil => rfl
  | cons i is ih => exact ih (step i s)

theorem trace_append (s : σ) (is js : List ι) :
    trace step s (is ++ js) = trace step s is ++ trace step (run step s is) js := by
  induction is generalizing s with
  | nil => rfl
  | cons i is ih => simp [ih]

theorem mem_of_mem_trace {s : σ} {is : List ι} {x : σ × ι} (h : x ∈ trace step s is) :
    x.2 ∈ is := by
  induction is generalizing s with
  | nil => simp at h
  | cons i is ih =>
    rcases List.mem_cons.mp h with rfl | h
    · exact List.mem_cons_self
    · exact List.mem_cons_of_mem _ (ih h)

/-- The trace holds a step of the run with the state that the steps before it reach. -/
theorem mem_trace_iff {s : σ} {is : List ι} {x : σ × ι} :
    x ∈ trace step s is ↔ ∃ pre post, is = pre ++ x.2 :: post ∧ x.1 = run step s pre := by
  constructor
  · intro h
    induction is generalizing s with
    | nil => simp at h
    | cons i is ih =>
      rcases List.mem_cons.mp h with rfl | h
      · exact ⟨[], is, rfl, rfl⟩
      · obtain ⟨pre, post, rfl, hx⟩ := ih h
        exact ⟨i :: pre, post, rfl, hx⟩
  · rintro ⟨pre, post, rfl, hx⟩
    rw [trace_append, List.mem_append, trace_cons, ← hx]
    exact .inr List.mem_cons_self

theorem length_trace (s : σ) (is : List ι) : (trace step s is).length = is.length := by
  induction is generalizing s with
  | nil => rfl
  | cons i is ih => rw [trace_cons, List.length_cons, List.length_cons, ih]

/-- The `n`-th step of a run is taken in the state that the steps before it reach. -/
theorem getElem?_trace {s : σ} {is : List ι} {n : ℕ} {i : ι} (h : is[n]? = some i) :
    (trace step s is)[n]? = some (run step s (is.take n), i) := by
  induction is generalizing s n with
  | nil => simp at h
  | cons j is ih =>
    cases n with
    | zero =>
      rw [List.getElem?_cons_zero] at h
      rw [trace_cons, List.getElem?_cons_zero, Option.some.inj h]
      rfl
    | succ n =>
      rw [List.getElem?_cons_succ] at h
      rw [trace_cons, List.getElem?_cons_succ, ih h]
      rfl

theorem run_take_succ {s : σ} {is : List ι} {n : ℕ} {i : ι} (h : is[n]? = some i) :
    run step s (is.take (n + 1)) = step i (run step s (is.take n)) := by
  rw [List.take_add_one, h, run_append]
  rfl

/-- A property that every step keeps, when the step meets the condition `Q`, holds at the end of
    every run whose steps all do. -/
theorem run_induct_of_trace {P : σ → Prop} {Q : σ → ι → Prop}
    (hstep : ∀ s i, P s → Q s i → P (step i s)) {s : σ} (hs : P s) {is : List ι}
    (hQ : ∀ x ∈ trace step s is, Q x.1 x.2) : P (run step s is) := by
  induction is generalizing s with
  | nil => exact hs
  | cons i is ih =>
    simp only [trace_cons, List.forall_mem_cons] at hQ
    exact ih (hstep s i hs hQ.1) hQ.2

/-- A property that every step keeps holds at the end of every run. -/
theorem run_induct {P : σ → Prop} (hstep : ∀ s i, P s → P (step i s)) {s : σ} (hs : P s)
    (is : List ι) : P (run step s is) :=
  run_induct_of_trace (Q := fun _ _ => True) (fun s i h _ => hstep s i h) hs fun _ _ => trivial

/-- A property that every step keeps, when the step meets the condition `Q`, holds in every state of
    a trace whose steps all do. -/
theorem trace_induct_of_trace {P : σ → Prop} {Q : σ → ι → Prop}
    (hstep : ∀ s i, P s → Q s i → P (step i s)) {s : σ} (hs : P s) {is : List ι}
    (hQ : ∀ x ∈ trace step s is, Q x.1 x.2) {x : σ × ι} (hx : x ∈ trace step s is) : P x.1 := by
  induction is generalizing s with
  | nil => simp at hx
  | cons i is ih =>
    simp only [trace_cons, List.forall_mem_cons] at hQ
    rcases List.mem_cons.mp hx with rfl | hx
    · exact hs
    · exact ih (hstep s i hs hQ.1) hQ.2 hx

theorem trace_induct {P : σ → Prop} (hstep : ∀ s i, P s → P (step i s)) {s : σ} (hs : P s)
    {is : List ι} {x : σ × ι} (hx : x ∈ trace step s is) : P x.1 :=
  trace_induct_of_trace (Q := fun _ _ => True) (fun s i h _ => hstep s i h) hs
    (fun _ _ => trivial) hx

/-- When the steps that meet `N` keep the invariant `P`, and do `A` and keep `G` exactly under the
    condition `Q`, every step of a run does `A` and keeps `G` exactly when every step meets `Q`. -/
theorem trace_forall_and_iff {P G : σ → Prop} {N A Q : σ → ι → Prop}
    (hP : ∀ s i, P s → N s i → P (step i s))
    (hG : ∀ s i, P s → N s i → G s → (A s i ∧ G (step i s) ↔ Q s i)) {s : σ} (hs : P s) (hg : G s)
    {is : List ι} (hN : ∀ x ∈ trace step s is, N x.1 x.2) :
    (∀ x ∈ trace step s is, A x.1 x.2 ∧ G (step x.2 x.1)) ↔
      ∀ x ∈ trace step s is, Q x.1 x.2 := by
  induction is generalizing s with
  | nil => simp
  | cons i is ih =>
    simp only [trace_cons, List.forall_mem_cons] at hN ⊢
    rw [hG s i hs hN.1 hg]
    refine and_congr_right fun hq => ?_
    exact ih (hP s i hs hN.1) ((hG s i hs hN.1 hg).mpr hq).2 hN.2

/-- When the steps that meet `N` keep the invariant `P`, and keep `G` exactly under the condition
    `Q`, `G` holds after every step of a run exactly when every step meets `Q`. -/
theorem trace_forall_iff {P G : σ → Prop} {N Q : σ → ι → Prop}
    (hP : ∀ s i, P s → N s i → P (step i s))
    (hG : ∀ s i, P s → N s i → G s → (G (step i s) ↔ Q s i)) {s : σ} (hs : P s) (hg : G s)
    {is : List ι} (hN : ∀ x ∈ trace step s is, N x.1 x.2) :
    (∀ x ∈ trace step s is, G (step x.2 x.1)) ↔ ∀ x ∈ trace step s is, Q x.1 x.2 := by
  have hand := trace_forall_and_iff (A := fun _ _ => True) hP
    (fun s i hp hn hg => (and_iff_right trivial).trans (hG s i hp hn hg)) hs hg hN
  rw [← hand]
  exact forall₂_congr fun _ _ => (and_iff_right trivial).symm

/-- A relation that is reflexive and transitive, and holds across every step that meets the
    condition `Q` where the invariant `P` holds, holds across every run whose steps all meet `Q`. -/
theorem run_related_of_trace {P : σ → Prop} {Q : σ → ι → Prop} {R : σ → σ → Prop}
    (hrefl : ∀ s, R s s) (htrans : ∀ s s' s'', R s s' → R s' s'' → R s s'')
    (hP : ∀ s i, P s → Q s i → P (step i s)) (hR : ∀ s i, P s → Q s i → R s (step i s)) {s : σ}
    (hs : P s) {is : List ι} (hQ : ∀ x ∈ trace step s is, Q x.1 x.2) : R s (run step s is) := by
  induction is generalizing s with
  | nil => exact hrefl s
  | cons i is ih =>
    simp only [trace_cons, List.forall_mem_cons] at hQ
    exact htrans _ _ _ (hR s i hs hQ.1) (ih (hP s i hs hQ.1) hQ.2)

/-- A relation that is reflexive and transitive, and holds across every step taken where the
    invariant `P` holds, holds across every run. -/
theorem run_related {P : σ → Prop} {R : σ → σ → Prop} (hrefl : ∀ s, R s s)
    (htrans : ∀ s s' s'', R s s' → R s' s'' → R s s'') (hP : ∀ s i, P s → P (step i s))
    (hR : ∀ s i, P s → R s (step i s)) {s : σ} (hs : P s) (is : List ι) : R s (run step s is) :=
  run_related_of_trace (Q := fun _ _ => True) hrefl htrans (fun s i h _ => hP s i h)
    (fun s i h _ => hR s i h) hs fun _ _ => trivial

/-- A list to which every step that meets `N` appends what it puts out has grown, at the end of a
    run of such steps, by all that was put out. -/
theorem run_eq_append {α : Type} {P : σ → Prop} {N : σ → ι → Prop} {out : σ → ι → List α}
    (f : σ → List α) (hP : ∀ s i, P s → N s i → P (step i s))
    (hstep : ∀ s i, P s → N s i → f (step i s) = f s ++ out s i) {s : σ} (hs : P s) {is : List ι}
    (hN : ∀ x ∈ trace step s is, N x.1 x.2) :
    f (run step s is) = f s ++ (trace step s is).flatMap fun x => out x.1 x.2 := by
  induction is generalizing s with
  | nil => rw [run_nil, trace_nil, List.flatMap_nil, List.append_nil]
  | cons i is ih =>
    simp only [trace_cons, List.forall_mem_cons] at hN
    rw [run_cons, ih (hP s i hs hN.1) hN.2, hstep s i hs hN.1, trace_cons, List.flatMap_cons,
      List.append_assoc]

/-- A fact that each step keeps, and establishes exactly when it is an `E`, holds at the end of a
    run exactly when it held at the start or the run took an `E`. -/
theorem run_iff_history {P : σ → Prop} {E : σ → ι → Prop}
    (hstep : ∀ s i, P (step i s) ↔ P s ∨ E s i) (s : σ) (is : List ι) :
    P (run step s is) ↔ P s ∨ ∃ x ∈ trace step s is, E x.1 x.2 := by
  induction is generalizing s with
  | nil => simp
  | cons i is ih =>
    rw [run_cons, ih, hstep, or_assoc]
    simp only [trace_cons, List.mem_cons, exists_eq_or_imp]

/-- A fact that a step sets when it is an `S`, and otherwise clears when it is a `C`, holds at the
    end of a run exactly when it held at the start and no step cleared it, or some step set it and
    no later one cleared it. -/
theorem run_iff_set_since {P F : σ → Prop} {N S C : σ → ι → Prop}
    (hP : ∀ s i, P s → N s i → P (step i s))
    (hF : ∀ s i, P s → N s i → (F (step i s) ↔ S s i ∨ F s ∧ ¬ C s i)) {s : σ} (hs : P s)
    {is : List ι} (hN : ∀ x ∈ trace step s is, N x.1 x.2) :
    F (run step s is) ↔ (F s ∧ ∀ x ∈ trace step s is, ¬ C x.1 x.2) ∨
      ∃ pre i post, is = pre ++ i :: post ∧ S (run step s pre) i ∧
        ∀ x ∈ trace step (step i (run step s pre)) post, ¬ C x.1 x.2 := by
  induction is generalizing s with
  | nil => simp
  | cons i is ih =>
    simp only [trace_cons, List.forall_mem_cons] at hN ⊢
    rw [run_cons, ih (hP s i hs hN.1) hN.2, hF s i hs hN.1]
    constructor
    · rintro (⟨hset | ⟨hheld, hnot⟩, hrest⟩ | ⟨pre, j, post, rfl, hset, hrest⟩)
      · exact .inr ⟨[], i, is, rfl, hset, hrest⟩
      · exact .inl ⟨hheld, hnot, hrest⟩
      · exact .inr ⟨i :: pre, j, post, rfl, hset, hrest⟩
    · rintro (⟨hheld, hnot, hrest⟩ | ⟨pre, j, post, hsplit, hset, hrest⟩)
      · exact .inl ⟨.inr ⟨hheld, hnot⟩, hrest⟩
      · cases pre with
        | nil =>
          obtain ⟨rfl, rfl⟩ := List.cons_eq_cons.mp hsplit
          exact .inl ⟨.inl hset, hrest⟩
        | cons j' pre =>
          obtain ⟨rfl, rfl⟩ := List.cons_eq_cons.mp hsplit
          exact .inr ⟨pre, j, post, rfl, hset, hrest⟩

/-- A run that takes a step of some kind takes a last one. -/
theorem exists_last_step {E : σ → ι → Prop} {s : σ} {is : List ι}
    (h : ∃ x ∈ trace step s is, E x.1 x.2) :
    ∃ pre i post, is = pre ++ i :: post ∧ E (run step s pre) i ∧
      ∀ x ∈ trace step (step i (run step s pre)) post, ¬ E x.1 x.2 := by
  induction is generalizing s with
  | nil => simp at h
  | cons i is ih =>
    by_cases hlater : ∃ x ∈ trace step (step i s) is, E x.1 x.2
    · obtain ⟨pre, j, post, rfl, hj, hpost⟩ := ih hlater
      exact ⟨i :: pre, j, post, rfl, hj, hpost⟩
    · have hnow : E s i := by
        simp only [trace_cons, List.mem_cons, exists_eq_or_imp] at h
        exact h.resolve_right hlater
      exact ⟨[], i, is, rfl, hnow, fun x hx hE => hlater ⟨x, hx, hE⟩⟩

/-- A fact that no step undoes is established by exactly one step of a run at whose end it holds and
    at whose start it does not. -/
theorem exists_unique_step {P F : σ → Prop} {N : σ → ι → Prop}
    (hP : ∀ s i, P s → N s i → P (step i s)) (hF : ∀ s i, P s → N s i → F s → F (step i s)) {s : σ}
    (hs : P s) {is : List ι} (hN : ∀ x ∈ trace step s is, N x.1 x.2) (hnot : ¬ F s)
    (hend : F (run step s is)) :
    ∃! pre, ∃ i post, is = pre ++ i :: post ∧ ¬ F (run step s pre) ∧
      F (step i (run step s pre)) := by
  induction is generalizing s with
  | nil => exact absurd hend hnot
  | cons i is ih =>
    simp only [trace_cons, List.forall_mem_cons] at hN
    by_cases hnow : F (step i s)
    · refine ⟨[], ⟨i, is, rfl, hnot, hnow⟩, ?_⟩
      intro pre hpre
      obtain ⟨j, post, hsplit, hbefore, -⟩ := hpre
      cases pre with
      | nil => rfl
      | cons j' pre =>
        -- from the first step on it holds, so no later step finds it missing
        obtain ⟨rfl, rfl⟩ := List.cons_eq_cons.mp hsplit
        have hkept : P (run step (step i s) pre) ∧ F (run step (step i s) pre) := by
          apply run_induct_of_trace (P := fun s => P s ∧ F s) (Q := N)
          · intro s i h hn
            exact ⟨hP s i h.1 hn, hF s i h.1 hn h.2⟩
          · exact ⟨hP s i hs hN.1, hnow⟩
          · intro x hx
            apply hN.2 x
            show x ∈ trace step (step i s) (pre ++ j :: post)
            rw [trace_append]
            exact List.mem_append_left _ hx
        exact absurd hkept.2 hbefore
    · obtain ⟨pre, ⟨j, post, rfl, hbefore, hafter⟩, hunique⟩ := ih (hP s i hs hN.1) hN.2 hnow hend
      refine ⟨i :: pre, ⟨j, post, rfl, hbefore, hafter⟩, ?_⟩
      intro pre' hpre'
      obtain ⟨j', post', hsplit, hbefore', hafter'⟩ := hpre'
      cases pre' with
      | nil =>
        obtain ⟨rfl, rfl⟩ := List.cons_eq_cons.mp hsplit
        exact absurd hafter' hnow
      | cons i' pre' =>
        obtain ⟨rfl, hrest⟩ := List.cons_eq_cons.mp hsplit
        rw [hunique pre' ⟨j', post', hrest, hbefore', hafter'⟩]

/-- Steps that each yield the next numbers of a counter, as many as they raise it by, yield the
    numbers between its first and its last value. -/
theorem flatMap_counter {N : σ → ι → Prop} {O : σ → ι → List ℕ} (count : σ → ℕ)
    (hstep : ∀ s i, N s i → ∃ n, O s i = List.range' (count s) n ∧ count (step i s) = count s + n)
    {s : σ} {is : List ι} (hN : ∀ x ∈ trace step s is, N x.1 x.2) :
    ∃ n, ((trace step s is).flatMap fun x => O x.1 x.2) = List.range' (count s) n ∧
      count (run step s is) = count s + n := by
  induction is generalizing s with
  | nil => exact ⟨0, rfl, rfl⟩
  | cons i is ih =>
    simp only [trace_cons, List.forall_mem_cons] at hN
    obtain ⟨m, hout, hcount⟩ := hstep s i hN.1
    obtain ⟨n, hrest, hend⟩ := ih hN.2
    refine ⟨m + n, ?_, ?_⟩
    · rw [trace_cons, List.flatMap_cons, hout, hrest, hcount, List.range'_append_1]
    · rw [run_cons, hend, hcount, add_assoc]

end

/-! ## What the steps of a run yield -/

section

variable {α : Type} {step : ι → σ → σ} {out : σ → ι → Option α}

/-- What the steps of a run yield, in order. -/
def yields (step : ι → σ → σ) (out : σ → ι → Option α) (s : σ) (is : List ι) : List α :=
  (trace step s is).filterMap fun x => out x.1 x.2

@[simp] theorem yields_nil (s : σ) : yields step out s [] = [] := rfl

theorem yields_cons (s : σ) (i : ι) (is : List ι) :
    yields step out s (i :: is) = (out s i).toList ++ yields step out (step i s) is := by
  unfold yields
  rw [trace_cons, List.filterMap_cons]
  cases out s i <;> rfl

theorem yields_append (s : σ) (is js : List ι) :
    yields step out s (is ++ js) = yields step out s is ++ yields step out (run step s is) js := by
  unfold yields
  rw [trace_append, List.filterMap_append]

/-- An observation that a step replaces by what it yields, if it yields anything, is at the end of a
    run what was yielded last. -/
theorem run_eq_last {β : Type} {f : σ → β} {g : α → β}
    (hstep : ∀ s i, f (step i s) = (out s i).elim (f s) g) (s : σ) (is : List ι) :
    f (run step s is) = (yields step out s is).getLast?.elim (f s) g := by
  induction is generalizing s with
  | nil => rfl
  | cons i is ih =>
    rw [run_cons, ih, hstep, yields_cons, List.getLast?_append]
    cases (yields step out (step i s) is).getLast? with
    | some a => rfl
    | none => cases out s i <;> rfl

theorem yields_sublist {f : ι → α} (h : ∀ s i a, out s i = some a → f i = a) (s : σ) (is : List ι) :
    (yields step out s is).Sublist (is.map f) := by
  induction is generalizing s with
  | nil => exact List.Sublist.slnil
  | cons i is ih =>
    rw [yields_cons, List.map_cons]
    cases hout : out s i with
    | none => exact (ih (step i s)).cons (f i)
    | some a =>
      rw [← h s i a hout]
      exact (ih (step i s)).cons_cons (f i)

/-- A relation between what has been yielded and the state, which holds at the start and which every
    step that meets `N` keeps, holds at the end of a run of such steps. -/
theorem yields_induct {N : σ → ι → Prop} {G : List α → σ → Prop}
    (hG : ∀ as s i, N s i → G as s → G (as ++ (out s i).toList) (step i s)) {s : σ} (hg : G [] s)
    {is : List ι} (hN : ∀ x ∈ trace step s is, N x.1 x.2) :
    G (yields step out s is) (run step s is) := by
  have hsuffix : ∀ {as : List α} {s : σ} (is : List ι), G as s →
      (∀ x ∈ trace step s is, N x.1 x.2) → G (as ++ yields step out s is) (run step s is) := by
    intro as s is hg hN
    induction is generalizing s as with
    | nil =>
      rw [yields_nil, List.append_nil]
      exact hg
    | cons i is ih =>
      simp only [trace_cons, List.forall_mem_cons] at hN
      rw [yields_cons, ← List.append_assoc]
      exact ih (hG as s i hN.1 hg) hN.2
  exact hsuffix is hg hN

theorem exists_first_of_yields {s : σ} {is : List ι} (h : yields step out s is ≠ []) :
    ∃ pre i post a, is = pre ++ i :: post ∧ yields step out s pre = [] ∧
      out (run step s pre) i = some a := by
  induction is generalizing s with
  | nil => exact absurd rfl h
  | cons i is ih =>
    cases hout : out s i with
    | some a => exact ⟨[], i, is, a, rfl, rfl, hout⟩
    | none =>
      rw [yields_cons, hout] at h
      obtain ⟨pre, j, post, a, rfl, hpre, hj⟩ := ih h
      refine ⟨i :: pre, j, post, a, rfl, ?_, hj⟩
      rw [yields_cons, hout, hpre]
      rfl

theorem yields_eq_nil_iff {s : σ} {is : List ι} :
    yields step out s is = [] ↔ ∀ x ∈ trace step s is, out x.1 x.2 = none :=
  List.filterMap_eq_nil_iff

/-- Steps that each yield the next number of a counter, or leave the counter alone, yield the
    numbers that follow its first value. -/
theorem yields_counter {out : σ → ι → Option ℕ} (count : σ → ℕ)
    (hstep : ∀ s i, (out s i = none ∧ count (step i s) = count s) ∨
      (out s i = some (count s + 1) ∧ count (step i s) = count s + 1)) (s : σ) (is : List ι) :
    yields step out s is = List.range' (count s + 1) (yields step out s is).length := by
  induction is generalizing s with
  | nil => rfl
  | cons i is ih =>
    have hrest := ih (step i s)
    rw [yields_cons]
    rcases hstep s i with ⟨hnone, hcount⟩ | ⟨hsome, hcount⟩
    · rw [hnone]
      rw [hcount] at hrest
      exact hrest
    · rw [hsome]
      rw [hcount] at hrest
      rw [Option.toList_some, List.singleton_append, List.length_cons, List.range'_succ, ← hrest]

/-- Steps that never lower a bound, and yield only numbers above it that the bound then reaches,
    yield an increasing list of numbers between its first and its last value. -/
theorem yields_increasing {P : σ → Prop} {N : σ → ι → Prop} {out : σ → ι → Option ℤ} (bound : σ → ℤ)
    (hP : ∀ s i, P s → N s i → P (step i s))
    (hstep : ∀ s i, P s → N s i → bound s ≤ bound (step i s) ∧
      ∀ n, out s i = some n → bound s < n ∧ n ≤ bound (step i s)) {s : σ} (hs : P s) {is : List ι}
    (hN : ∀ x ∈ trace step s is, N x.1 x.2) :
    (yields step out s is).Pairwise (· < ·) ∧
      ∀ n ∈ yields step out s is, bound s < n ∧ n ≤ bound (run step s is) := by
  have hend : ∀ (s : σ) (is : List ι), P s → (∀ x ∈ trace step s is, N x.1 x.2) →
      bound s ≤ bound (run step s is) := by
    intro s is hs hN
    exact run_related_of_trace (R := fun s s' => bound s ≤ bound s') (fun _ => le_rfl)
      (fun _ _ _ => le_trans) hP (fun s i hs hn => (hstep s i hs hn).1) hs hN
  induction is generalizing s with
  | nil => exact ⟨List.Pairwise.nil, fun n hn => absurd hn List.not_mem_nil⟩
  | cons i is ih =>
    simp only [trace_cons, List.forall_mem_cons] at hN
    obtain ⟨hle, hout⟩ := hstep s i hs hN.1
    obtain ⟨hsorted, hbetween⟩ := ih (hP s i hs hN.1) hN.2
    have hlast := hend (step i s) is (hP s i hs hN.1) hN.2
    rw [yields_cons, run_cons]
    cases hfirst : out s i with
    | none =>
      refine ⟨hsorted, fun n hn => ?_⟩
      obtain ⟨hlow, hhigh⟩ := hbetween n hn
      exact ⟨by omega, hhigh⟩
    | some m =>
      obtain ⟨hlow, hhigh⟩ := hout m hfirst
      rw [Option.toList_some, List.singleton_append]
      refine ⟨List.pairwise_cons.mpr ⟨fun n hn => ?_, hsorted⟩, fun n hn => ?_⟩
      · have habove := (hbetween n hn).1
        omega
      · rcases List.mem_cons.mp hn with rfl | hn
        · exact ⟨hlow, by omega⟩
        · obtain ⟨hlow', hhigh'⟩ := hbetween n hn
          exact ⟨by omega, hhigh'⟩

/-- An observation to which every step that meets `N` adds `out` has grown by the sum over the
    run. -/
theorem run_eq_add_sum_of_trace {M : Type} [AddMonoid M] {P : σ → Prop} {N : σ → ι → Prop}
    {out : σ → ι → M} (f : σ → M) (hP : ∀ s i, P s → N s i → P (step i s))
    (hstep : ∀ s i, P s → N s i → f (step i s) = f s + out s i) {s : σ} (hs : P s) {is : List ι}
    (hN : ∀ x ∈ trace step s is, N x.1 x.2) :
    f (run step s is) = f s + ((trace step s is).map fun x => out x.1 x.2).sum := by
  induction is generalizing s with
  | nil => rw [run_nil, trace_nil, List.map_nil, List.sum_nil, add_zero]
  | cons i is ih =>
    simp only [trace_cons, List.forall_mem_cons] at hN
    rw [run_cons, ih (hP s i hs hN.1) hN.2, hstep s i hs hN.1, trace_cons, List.map_cons,
      List.sum_cons, add_assoc]

/-- An observation to which every step adds what it yields has grown by all that the run yields. -/
theorem run_eq_add_sum {M : Type} [AddMonoid M] {out : σ → ι → Option M} (f : σ → M)
    (hstep : ∀ s i, f (step i s) = f s + (out s i).getD 0) (s : σ) (is : List ι) :
    f (run step s is) = f s + (yields step out s is).sum := by
  induction is generalizing s with
  | nil => rw [run_nil, yields_nil, List.sum_nil, add_zero]
  | cons i is ih =>
    have hone : (out s i).toList.sum = (out s i).getD 0 := by
      cases out s i with
      | none => rfl
      | some m => exact List.sum_singleton
    rw [run_cons, ih, hstep, yields_cons, List.sum_append, hone, add_assoc]

section

variable (taken : σ → α → Prop) {P : σ → Prop} (hP : ∀ s i, P s → P (step i s))
  (htaken : ∀ s i a, P s → (taken (step i s) a ↔ taken s a ∨ out s i = some a))

include hP htaken

/-- When a step takes what it yields, the run has taken what was taken and what it has yielded. -/
theorem taken_run_iff {s : σ} (hs : P s) (is : List ι) (a : α) :
    taken (run step s is) a ↔ taken s a ∨ a ∈ yields step out s is := by
  induction is generalizing s with
  | nil => simp
  | cons i is ih =>
    rw [run_cons, ih (hP s i hs), htaken s i a hs, yields_cons, List.mem_append, or_assoc,
      Option.mem_toList]

theorem not_taken_of_mem_yields (hfree : ∀ s i a, P s → out s i = some a → ¬ taken s a) {s : σ}
    (hs : P s) {is : List ι} {a : α} (ha : a ∈ yields step out s is) : ¬ taken s a := by
  induction is generalizing s with
  | nil => simp at ha
  | cons i is ih =>
    rw [yields_cons, List.mem_append, Option.mem_toList] at ha
    rcases ha with ha | ha
    · exact hfree s i a hs ha
    · exact fun hbefore => ih (hP s i hs) ha ((htaken s i a hs).mpr (.inl hbefore))

/-- When a step yields only what was not taken, and takes it, no two steps yield the same. -/
theorem yields_nodup (hfree : ∀ s i a, P s → out s i = some a → ¬ taken s a) {s : σ} (hs : P s)
    (is : List ι) : (yields step out s is).Nodup := by
  induction is generalizing s with
  | nil => simp
  | cons i is ih =>
    have hrest := ih (hP s i hs)
    rw [yields_cons]
    cases hout : out s i with
    | none => exact hrest
    | some a =>
      have hnow : taken (step i s) a := (htaken s i a hs).mpr (.inr hout)
      have hnot : a ∉ yields step out (step i s) is :=
        fun ha => not_taken_of_mem_yields taken hP htaken hfree (hP s i hs) ha hnow
      exact List.nodup_cons.mpr ⟨hnot, hrest⟩

end

end

/-! ## Passes over a list -/

/-- The state `s'` is reached from `s` by processing the items in order, each as `R` allows. -/
inductive Each (R : ι → σ → σ → Prop) : List ι → σ → σ → Prop where
  | nil (s : σ) : Each R [] s s
  | cons {i : ι} {is : List ι} {s s' s'' : σ} (h : R i s s') (hs : Each R is s' s'') :
      Each R (i :: is) s s''

theorem Each.imp {R R' : ι → σ → σ → Prop} (h : ∀ i s s', R i s s' → R' i s s') {is : List ι}
    {s s' : σ} (hs : Each R is s s') : Each R' is s s' := by
  induction hs with
  | nil s => exact .nil s
  | cons hi _ ih => exact .cons (h _ _ _ hi) ih

/-- What every item keeps, and a reflexive and transitive relation that holds across every item,
    hold across a pass. -/
theorem Each.induct {R : ι → σ → σ → Prop} {P : σ → Prop} {T : σ → σ → Prop} (hrefl : ∀ s, T s s)
    (htrans : ∀ s s' s'', T s s' → T s' s'' → T s s'')
    (hR : ∀ i s s', P s → R i s s' → P s' ∧ T s s') {is : List ι} {s s' : σ} (h : Each R is s s')
    (hs : P s) : P s' ∧ T s s' := by
  induction h with
  | nil s => exact ⟨hs, hrefl s⟩
  | cons h _ ih =>
    obtain ⟨hp, ht⟩ := hR _ _ _ hs h
    obtain ⟨hp', ht'⟩ := ih hp
    exact ⟨hp', htrans _ _ _ ht ht'⟩

/-- What every item keeps, a pass keeps. -/
theorem Each.keeps {R : ι → σ → σ → Prop} {P : σ → Prop} (hR : ∀ i s s', P s → R i s s' → P s')
    {is : List ι} {s s' : σ} (h : Each R is s s') (hs : P s) : P s' := by
  induction h with
  | nil s => exact hs
  | cons h _ ih => exact ih (hR _ _ _ hs h)

end Trellis
