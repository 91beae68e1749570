import Trellis.Lib.Run

/-!
# Replaying a log

A log tells what happened to a book, entry by entry: `record b e` is the book after the entry `e`,
or `none` when the entry cannot follow on `b`. A state is recorded when what its log grows by leads
from the book it had to the book it has.

Results:
* `replay_append`: a log is replayed part by part.
* `replay_filterMap`: entries that say nothing of the book are passed over.
* `Recorded.quiet`, `Recorded.one`: what a step that writes nothing, or one thing, of the book has
  to show.
* `Recorded.run_of`: when the steps are recorded where an invariant holds, so are the runs.
* `replay_trace`: the same for what the steps yield to their callers.
-/

namespace Trellis

variable {σ ι B E A : Type} {record : B → E → Option B}

/-- The book after the entries of the log, in order. -/
def replay (record : B → E → Option B) (b : B) (log : List E) : Option B := log.foldlM record b

@[simp] theorem replay_nil (b : B) : replay record b [] = some b := rfl

@[simp] theorem replay_cons (b : B) (e : E) (log : List E) :
    replay record b (e :: log) = (record b e).bind fun b' => replay record b' log := rfl

theorem replay_append (b : B) (log log' : List E) :
    replay record b (log ++ log') = (replay record b log).bind fun b' => replay record b' log' :=
  List.foldlM_append

/-- The book, if the entry passes the check. -/
def checked (c : Prop) [Decidable c] (b : B) : Option B := if c then some b else none

theorem checked_of {c : Prop} [Decidable c] (h : c) (b : B) : checked c b = some b := if_pos h

/-- The book after an entry that may say nothing of it. -/
def recordIfAny (decode : A → Option E) (record : B → E → Option B) (b : B) (a : A) : Option B :=
  match decode a with
  | some e => record b e
  | none => some b

theorem replay_filterMap (decode : A → Option E) (b : B) (log : List A) :
    replay (recordIfAny decode record) b log = replay record b (log.filterMap decode) := by
  induction log generalizing b with
  | nil => rfl
  | cons a log ih =>
    rw [replay_cons, recordIfAny]
    cases ha : decode a with
    | none => rw [List.filterMap_cons_none ha, Option.bind_some, ih]
    | some e =>
      rw [List.filterMap_cons_some ha, replay_cons]
      exact congrArg _ (funext ih)

/-- From `s` to `s'` the log only grows, and what it grows by leads from the one book to the
    other. -/
def Recorded (record : B → E → Option B) (log : σ → List E) (book : σ → B) (s s' : σ) : Prop :=
  ∃ es, log s' = log s ++ es ∧ replay record (book s) es = some (book s')

variable {log : σ → List E} {book : σ → B} {s s' s'' : σ}

theorem Recorded.same (hlog : log s' = log s) (hbook : book s' = book s) :
    Recorded record log book s s' :=
  ⟨[], by rw [hlog, List.append_nil], by rw [hbook, replay_nil]⟩

theorem Recorded.trans (h : Recorded record log book s s') (h' : Recorded record log book s' s'') :
    Recorded record log book s s'' := by
  obtain ⟨es, hlog, hreplay⟩ := h
  obtain ⟨es', hlog', hreplay'⟩ := h'
  refine ⟨es ++ es', ?_, ?_⟩
  · rw [hlog', hlog, List.append_assoc]
  · rw [replay_append, hreplay, Option.bind_some, hreplay']

/-- The log grew by `es`, and what `es` says of the book leads from the one book to the other. -/
theorem Recorded.decoded {decode : E → Option A} {record : B → A → Option B} (es : List E)
    (hlog : log s' = log s ++ es)
    (hreplay : replay record (book s) (es.filterMap decode) = some (book s')) :
    Recorded (recordIfAny decode record) log book s s' :=
  ⟨es, hlog, by rw [replay_filterMap, hreplay]⟩

/-- The log grew by entries that say nothing of the book, which stayed. -/
theorem Recorded.quiet {decode : E → Option A} {record : B → A → Option B} (es : List E)
    (hlog : log s' = log s ++ es) (hnone : es.filterMap decode = []) (hbook : book s' = book s) :
    Recorded (recordIfAny decode record) log book s s' :=
  .decoded es hlog (by rw [hnone, hbook, replay_nil])

/-- The log grew by entries of which one says something, and the book by that. -/
theorem Recorded.one {decode : E → Option A} {record : B → A → Option B} {a : A} (es : List E)
    (hlog : log s' = log s ++ es) (hone : es.filterMap decode = [a])
    (hrecord : record (book s) a = some (book s')) :
    Recorded (recordIfAny decode record) log book s s' :=
  .decoded es hlog (by rw [hone, replay_cons, hrecord, Option.bind_some, replay_nil])

/-- The log grew by one entry, and the book by what it says. -/
theorem Recorded.entry {e : E} (hlog : log s' = log s ++ [e])
    (hentry : record (book s) e = some (book s')) : Recorded record log book s s' :=
  ⟨[e], hlog, by rw [replay_cons, hentry, Option.bind_some, replay_nil]⟩

/-- Steps that keep `P`, and are recorded where it holds, make runs that are recorded. -/
theorem Recorded.run_of {step : ι → σ → σ} {P : σ → Prop} (hP : ∀ s i, P s → P (step i s))
    (hstep : ∀ s i, P s → Recorded record log book s (step i s)) (hs : P s) (is : List ι) :
    Recorded record log book s (run step s is) :=
  run_related (R := Recorded record log book) (fun _ => .same rfl rfl)
    (fun _ _ _ h h' => h.trans h') hP hstep hs is

/-- When what every step yields leads from the book before it to the book after it, what a run
    yields leads from the book at its start to the book at its end. -/
theorem replay_trace (book : σ → B) {step : ι → σ → σ} {out : σ → ι → List E} {P : σ → Prop}
    {N : σ → ι → Prop} (hP : ∀ s i, P s → N s i → P (step i s))
    (hstep : ∀ s i, P s → N s i → replay record (book s) (out s i) = some (book (step i s)))
    (hs : P s) {is : List ι} (hN : ∀ x ∈ trace step s is, N x.1 x.2) :
    replay record (book s) ((trace step s is).flatMap fun x => out x.1 x.2) =
      some (book (run step s is)) := by
  induction is generalizing s with
  | nil => rfl
  | cons i is ih =>
    simp only [trace_cons, List.forall_mem_cons] at hN
    rw [trace_cons, List.flatMap_cons, replay_append, hstep s i hs hN.1, Option.bind_some,
      ih (hP s i hs hN.1) hN.2]
    rfl

/-- What a state without a log came to is what its log replays to. -/
theorem Recorded.replay_eq (h : Recorded record log book s s') (hs : log s = []) :
    replay record (book s) (log s') = some (book s') := by
  obtain ⟨es, hlog, hreplay⟩ := h
  rw [hlog, hs, List.nil_append, hreplay]

end Trellis
