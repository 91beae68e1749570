import Trellis.Lib.Replay
import Trellis.Shared.Events

/-!
# Event logs

A contract whose calls are recorded by their events: some part of its storage, the book, can be
rebuilt from the events alone by whoever reads them from the deployment on.

Results:
* `replay_reached`: the events of every run from deployment replay to the book.
-/

namespace Trellis

variable {me : Address} {S B C : Type} {record : B → Event → Option B} {book : World S → B}
  {exec : Env me → C → World S → World S}

@[simp] theorem events_outsideTransfer (env : Env me) (x : TokenTransfer) (w : World S) :
    (outsideTransfer env x w).events = w.events := by
  rcases outsideTransfer_cases env x w with h | ⟨-, -, h⟩ <;> rw [h]

/-- Transfers made by others publish nothing, and the book is not about balances. -/
theorem Recorded.outside (hbook : ∀ (env : Env me) x w, book (outsideTransfer env x w) = book w)
    (env : Env me) (x : TokenTransfer) (w : World S) :
    Recorded record World.events book w (outsideTransfer env x w) :=
  .same (events_outsideTransfer env x w) (hbook env x w)

/-- When the calls are recorded where an invariant holds, the events of every run from deployment
    replay from the book of the fresh contract to the book of the state that the run ends in. -/
theorem replay_reached {P : World S → Prop}
    (hP : ∀ w (s : Step me C), P w → P (s.apply exec w))
    (hbook : ∀ (env : Env me) x w, book (outsideTransfer env x w) = book w)
    (hexec : ∀ env c w, P w → Recorded record World.events book w (exec env c w)) (store : S)
    (tokens : TokenLedger) (hstart : P (World.deployed store tokens)) (steps : List (Step me C)) :
    replay record (book (World.deployed store tokens))
        (run (Step.apply exec) (World.deployed store tokens) steps).events =
      some (book (run (Step.apply exec) (World.deployed store tokens) steps)) := by
  refine (Recorded.run_of hP (fun w s hw => ?_) hstart steps).replay_eq rfl
  cases s with
  | call env c => exact hexec env c w hw
  | outside env x => exact .outside hbook env x w

end Trellis
