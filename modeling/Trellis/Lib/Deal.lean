import Trellis.Lib.Replay
import Trellis.Lib.Table

/-!
# Deals

A deal is opened once, under a key of its own, and closed at most once, by one of its exits. A log
of deals says what was opened and what was closed, in any interleaving of the keys.

Results:
* `record_of_life`, `life_of_record`: an event can follow exactly when it continues the life of its
  deal.
* `replay_iff`: a log leads from some deals to others exactly when for every key the events about
  the key are the rest of its life. So each deal is opened before it is closed, and neither happens
  twice.
* `replay_of_sublogs`: the order of events about different keys makes no difference.
-/

namespace Trellis

/-- The deals by their keys: the terms of each, and its exit once it is closed. -/
abbrev Deals (K D X : Type) : Type := K → Option (D × Option X)

/-- What a log says of a deal. -/
inductive DealEvent (K D X : Type) where
  | opened (k : K) (terms : D)
  | closed (k : K) (exit : X)
  deriving DecidableEq, Repr

variable {K D X : Type}

/-- The key of the deal that the event is about. -/
def DealEvent.key : DealEvent K D X → K
  | opened k _ => k
  | closed k _ => k

/-- The events about a deal up to where it stands. -/
def life (k : K) : Option (D × Option X) → List (DealEvent K D X)
  | none => []
  | some (terms, none) => [.opened k terms]
  | some (terms, some exit) => [.opened k terms, .closed k exit]

theorem life_injective (k : K) : Function.Injective (life k : Option (D × Option X) → _) := by
  rintro (_ | ⟨terms, _ | exit⟩) (_ | ⟨terms', _ | exit'⟩) h <;> simp_all [life]

variable [DecidableEq K]

/-- The deals after an event. -/
def Deals.record (m : Deals K D X) : DealEvent K D X → Option (Deals K D X)
  | .opened k terms => match m k with
    | none => some (Function.update m k (some (terms, none)))
    | some _ => none
  | .closed k exit => match m k with
    | some (terms, none) => some (Function.update m k (some (terms, some exit)))
    | _ => none

theorem record_opened {m : Deals K D X} {k : K} (h : m k = none) (terms : D) :
    m.record (.opened k terms) = some (Function.update m k (some (terms, none))) := by
  rw [Deals.record, h]

theorem record_closed {m : Deals K D X} {k : K} {terms : D} (h : m k = some (terms, none))
    (exit : X) :
    m.record (.closed k exit) = some (Function.update m k (some (terms, some exit))) := by
  rw [Deals.record, h]

/-- An event that continues the life of its deal can follow. -/
theorem record_of_life {m : Deals K D X} {e : DealEvent K D X} {v : Option (D × Option X)}
    {rest : List (DealEvent K D X)} (h : life e.key v = life e.key (m e.key) ++ e :: rest) :
    ∃ d, m.record e = some (Function.update m e.key (some d)) ∧
      life e.key (some d) = life e.key (m e.key) ++ [e] := by
  cases e with
  | opened k terms =>
    change life k v = life k (m k) ++ _ at h
    cases hm : m k with
    | none => exact ⟨(terms, none), record_opened hm terms, by simp [DealEvent.key, hm, life]⟩
    | some d =>
      -- an open deal is not opened again
      rw [hm] at h
      obtain ⟨terms', exit'⟩ := d
      rcases v with _ | ⟨terms'', _ | exit''⟩ <;> cases exit' <;> simp [life] at h
  | closed k exit =>
    change life k v = life k (m k) ++ _ at h
    rcases hm : m k with _ | ⟨terms, _ | exit'⟩
    · rw [hm] at h
      rcases v with _ | ⟨terms'', _ | exit''⟩ <;> simp [life] at h
    · exact ⟨(terms, some exit), record_closed hm exit, by simp [DealEvent.key, hm, life]⟩
    · -- a closed deal is not closed again
      rw [hm] at h
      rcases v with _ | ⟨terms'', _ | exit''⟩ <;> simp [life] at h

/-- An event that can follow continues the life of its deal. -/
theorem life_of_record {m m' : Deals K D X} {e : DealEvent K D X} (h : m.record e = some m') :
    ∃ d, m' = Function.update m e.key (some d) ∧
      life e.key (some d) = life e.key (m e.key) ++ [e] := by
  cases e with
  | opened k terms =>
    cases hm : m k with
    | none =>
      rw [record_opened hm] at h
      exact ⟨_, (Option.some.inj h).symm, by simp [DealEvent.key, hm, life]⟩
    | some d => simp [Deals.record, hm] at h
  | closed k exit =>
    rcases hm : m k with _ | ⟨terms, _ | exit'⟩
    · simp [Deals.record, hm] at h
    · rw [record_closed hm] at h
      exact ⟨_, (Option.some.inj h).symm, by simp [DealEvent.key, hm, life]⟩
    · simp [Deals.record, hm] at h

/-- A log leads from the deals `m` to the deals `m'` exactly when for every key the events about the
    key are what the life in `m'` has after the life in `m`. -/
theorem replay_iff {m m' : Deals K D X} {log : List (DealEvent K D X)} :
    replay Deals.record m log = some m' ↔
      ∀ k, life k (m' k) = life k (m k) ++ log.filter fun e => e.key = k := by
  induction log generalizing m with
  | nil =>
    simp only [replay_nil, List.filter_nil, List.append_nil]
    constructor
    · rintro h k
      rw [Option.some.inj h]
    · intro h
      exact congrArg some (funext fun k => life_injective k (h k).symm)
  | cons e log ih =>
    rw [replay_cons, Option.bind_eq_some_iff]
    constructor
    · rintro ⟨m₁, hm₁, hreplay⟩ k
      obtain ⟨d, rfl, hlife⟩ := life_of_record hm₁
      rw [ih.mp hreplay k]
      by_cases hk : k = e.key
      · subst hk
        rw [Function.update_self, hlife, List.filter_cons_of_pos (by simp), List.append_assoc]
        rfl
      · rw [Function.update_of_ne hk, List.filter_cons_of_neg (by simpa using Ne.symm hk)]
    · intro h
      have hkey := h e.key
      rw [List.filter_cons_of_pos (by simp)] at hkey
      obtain ⟨d, hd, hlife⟩ := record_of_life hkey
      refine ⟨_, hd, ih.mpr fun k => ?_⟩
      rw [h k]
      by_cases hk : k = e.key
      · subst hk
        rw [Function.update_self, hlife, List.filter_cons_of_pos (by simp), List.append_assoc]
        rfl
      · rw [Function.update_of_ne hk, List.filter_cons_of_neg (by simpa using Ne.symm hk)]

/-- A log with the same events about every key, each key's in the same order, leads to the same
    deals. -/
theorem replay_of_sublogs {m m' : Deals K D X} {log log' : List (DealEvent K D X)}
    (h : replay Deals.record m log = some m')
    (hsame : ∀ k, (log'.filter fun e => e.key = k) = log.filter fun e => e.key = k) :
    replay Deals.record m log' = some m' :=
  replay_iff.mpr fun k => by rw [replay_iff.mp h k, hsame k]

/-! ## The deals of a table -/

variable {V : Type}

/-- The deals that the entries of a table stand for. -/
def dealsOf (deal : V → D × Option X) (m : Table K V) : Deals K D X :=
  fun k => (m.lookup k).map deal

theorem dealsOf_set (deal : V → D × Option X) (m : Table K V) (k : K) (v : V) :
    dealsOf deal (m.insert k v) = Function.update (dealsOf deal m) k (some (deal v)) := by
  funext k'
  unfold dealsOf
  rw [Table.lookup_set]
  by_cases hk : k' = k
  · rw [if_pos hk, hk, Function.update_self, Option.map_some]
  · rw [if_neg hk, Function.update_of_ne hk]

theorem record_set_new {deal : V → D × Option X} {m : Table K V} {k : K} {v : V} {terms : D}
    (hk : m.lookup k = none) (hv : deal v = (terms, none)) :
    (dealsOf deal m).record (.opened k terms) = some (dealsOf deal (m.insert k v)) := by
  rw [dealsOf_set, hv]
  exact record_opened (by rw [dealsOf, hk, Option.map_none]) terms

/-- A write over the entry of an open deal, with its terms and an exit, closes it. -/
theorem record_set_old {deal : V → D × Option X} {m : Table K V} {k : K} {u v : V} {terms : D}
    {exit : X} (hk : m.lookup k = some u) (hu : deal u = (terms, none))
    (hv : deal v = (terms, some exit)) :
    (dealsOf deal m).record (.closed k exit) = some (dealsOf deal (m.insert k v)) := by
  rw [dealsOf_set, hv]
  exact record_closed (by rw [dealsOf, hk, Option.map_some, hu]) exit

end Trellis
