import Trellis.Lib.Joint

/-!
# Sweeps

A sweep takes one step for each of several records, and each of these steps deals with its own
record only.

Results:
* `Sweeps.run`: a sweep of different records deals with every one of them and with no other, in any
  order they are taken in.
* `Sweeps.embed`: a sweep seen through other records that stand for its own.
* `Sweeps.joint`: sweeps of parties that share a resource are one sweep of the joint system.
-/

namespace Trellis

variable {σ ι K V T : Type}

/-- In the states where `P` holds, the call for a record that is due turns it into `after` of it,
    leaves all others alone, acts on the tally as `act` says, and keeps `P`. -/
structure Sweeps (step : ι → σ → σ) (P : σ → Prop) (look : σ → K → Option V) (due : V → Prop)
    (call : K → V → ι) (after : V → V) (tally : σ → T) (act : K → V → T → T) : Prop where
  keeps : ∀ {s k v}, P s → look s k = some v → due v → P (step (call k v) s)
  record : ∀ {s k v}, P s → look s k = some v → due v → look (step (call k v) s) k = some (after v)
  others : ∀ {s k v}, P s → look s k = some v → due v → ∀ k', k' ≠ k →
    look (step (call k v) s) k' = look s k'
  tally : ∀ {s k v}, P s → look s k = some v → due v → tally (step (call k v) s) = act k v (tally s)

variable {step : ι → σ → σ} {P : σ → Prop} {look : σ → K → Option V} {due : V → Prop}
  {call : K → V → ι} {after : V → V} {tally : σ → T} {act : K → V → T → T}

/-- One call for each of the records. -/
def sweep (call : K → V → ι) (records : List (K × V)) : List ι := records.map fun x => call x.1 x.2

/-- A sweep of different records that are due: `P` is kept, the tally is acted on by all of them,
    each is dealt with, and no other is touched. -/
theorem Sweeps.run (h : Sweeps step P look due call after tally act) {records : List (K × V)}
    (hnodup : (records.map Prod.fst).Nodup) {s : σ} (hs : P s)
    (hdue : ∀ x ∈ records, look s x.1 = some x.2 ∧ due x.2) :
    P (run step s (sweep call records)) ∧
      tally (Trellis.run step s (sweep call records)) =
        records.foldl (fun t x => act x.1 x.2 t) (tally s) ∧
      (∀ x ∈ records, look (Trellis.run step s (sweep call records)) x.1 = some (after x.2)) ∧
      ∀ k ∉ records.map Prod.fst, look (Trellis.run step s (sweep call records)) k = look s k := by
  induction records generalizing s with
  | nil => exact ⟨hs, rfl, fun x hx => absurd hx List.not_mem_nil, fun _ _ => rfl⟩
  | cons x records ih =>
    rw [List.map_cons, List.nodup_cons] at hnodup
    rw [List.forall_mem_cons] at hdue
    obtain ⟨⟨hx, hxdue⟩, hrest⟩ := hdue
    have hothers := h.others hs hx hxdue
    have hne : ∀ y ∈ records, y.1 ≠ x.1 := by
      intro y hy hsame
      exact hnodup.1 (hsame ▸ List.mem_map_of_mem hy)
    obtain ⟨hkept, htally, hafter, hsame⟩ := ih hnodup.2 (h.keeps hs hx hxdue) fun y hy => by
      rw [hothers y.1 (hne y hy)]
      exact hrest y hy
    refine ⟨hkept, ?_, ?_, ?_⟩
    · rw [List.foldl_cons, ← h.tally hs hx hxdue]
      exact htally
    · rw [List.forall_mem_cons]
      refine ⟨?_, hafter⟩
      exact (hsame x.1 hnodup.1).trans (h.record hs hx hxdue)
    · intro k hk
      rw [List.map_cons, List.mem_cons, not_or] at hk
      exact (hsame k hk.2).trans (hothers k hk.1)

/-- A sweep of the records `c v` that stand for the records `v`, in the states where `P'` holds. -/
theorem Sweeps.embed (h : Sweeps step P look due call after tally act) {V' : Type} {c : V → V'}
    {P' : σ → Prop} {due' : V' → Prop} {call' : K → V' → ι} {after' : V' → V'}
    {act' : K → V' → T → T} (hP : ∀ {s k v}, P' s → look s k = some v → P s)
    (hkeeps : ∀ {s k v}, P' s → look s k = some v → due v → P' (step (call k v) s))
    (hdue : ∀ v, due' (c v) → due v) (hcall : ∀ k v, call' k (c v) = call k v)
    (hafter : ∀ v, after' (c v) = c (after v)) (hact : ∀ k v, act' k (c v) = act k v) :
    Sweeps step P' (fun s k => (look s k).map c) due' call' after' tally act' := by
  have hrecord : ∀ {s k v'}, (look s k).map c = some v' → due' v' →
      ∃ v, look s k = some v ∧ due v ∧ v' = c v := by
    intro s k v' hv' hdue'
    obtain ⟨v, hv, rfl⟩ := Option.map_eq_some_iff.mp hv'
    exact ⟨v, hv, hdue v hdue', rfl⟩
  refine ⟨fun hs hv' hdue' => ?_, fun hs hv' hdue' => ?_, fun hs hv' hdue' k' hk' => ?_,
    fun hs hv' hdue' => ?_⟩
  all_goals
    obtain ⟨v, hv, hdue, rfl⟩ := hrecord hv' hdue'
    rw [hcall]
  · exact hkeeps hs hv hdue
  · rw [h.record (hP hs hv) hv hdue, hafter]
    rfl
  · rw [h.others (hP hs hv) hv hdue k' hk']
  · rw [h.tally (hP hs hv) hv hdue, hact]

/-! ## Sweeps of several parties -/

section

variable {I α ρ : Type} [DecidableEq I] {σ τ ι K : I → Type}

/-- Parties that share a resource and sweep their own records each: a call of one leaves the records
    of the others alone, so when it also keeps their states, the calls of all of them are a sweep of
    the joint system. -/
theorem Sweeps.joint {p : ∀ i, Parted (σ i) ρ (τ i)} {step : ∀ i, ι i → τ i → τ i}
    {P : ∀ i, τ i → Prop} {look : ∀ i, τ i → K i → Option V} {due : V → Prop}
    {call : ∀ i, K i → V → ι i} {after : V → V} {act : ∀ i, K i → V → ρ → ρ}
    {jointStep : α → Joint σ ρ → Joint σ ρ} {jointCall : ∀ i, K i → V → α}
    (h : ∀ i, Sweeps (step i) (P i) (look i) due (call i) after (p i).common (act i))
    (hstep : ∀ i k v g, jointStep (jointCall i k v) g = g.act p step i (call i k v))
    (hlook : ∀ i l r r', look i ((p i).join l r) = look i ((p i).join l r'))
    (hothers : ∀ i j, j ≠ i → ∀ k v g, P j (g.view p j) →
      P j ((jointStep (jointCall i k v) g).view p j)) :
    Sweeps jointStep (fun g => ∀ i, P i (g.view p i))
      (fun g (x : Σ i, K i) => look x.1 (g.view p x.1) x.2) due
      (fun x v => jointCall x.1 x.2 v) after Joint.common (fun x v => act x.1 x.2 v) where
  keeps := by
    rintro g ⟨i, k⟩ v hg hv hdue j
    by_cases hj : j = i
    · subst hj
      rw [hstep, Joint.view_act_self]
      exact (h j).keeps (hg j) hv hdue
    · exact hothers i j hj k v g (hg j)
  record := by
    rintro g ⟨i, k⟩ v hg hv hdue
    dsimp only
    rw [hstep, Joint.view_act_self]
    exact (h i).record (hg i) hv hdue
  others := by
    rintro g ⟨i, k⟩ v hg hv hdue ⟨j, k'⟩ hne
    dsimp only
    rw [hstep]
    by_cases hj : j = i
    · subst hj
      rw [Joint.view_act_self]
      refine (h j).others (hg j) hv hdue k' fun hk => hne ?_
      rw [hk]
    · rw [Joint.view_act_of_ne hj]
      exact congrFun (hlook j _ _ _) k'
  tally := by
    rintro g ⟨i, k⟩ v hg hv hdue
    have htally := (h i).tally (hg i) hv hdue
    rw [Joint.common_view] at htally
    dsimp only
    rw [hstep]
    exact htally

end

end Trellis
