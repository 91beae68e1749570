import Trellis.Aid.Indexes

/-!
# The lists of all aids

Model of the read-only interface contracts/aid-contract/src/api.rs: pages over the ids below the
counter, of all records or of those of one donor.

Results:
* `listPage_eq`: a page of either list goes over the ids below the counter.
* `visits_filter`: in a store whose ids are below the counter, with or without gaps, the pages hold
  every record that the list is about once.
* `counter_step`: what a step does to the counter.
* `createdIds_eq_range`: fewer than 2^64 creations give out the ids from 0 on, one after another.
* `pagination_visits_all`: the pages of both lists, whatever their limits, in every reachable state.
-/

namespace Trellis.Aid

open Exec

variable {me : Address}

/-! ## Pages -/

/-- The loop of both lists (contracts/aid-contract/src/api.rs:31–36, 65–72), with
    `total_aids - current_id` as its argument: while the page is not full and there are ids left. -/
def listLoop (find : ℕ → Option AidRecord) (limit : ℕ) : ℕ → ℕ → List AidRecord → ℕ × List AidRecord
  | 0, currentId, aids => (currentId, aids)
  | left + 1, currentId, aids =>
    if aids.length < limit then
      listLoop find limit left (currentId + 1) (aids ++ (find currentId).toList)
    else (currentId, aids)

/-- A page, as `PaginatedAidsResponse` (contracts/aid-contract/src/api.rs:7–10). -/
def listPage (find : ℕ → Option AidRecord) (totalAids limit : ℕ) (cursor : Option ℕ) :
    Page AidRecord :=
  if limit = 0 then ⟨[], cursor⟩
  else
    let start := cursor.getD 0
    let filled := listLoop find limit (totalAids - start) start []
    ⟨filled.2, if filled.1 < totalAids then some filled.1 else none⟩

/-- Model of `list_aids` (contracts/aid-contract/src/api.rs:17–45). -/
def Store.listAids (s : Store) (limit : ℕ) (cursor : Option ℕ) : Page AidRecord :=
  listPage s.aids.lookup s.getAidCounter limit cursor

/-- Model of `list_aids_by_donor` (contracts/aid-contract/src/api.rs:47–81). -/
def Store.listAidsByDonor (s : Store) (donor : Address) (limit : ℕ) (cursor : Option ℕ) :
    Page AidRecord :=
  listPage (fun id => (s.aids.lookup id).filter fun aid => aid.donor = donor) s.getAidCounter
    limit cursor

theorem listLoop_eq (find : ℕ → Option AidRecord) (limit left currentId : ℕ)
    (aids : List AidRecord) :
    listLoop find limit left currentId aids =
      fillPage find limit (List.range' currentId left) currentId aids := by
  induction left generalizing currentId aids with
  | zero => rfl
  | succ left ih => rw [listLoop, List.range'_succ, fillPage, ih]

/-- A page with a positive limit goes over the ids below the counter. -/
theorem listPage_eq (find : ℕ → Option AidRecord) (totalAids : ℕ) {limit : ℕ} (hlimit : 0 < limit)
    (cursor : Option ℕ) :
    listPage find totalAids limit cursor =
      pageAt find (List.range totalAids) limit (cursor.getD 0) := by
  have hids : (List.range totalAids).drop (cursor.getD 0) =
      List.range' (cursor.getD 0) (totalAids - cursor.getD 0) := by
    rw [List.range_eq_range', List.drop_range', Nat.zero_add, Nat.mul_one]
  unfold listPage pageAt
  rw [if_neg (Nat.ne_of_gt hlimit), hids, List.length_range]
  dsimp only
  rw [listLoop_eq]

theorem followPages_list (find : ℕ → Option AidRecord) (totalAids : ℕ) {limits : ℕ → ℕ}
    (hlimits : ∀ n, 0 < limits n) :
    ∃ pages, followPages (fun n cursor => listPage find totalAids (limits n) cursor)
      (totalAids + 1) 0 none =
        some pages ∧ pages.flatten = (List.range totalAids).filterMap find ∧
      ∀ i page, pages[i]? = some page → page.length ≤ limits i := by
  have hfuel : (List.range totalAids).length < totalAids + 1 + (none : Option ℕ).getD 0 := by
    rw [List.length_range]
    exact Nat.lt_succ_self totalAids
  obtain ⟨pages, hpages, hflatten, hlengths⟩ := @followPages_spec ℕ AidRecord find _ _ limits
    (fun n cursor => listPage_eq find totalAids (hlimits n) cursor) hlimits _ 0 _ hfuel
      (Nat.succ_pos _)
  refine ⟨pages, hpages, hflatten, fun i page hi => ?_⟩
  have hlength := hlengths i page hi
  rwa [Nat.zero_add] at hlength

/-! ## The records of a store -/

/-- The stored records in the order of their ids. -/
def Store.records (s : Store) : List AidRecord := s.aids.inOrder

/-- Every record is stored under its own id, and all ids are below the counter. -/
def Store.Numbered (s : Store) : Prop :=
  s.aids.Forall fun id r => r.id = id ∧ id < s.getAidCounter

theorem records_increasing {s : Store} (hnumbered : s.Numbered) :
    s.records.Pairwise fun r r' => r.id < r'.id := by
  apply Table.pairwise_inOrder
  intro id id' hlt r hr r' hr'
  rw [(hnumbered id r hr).1, (hnumbered id' r' hr').1]
  exact hlt

theorem mem_records {s : Store} (hnumbered : s.Numbered) {id : ℕ} {r : AidRecord} :
    s.aids.lookup id = some r ↔ r ∈ s.records ∧ r.id = id := by
  unfold Store.records
  rw [Table.mem_inOrder]
  constructor
  · intro hr
    exact ⟨⟨id, hr⟩, (hnumbered id r hr).1⟩
  · rintro ⟨⟨id', hr⟩, rfl⟩
    rw [(hnumbered id' r hr).1]
    exact hr

/-! ## What the pages hold -/

/-- The list holds the stored records with the property, each once: `all` are these in the order of
    their ids, and the pages from the first on, asked for with any limits, are finitely many, none
    longer than its limit, and together `all`. -/
structure Visits (s : Store) (p : AidRecord → Prop) (list : ℕ → Option ℕ → Page AidRecord)
    (all : List AidRecord) : Prop where
  increasing : all.Pairwise fun r r' => r.id < r'.id
  mem (id : ℕ) (r : AidRecord) : s.aids.lookup id = some r ∧ p r ↔ r ∈ all ∧ r.id = id
  pages (limits : ℕ → ℕ) : (∀ n, 1 ≤ limits n) →
    ∃ pages, followPages (fun n cursor => list (limits n) cursor) (s.getAidCounter + 1) 0 none =
      some pages ∧
      pages.flatten = all ∧ ∀ i page, pages[i]? = some page → page.length ≤ limits i

/-- A list that goes over the records with a property visits these. -/
theorem visits_filter {s : Store} (hnumbered : s.Numbered) (p : AidRecord → Bool) :
    Visits s (fun r => p r = true)
      (listPage (fun id => (s.aids.lookup id).filter p) s.getAidCounter)
      (s.records.filter p) := by
  refine ⟨(records_increasing hnumbered).filter p, fun id r => ?_, fun limits hlimits => ?_⟩
  · rw [mem_records hnumbered, List.mem_filter, and_right_comm]
  · unfold Store.records
    rw [← Table.filterMap_range (hnumbered.imp fun _ _ h => h.2), List.filter_filterMap]
    exact followPages_list _ s.getAidCounter hlimits

theorem visits_all {s : Store} (hnumbered : s.Numbered) :
    Visits s (fun _ => True) s.listAids s.records := by
  have hvisits := visits_filter hnumbered fun _ => true
  have hfind : (fun id => (s.aids.lookup id).filter fun _ => true) = s.aids.lookup := by
    funext id
    cases s.aids.lookup id <;> rfl
  rw [List.filter_true, hfind] at hvisits
  simp only at hvisits
  exact hvisits

/-! ## The counter -/

theorem counter_exec (env : Env me) (c : Entry) (w : World Store)
    (hnot : ∀ donor recipient amount expiry, c ≠ .createAid donor recipient amount expiry) :
    (exec env c w).store.getAidCounter = w.store.getAidCounter := by
  rcases exec_cases env c w with hsame | hdone
  · rw [hsame]
  · generalize exec env c w = w' at hdone
    cases hdone with
    | createAid => exact absurd rfl (hnot _ _ _ _)
    | _ => rfl

/-- A step gives out the counter as an id and raises it, or it gives out none and leaves the counter
    alone. -/
theorem counter_step (w : World Store) (s : Step me Entry) :
    (createdId w s = none ∧ (step s w).store.getAidCounter = w.store.getAidCounter) ∨
      (createdId w s = some w.store.getAidCounter ∧
        (step s w).store.getAidCounter = (w.store.getAidCounter + 1) % 2 ^ 64) := by
  cases s with
  | outside env x =>
    refine .inl ⟨rfl, ?_⟩
    rw [store_outside]
  | call env c =>
    have hkept := counter_exec env c w
    cases c with
    | createAid donor recipient amount expiry =>
      refine value_commit_induct (G := fun o (w' : World Store) =>
        (o = none ∧ w'.store.getAidCounter = w.store.getAidCounter) ∨
          o = some w.store.getAidCounter ∧
          w'.store.getAidCounter = (w.store.getAidCounter + 1) % 2 ^ 64)
        (.inl ⟨rfl, rfl⟩) fun id w' hok => .inr ?_
      simp [createAid] at hok
      obtain ⟨-, -, -, -, token, -, ⟨-, rfl⟩, rfl⟩ := hok
      exact ⟨rfl, rfl⟩
    | _ => exact .inl ⟨rfl, hkept (by simp)⟩

/-- Fewer than 2^64 creations give out the ids from 0 on, one after another, and the counter is the
    next. -/
theorem createdIds_eq_range (tokens : TokenLedger) (steps : List (Step me Entry))
    (hfew : (createdIds tokens steps).length < 2 ^ 64) :
    createdIds tokens steps = List.range (createdIds tokens steps).length ∧
      (reached tokens steps).store.getAidCounter = (createdIds tokens steps).length := by
  refine yields_induct (N := fun _ _ => True) (G := fun (ids : List ℕ) (w : World Store) =>
    ids.length < 2 ^ 64 → ids = List.range ids.length ∧ w.store.getAidCounter = ids.length)
    (fun ids w s _ hids => ?_) (fun _ => ⟨rfl, rfl⟩) (fun _ _ => trivial) hfew
  rcases counter_step w s with ⟨hnone, hcounter⟩ | ⟨hsome, hcounter⟩
  · rw [hnone, hcounter, Option.toList_none, List.append_nil]
    exact hids
  · rw [hsome, hcounter, Option.toList_some, List.length_append, List.length_singleton]
    intro hlt
    obtain ⟨hrange, hlength⟩ := hids (Nat.lt_of_succ_lt hlt)
    rw [hlength, Nat.mod_eq_of_lt hlt, List.range_succ, ← hrange]
    exact ⟨rfl, rfl⟩

/-- After fewer than 2^64 creations all ids are below the counter. -/
theorem numbered_reached (tokens : TokenLedger) (steps : List (Step me Entry))
    (hfew : (createdIds tokens steps).length < 2 ^ 64) : (reached tokens steps).store.Numbered := by
  obtain ⟨hrange, hcounter⟩ := createdIds_eq_range tokens steps hfew
  intro id r hr
  have hid : id ∈ createdIds tokens steps := by
    rw [stored_iff_created, hr]
    rfl
  rw [hrange, List.mem_range, ← hcounter] at hid
  exact ⟨((inv_reached tokens steps).records id r hr).id_eq, hid⟩

/-- In every state reached by fewer than 2^64 creations: following the cursors of `list_aids` from
    none visits all stored records, those of `list_aids_by_donor` all records of the donor, whatever
    the limits of the pages. -/
theorem pagination_visits_all (tokens : TokenLedger) (steps : List (Step me Entry))
    (hfew : (createdIds tokens steps).length < 2 ^ 64) :
    Visits (reached tokens steps).store (fun _ => True) (reached tokens steps).store.listAids
        (reached tokens steps).store.records ∧
      ∀ donor, Visits (reached tokens steps).store (fun r => r.donor = donor)
        ((reached tokens steps).store.listAidsByDonor donor)
        ((reached tokens steps).store.records.filter fun r => r.donor = donor) := by
  have hnumbered := numbered_reached tokens steps hfew
  refine ⟨visits_all hnumbered, fun donor => ?_⟩
  have hvisits := visits_filter hnumbered fun r => r.donor = donor
  simp only [decide_eq_true_iff] at hvisits
  exact hvisits

/-- After the run `donorsRun` the donor `⟨1⟩` has the records 0 and 2: the pages of one record each
    visit them across the boundary, and leave out that of the donor `⟨3⟩` between them. -/
theorem pagination_visits_all_donors :
    ∃ pages,
      followPages
        (fun _ cursor => (reached donorsFunds donorsRun).store.listAidsByDonor ⟨1⟩ 1 cursor)
        4 0 none = some pages ∧
      pages.map (List.map AidRecord.id) = [[0], [2]] ∧
      pages.flatten = (reached donorsFunds donorsRun).store.records.filter fun r =>
        r.donor = ⟨1⟩ := by
  have hvisits := (pagination_visits_all donorsFunds donorsRun (by decide)).2 ⟨1⟩
  obtain ⟨pages, hpages, hflatten, -⟩ := hvisits.pages (fun _ => 1) fun _ => le_rfl
  refine ⟨pages, hpages, ?_, hflatten⟩
  have heval : followPages
      (fun _ cursor => (reached donorsFunds donorsRun).store.listAidsByDonor ⟨1⟩ 1 cursor)
      4 0 none =
        some [[⟨0, ⟨1⟩, ⟨2⟩, ⟨9⟩, 60, 10, .pending⟩], [⟨2, ⟨1⟩, ⟨4⟩, ⟨9⟩, 20, 12, .pending⟩]] := rfl
  obtain rfl := Option.some.inj (hpages.symm.trans heval)
  rfl

end Trellis.Aid
