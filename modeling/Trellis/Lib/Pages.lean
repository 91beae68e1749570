import Mathlib

/-!
# Reading a list page by page

A list of keys is read from a cursor on. Each key is resolved to a value, or to none when there is
no value under it, until the page holds `limit` values or the list ends. The page states the cursor
at which the next one starts, if the list goes on.

Results:
* `fillPage_spec`: a page resolves the keys from its cursor to the next one.
* `fillPage_items`: it holds the first values of these keys, as many as there is room for.
* `follow_pageAt`: the pages from a cursor on, one after another, hold the values of all keys from
  there on, in order.
* `followPages_spec`: the same when every page is asked for with a limit of its own, and no page
  holds more than that.
* `filterMap_range'_of_none`, `filterMap_range'_update`: the values of the numbers up to a bound,
  when there are none beyond some number, and when one is added beyond all others.
-/

namespace Trellis

variable {ι β : Type}

/-- A page, and the cursor of the next one. -/
structure Page (β : Type) where
  items : List β
  next : Option ℕ
  deriving DecidableEq, Repr

/-- Goes over the keys until `limit` values are found. Returns the index it stops at, and the
    values. -/
def fillPage (resolve : ι → Option β) (limit : ℕ) : List ι → ℕ → List β → ℕ × List β
  | [], index, found => (index, found)
  | key :: keys, index, found =>
    if found.length < limit then
      fillPage resolve limit keys (index + 1) (found ++ (resolve key).toList)
    else (index, found)

/-- The page at the cursor. -/
def pageAt (resolve : ι → Option β) (keys : List ι) (limit cursor : ℕ) : Page β :=
  let filled := fillPage resolve limit (keys.drop cursor) cursor []
  ⟨filled.2, if filled.1 < keys.length then some filled.1 else none⟩

/-- The values of the pages from the cursor on, when there are at most `fuel` of them. -/
def follow (page : ℕ → Page β) : ℕ → ℕ → Option (List β)
  | 0, _ => none
  | fuel + 1, cursor =>
    match (page cursor).next with
    | none => some (page cursor).items
    | some next => (follow page fuel next).map ((page cursor).items ++ ·)

/-- The pages from the cursor on, when there are at most `fuel` of them. The `n`-th request is
    `request n`; the first one may have no cursor. -/
def followPages (request : ℕ → Option ℕ → Page β) : ℕ → ℕ → Option ℕ → Option (List (List β))
  | 0, _, _ => none
  | fuel + 1, n, cursor =>
    match (request n cursor).next with
    | none => some [(request n cursor).items]
    | some next =>
      (followPages request fuel (n + 1) (some next)).map ((request n cursor).items :: ·)

section

variable {resolve : ι → Option β} {limit : ℕ}

/-- A page resolves some of the keys, from the first on: all of them, or as many as fill it. -/
theorem fillPage_spec (keys : List ι) (index : ℕ) (found : List β) :
    ∃ n ≤ keys.length, fillPage resolve limit keys index found =
        (index + n, found ++ (keys.take n).filterMap resolve) ∧
      (found.length < limit → keys ≠ [] → 0 < n) := by
  induction keys generalizing index found with
  | nil => exact ⟨0, le_rfl, by simp [fillPage], fun _ hne => absurd rfl hne⟩
  | cons key keys ih =>
    unfold fillPage
    split_ifs with hroom
    · obtain ⟨n, hle, heq, -⟩ := ih (index + 1) (found ++ (resolve key).toList)
      refine ⟨n + 1, Nat.succ_le_succ hle, ?_, fun _ _ => Nat.succ_pos n⟩
      rw [heq, List.take_succ_cons, List.filterMap_cons, List.append_assoc, Nat.add_assoc,
        Nat.add_comm 1 n]
      cases resolve key <;> rfl
    · exact ⟨0, Nat.zero_le _, by simp, fun h => absurd h hroom⟩

/-- What a page holds: the first values of the keys, as many as there is room for. -/
theorem fillPage_items (keys : List ι) (index : ℕ) {found : List β} (h : found.length ≤ limit) :
    (fillPage resolve limit keys index found).2 =
      found ++ (keys.filterMap resolve).take (limit - found.length) := by
  induction keys generalizing index found with
  | nil => simp [fillPage]
  | cons key keys ih =>
    unfold fillPage
    split_ifs with hroom
    · cases hkey : resolve key with
      | none =>
        rw [Option.toList_none, List.append_nil, ih (index + 1) h, List.filterMap_cons_none hkey]
      | some b =>
        have hlength : (found ++ [b]).length = found.length + 1 := List.length_append
        rw [Option.toList_some, ih (index + 1) (by rw [hlength]; exact hroom),
          List.filterMap_cons_some hkey, List.append_assoc, hlength,
            List.take_cons (by omega), Nat.sub_sub]
        rfl
    · rw [Nat.sub_eq_zero_of_le (Nat.le_of_not_lt hroom), List.take_zero, List.append_nil]

theorem length_fillPage (keys : List ι) (index : ℕ) :
    (fillPage resolve limit keys index []).2.length ≤ limit := by
  rw [fillPage_items keys index (Nat.zero_le _), List.nil_append]
  exact List.length_take_le _ _

/-- What a page holds, and where the next one starts. -/
theorem pageAt_spec (resolve : ι → Option β) (keys : List ι) (limit cursor : ℕ) :
    ∃ n ≤ (keys.drop cursor).length, pageAt resolve keys limit cursor =
        ⟨((keys.drop cursor).take n).filterMap resolve,
          if cursor + n < keys.length then some (cursor + n) else none⟩ ∧
      (0 < limit → cursor + n < keys.length → 0 < n) ∧
      (pageAt resolve keys limit cursor).items.length ≤ limit := by
  obtain ⟨n, hle, heq, hsome⟩ := @fillPage_spec ι β resolve limit (keys.drop cursor) cursor []
  have hpage : pageAt resolve keys limit cursor =
      ⟨((keys.drop cursor).take n).filterMap resolve,
        if cursor + n < keys.length then some (cursor + n) else none⟩ := by
    unfold pageAt
    rw [heq, List.nil_append]
  refine ⟨n, hle, hpage, fun hlimit hmore => hsome hlimit ?_, length_fillPage _ _⟩
  intro hempty
  have hlength := congrArg List.length hempty
  rw [List.length_drop, List.length_nil] at hlength
  omega

theorem take_drop_of_last {keys : List ι} {cursor n : ℕ} (h : ¬ cursor + n < keys.length) :
    (keys.drop cursor).take n = keys.drop cursor := by
  apply List.take_of_length_le
  rw [List.length_drop]
  omega

/-- The pages from the cursor on hold the values of all keys from there on, in order. -/
theorem follow_pageAt (hlimit : 0 < limit) (keys : List ι) {fuel cursor : ℕ}
    (hfuel : keys.length < fuel + cursor) (hpos : 0 < fuel) :
    follow (pageAt resolve keys limit) fuel cursor =
      some ((keys.drop cursor).filterMap resolve) := by
  induction fuel generalizing cursor with
  | zero => exact absurd hpos (lt_irrefl 0)
  | succ fuel ih =>
    obtain ⟨n, -, hpage, hsome, -⟩ := pageAt_spec resolve keys limit cursor
    unfold follow
    rw [hpage]
    by_cases hmore : cursor + n < keys.length
    · have hn : 0 < n := hsome hlimit hmore
      have hrest : follow (pageAt resolve keys limit) fuel (cursor + n) =
          some ((keys.drop (cursor + n)).filterMap resolve) := ih (by omega) (by omega)
      rw [if_pos hmore]
      dsimp only
      rw [hrest, Option.map_some, ← List.filterMap_append, ← List.drop_drop, List.take_append_drop]
    · rw [if_neg hmore]
      dsimp only
      rw [take_drop_of_last hmore]

theorem lengths_cons {limits : ℕ → ℕ} {n : ℕ} {first : List β} {pages : List (List β)}
    (hfirst : first.length ≤ limits n)
    (hrest : ∀ i page, pages[i]? = some page → page.length ≤ limits (n + 1 + i)) (i : ℕ)
    (page : List β) (hi : (first :: pages)[i]? = some page) : page.length ≤ limits (n + i) := by
  cases i with
  | zero =>
    rw [List.getElem?_cons_zero] at hi
    rw [← Option.some.inj hi]
    exact hfirst
  | succ i =>
    rw [List.getElem?_cons_succ] at hi
    have hlength := hrest i page hi
    rwa [Nat.add_right_comm, Nat.add_assoc] at hlength

/-- Pages that are asked for with limits of their own hold together the values of all keys from the
    cursor on, in order. -/
theorem followPages_spec {request : ℕ → Option ℕ → Page β} {keys : List ι} {limits : ℕ → ℕ}
    (hrequest : ∀ n cursor, request n cursor = pageAt resolve keys (limits n) (cursor.getD 0))
    (hlimits : ∀ n, 0 < limits n) {fuel n : ℕ} {cursor : Option ℕ}
    (hfuel : keys.length < fuel + cursor.getD 0) (hpos : 0 < fuel) :
    ∃ pages, followPages request fuel n cursor = some pages ∧
      pages.flatten = (keys.drop (cursor.getD 0)).filterMap resolve ∧
      ∀ i page, pages[i]? = some page → page.length ≤ limits (n + i) := by
  induction fuel generalizing n cursor with
  | zero => exact absurd hpos (lt_irrefl 0)
  | succ fuel ih =>
    obtain ⟨m, -, hpage, hsome, hlength⟩ := pageAt_spec resolve keys (limits n) (cursor.getD 0)
    rw [hpage] at hlength
    unfold followPages
    rw [hrequest, hpage]
    by_cases hmore : cursor.getD 0 + m < keys.length
    · have hm : 0 < m := hsome (hlimits n) hmore
      obtain ⟨pages, hpages, hflatten, hlengths⟩ :=
        @ih (n + 1) (some (cursor.getD 0 + m)) (by rw [Option.getD_some]; omega) (by omega)
      rw [if_pos hmore]
      dsimp only
      rw [hpages, Option.map_some]
      refine ⟨_, rfl, ?_, lengths_cons hlength hlengths⟩
      rw [List.flatten_cons, hflatten, Option.getD_some, ← List.filterMap_append, ← List.drop_drop,
        List.take_append_drop]
    · rw [if_neg hmore]
      dsimp only
      refine ⟨_, rfl, ?_, lengths_cons hlength fun i page hi => absurd hi (by simp)⟩
      rw [take_drop_of_last hmore, List.flatten_singleton]

end

/-! ## Numbers as keys -/

/-- Numbers that have no value can be left out. -/
theorem filterMap_range'_of_none {f : ℕ → Option β} {n m : ℕ} (hle : n ≤ m)
    (hnone : ∀ k, n < k → f k = none) :
    (List.range' 1 m).filterMap f = (List.range' 1 n).filterMap f := by
  have hrest : (List.range' (1 + n) (m - n)).filterMap f = [] := by
    refine List.filterMap_eq_nil_iff.mpr fun k hk => hnone k ?_
    have hlow := (List.mem_range'_1.mp hk).1
    omega
  have hsplit : List.range' 1 m = List.range' 1 n ++ List.range' (1 + n) (m - n) := by
    rw [List.range'_append_1, Nat.add_sub_cancel' hle]
  rw [hsplit, List.filterMap_append, hrest, List.append_nil]

/-- A value that is added after all others is the last. -/
theorem filterMap_range'_update {f : ℕ → Option β} {k n : ℕ} (hle : k + 1 ≤ n)
    (hnone : ∀ i, k + 1 ≤ i → f i = none) (b : β) :
    (List.range' 1 n).filterMap (Function.update f (k + 1) (some b)) =
      (List.range' 1 n).filterMap f ++ [b] := by
  have hbefore : (List.range' 1 k).filterMap (Function.update f (k + 1) (some b)) =
      (List.range' 1 k).filterMap f := by
    refine List.filterMap_congr fun i hi => Function.update_of_ne ?_ _ _
    have hhigh := (List.mem_range'_1.mp hi).2
    omega
  have hafter : ∀ i, k + 1 < i → Function.update f (k + 1) (some b) i = none := by
    intro i hi
    rw [Function.update_of_ne (Nat.ne_of_gt hi)]
    exact hnone i hi.le
  rw [filterMap_range'_of_none hle hafter, filterMap_range'_of_none (Nat.le_of_succ_le hle) hnone,
    List.range'_concat, List.filterMap_append, hbefore, Nat.one_mul, Nat.add_comm 1 k]
  simp

end Trellis
