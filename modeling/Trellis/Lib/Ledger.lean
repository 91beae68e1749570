import Mathlib

/-!
# Ledgers of token balances

A `Ledger T A` holds the balance of every holder in `A` of every token in `T`, and the log of the
transfers that were made. `move` makes one transfer, `moveAll` a list of them in order.

Results:
* `sent_moveAll`: what a holder has sent grows by what it sends.
* `balance_moveAll`: every balance changes by the net amount the transfers bring to it.
* `Covers.balance_nonneg`: transfers of what the senders have leave no balance negative.
* `sum_moveAll`: transfers among some holders keep the sum of their balances.
* `netAll_nonneg`: a holder that signs none of the transfers never loses.
* `netAll_of_src_eq`: a holder that signs all the transfers loses what goes to others.
-/

namespace Trellis

variable {T A : Type} [DecidableEq T] [DecidableEq A]

/-- `amount` of `token` goes from `src` to `dst`. -/
structure Transfer (T A : Type) where
  token : T
  src : A
  dst : A
  amount : ℤ
  deriving DecidableEq, Repr

/-- The balances of all tokens and the log of the transfers made. -/
structure Ledger (T A : Type) where
  balance : T → A → ℤ
  log : List (Transfer T A)

/-- The ledger in which the only balances are those listed. -/
def Ledger.ofList (xs : List (T × A × ℤ)) : Ledger T A where
  balance t a := (xs.find? fun x => x.1 = t ∧ x.2.1 = a).elim 0 fun x => x.2.2
  log := []

theorem Ledger.ofList_nonneg {xs : List (T × A × ℤ)} (h : ∀ x ∈ xs, 0 ≤ x.2.2) (t : T) (a : A) :
    0 ≤ (Ledger.ofList xs).balance t a := by
  show 0 ≤ (xs.find? fun x => x.1 = t ∧ x.2.1 = a).elim 0 fun x => x.2.2
  cases hx : xs.find? fun x => x.1 = t ∧ x.2.1 = a with
  | none => exact le_rfl
  | some x => exact h x (List.mem_of_find?_eq_some hx)

/-- What the transfer brings to the balance of `a` in the token `t`. -/
def Transfer.net (t : T) (a : A) (x : Transfer T A) : ℤ :=
  if x.token = t then (if x.dst = a then x.amount else 0) - (if x.src = a then x.amount else 0)
  else 0

/-- What a list of transfers brings to the balance of `a` in the token `t`. -/
def netAll (t : T) (a : A) (xs : List (Transfer T A)) : ℤ := (xs.map (Transfer.net t a)).sum

/-- The transfer, unless its amount is not positive. -/
def Transfer.ifPos (x : Transfer T A) : List (Transfer T A) := if x.amount > 0 then [x] else []

namespace Ledger

/-- Takes the amount from the sender and then gives it to the receiver. -/
def move (l : Ledger T A) (x : Transfer T A) : Ledger T A :=
  let debited := Function.update (l.balance x.token) x.src (l.balance x.token x.src - x.amount)
  let credited := Function.update debited x.dst (debited x.dst + x.amount)
  { balance := Function.update l.balance x.token credited, log := l.log ++ [x] }

/-- Makes the transfers in order. -/
def moveAll (l : Ledger T A) (xs : List (Transfer T A)) : Ledger T A := xs.foldl move l

@[simp] theorem moveAll_nil (l : Ledger T A) : l.moveAll [] = l := rfl

@[simp] theorem moveAll_cons (l : Ledger T A) (x : Transfer T A) (xs : List (Transfer T A)) :
    l.moveAll (x :: xs) = (l.move x).moveAll xs := rfl

theorem moveAll_append (l : Ledger T A) (xs ys : List (Transfer T A)) :
    l.moveAll (xs ++ ys) = (l.moveAll xs).moveAll ys :=
  List.foldl_append

theorem moveAll_concat (l : Ledger T A) (xs : List (Transfer T A)) (x : Transfer T A) :
    l.moveAll (xs ++ [x]) = (l.moveAll xs).move x :=
  moveAll_append l xs [x]

theorem balance_move (l : Ledger T A) (x : Transfer T A) (t : T) (a : A) :
    (l.move x).balance t a = l.balance t a + x.net t a := by
  unfold move Transfer.net
  by_cases ht : x.token = t
  · subst ht
    by_cases hd : x.dst = a <;> by_cases hs : x.src = a <;>
      simp [Function.update_apply, hd, hs, eq_comm]
    all_goals grind
  · simp [Function.update_apply, ht, Ne.symm ht]

@[simp] theorem log_move (l : Ledger T A) (x : Transfer T A) : (l.move x).log = l.log ++ [x] := rfl

end Ledger

@[simp] theorem netAll_nil (t : T) (a : A) : netAll t a [] = 0 := rfl

@[simp] theorem netAll_cons (t : T) (a : A) (x : Transfer T A) (xs : List (Transfer T A)) :
    netAll t a (x :: xs) = x.net t a + netAll t a xs := by
  simp [netAll]

@[simp] theorem netAll_append (t : T) (a : A) (xs ys : List (Transfer T A)) :
    netAll t a (xs ++ ys) = netAll t a xs + netAll t a ys := by
  simp [netAll]

/-- Every balance changes by the net amount that the transfers bring to it. -/
theorem Ledger.balance_moveAll (l : Ledger T A) (xs : List (Transfer T A)) (t : T) (a : A) :
    (l.moveAll xs).balance t a = l.balance t a + netAll t a xs := by
  induction xs generalizing l with
  | nil => simp
  | cons x xs ih => rw [moveAll_cons, ih, balance_move, netAll_cons]; ring

@[simp] theorem Ledger.log_moveAll (l : Ledger T A) (xs : List (Transfer T A)) :
    (l.moveAll xs).log = l.log ++ xs := by
  induction xs generalizing l with
  | nil => simp
  | cons x xs ih => simp [ih]

/-! ## What a holder has sent -/

/-- The transfers of the token `t` that the holder `a` has sent, in order. -/
def Ledger.sent (l : Ledger T A) (t : T) (a : A) : List (Transfer T A) :=
  l.log.filter fun x => decide (x.token = t) && decide (x.src = a)

theorem Ledger.sent_moveAll (l : Ledger T A) (xs : List (Transfer T A)) (t : T) (a : A) :
    (l.moveAll xs).sent t a =
      l.sent t a ++ xs.filter fun x => decide (x.token = t) && decide (x.src = a) := by
  unfold Ledger.sent
  rw [Ledger.log_moveAll, List.filter_append]

theorem Ledger.sent_moveAll_others (l : Ledger T A) {xs : List (Transfer T A)} {t : T} {a : A}
    (h : ∀ x ∈ xs, x.token ≠ t ∨ x.src ≠ a) : (l.moveAll xs).sent t a = l.sent t a := by
  have hnone : (xs.filter fun x => decide (x.token = t) && decide (x.src = a)) = [] := by
    rw [List.filter_eq_nil_iff]
    intro x hx
    have hother := h x hx
    simp only [Bool.and_eq_true, decide_eq_true_eq, not_and_or]
    exact hother
  rw [Ledger.sent_moveAll, hnone, List.append_nil]

theorem Ledger.sent_move (l : Ledger T A) (token : T) (a dst : A) (amount : ℤ) (t : T) :
    (l.move ⟨token, a, dst, amount⟩).sent t a =
      l.sent t a ++ if token = t then [⟨token, a, dst, amount⟩] else [] := by
  have hsent := Ledger.sent_moveAll l [⟨token, a, dst, amount⟩] t a
  rw [Ledger.moveAll_cons, Ledger.moveAll_nil] at hsent
  rw [hsent]
  split_ifs with htoken
  · simp [htoken]
  · simp [htoken]

/-! ## Covered transfers -/

/-- The transfers, made one after the other, are of amounts that are not negative and that the
    senders have. -/
def Ledger.Covers : Ledger T A → List (Transfer T A) → Prop
  | _, [] => True
  | l, x :: xs => (0 ≤ x.amount ∧ x.amount ≤ l.balance x.token x.src) ∧ (l.move x).Covers xs

theorem Ledger.Covers.append {l : Ledger T A} {xs ys : List (Transfer T A)} (hxs : l.Covers xs)
    (hys : (l.moveAll xs).Covers ys) : l.Covers (xs ++ ys) := by
  induction xs generalizing l with
  | nil => exact hys
  | cons x xs ih => exact ⟨hxs.1, ih hxs.2 hys⟩

theorem Ledger.Covers.amount_nonneg {l : Ledger T A} {xs : List (Transfer T A)} (h : l.Covers xs) :
    ∀ x ∈ xs, 0 ≤ x.amount := by
  induction xs generalizing l with
  | nil => exact fun x hx => absurd hx List.not_mem_nil
  | cons x xs ih => exact List.forall_mem_cons.mpr ⟨h.1.1, ih h.2⟩

/-! ## Net amounts -/

theorem Transfer.net_nonneg {t : T} {a : A} {x : Transfer T A} (hs : x.src ≠ a)
    (h : 0 ≤ x.amount) : 0 ≤ x.net t a := by
  unfold Transfer.net
  split_ifs <;> simp_all

theorem Transfer.neg_amount_le_net {t : T} {a : A} {x : Transfer T A} (h : 0 ≤ x.amount) :
    - x.amount ≤ x.net t a := by
  unfold Transfer.net
  split_ifs <;> omega

/-- The amount if the token is `t`, and nothing otherwise. -/
def amountIn (token t : T) (amount : ℤ) : ℤ := if token = t then amount else 0

theorem amountIn_add (token t : T) (m n : ℤ) :
    amountIn token t (m + n) = amountIn token t m + amountIn token t n := by
  unfold amountIn
  split_ifs <;> omega

theorem amountIn_sub (token t : T) (m n : ℤ) :
    amountIn token t (m - n) = amountIn token t m - amountIn token t n := by
  unfold amountIn
  split_ifs <;> omega

@[simp] theorem amountIn_zero (token t : T) : amountIn token t 0 = 0 := by
  unfold amountIn
  split_ifs <;> rfl

theorem Transfer.net_deposit {token t : T} {src a : A} (hs : src ≠ a) (n : ℤ) :
    Transfer.net t a ⟨token, src, a, n⟩ = amountIn token t n := by
  simp [Transfer.net, amountIn, hs]

theorem Transfer.net_payout {token t : T} {dst a : A} (hd : dst ≠ a) (n : ℤ) :
    Transfer.net t a ⟨token, a, dst, n⟩ = - amountIn token t n := by
  unfold Transfer.net amountIn
  split_ifs <;> simp_all

/-- What a holder sends is at most the amount; less if it goes to itself. -/
theorem Transfer.neg_amountIn_le_net {token t : T} {dst a : A} {n : ℤ} (hn : 0 ≤ n) :
    - amountIn token t n ≤ Transfer.net t a ⟨token, a, dst, n⟩ := by
  unfold Transfer.net amountIn
  split_ifs <;> simp_all

omit [DecidableEq T] [DecidableEq A] in
theorem Transfer.mem_ifPos {x y : Transfer T A} : x ∈ y.ifPos ↔ x = y ∧ 0 < y.amount := by
  unfold Transfer.ifPos
  split_ifs with hpos
  · rw [List.mem_singleton]
    exact ⟨fun h => ⟨h, hpos⟩, And.left⟩
  · exact iff_of_false List.not_mem_nil fun h => hpos h.2

/-- Leaving out a transfer of nothing makes no difference. -/
theorem netAll_ifPos {t : T} {a : A} {x : Transfer T A} (h : 0 ≤ x.amount) :
    netAll t a x.ifPos = x.net t a := by
  unfold Transfer.ifPos
  split_ifs with hpos
  · simp
  · have hzero : x.amount = 0 := by omega
    simp [Transfer.net, hzero]

theorem Ledger.Covers.balance_nonneg {l : Ledger T A} {xs : List (Transfer T A)} (h : l.Covers xs)
    (hl : ∀ t a, 0 ≤ l.balance t a) (t : T) (a : A) : 0 ≤ (l.moveAll xs).balance t a := by
  induction xs generalizing l with
  | nil => exact hl t a
  | cons x xs ih =>
    refine ih h.2 fun t a => ?_
    obtain ⟨hamount, hcovered⟩ := h.1
    have hbefore := hl t a
    rw [Ledger.balance_move]
    unfold Transfer.net
    split_ifs with ht hd hs hs
    · omega
    · omega
    · rw [ht, hs] at hcovered
      omega
    · omega
    · omega

/-- Transfers signed by other holders never take from `a`. -/
theorem netAll_nonneg {t : T} {a : A} {xs : List (Transfer T A)} (hs : ∀ x ∈ xs, x.src ≠ a)
    (h : ∀ x ∈ xs, 0 ≤ x.amount) : 0 ≤ netAll t a xs := by
  refine List.sum_nonneg fun y hy => ?_
  obtain ⟨x, hx, rfl⟩ := List.mem_map.mp hy
  exact Transfer.net_nonneg (hs x hx) (h x hx)

/-- A transfer between two of the holders changes nothing in what they bring together. -/
theorem Transfer.sum_net (t : T) {x : Transfer T A} {holders : Finset A} (hsrc : x.src ∈ holders)
    (hdst : x.dst ∈ holders) : ∑ a ∈ holders, x.net t a = 0 := by
  unfold Transfer.net
  split_ifs
  · rw [Finset.sum_sub_distrib, Finset.sum_ite_eq, Finset.sum_ite_eq, if_pos hdst,
      if_pos hsrc, sub_self]
  · exact Finset.sum_const_zero

/-- Transfers among the holders keep the sum of their balances. -/
theorem Ledger.sum_moveAll (l : Ledger T A) {xs : List (Transfer T A)} (t : T) {holders : Finset A}
    (h : ∀ x ∈ xs, x.src ∈ holders ∧ x.dst ∈ holders) :
    ∑ a ∈ holders, (l.moveAll xs).balance t a = ∑ a ∈ holders, l.balance t a := by
  induction xs generalizing l with
  | nil => rfl
  | cons x xs ih =>
    rw [List.forall_mem_cons] at h
    rw [moveAll_cons, ih (l.move x) h.2]
    simp only [balance_move]
    rw [Finset.sum_add_distrib, Transfer.sum_net t h.1.1 h.1.2, add_zero]

/-- The sum of the amounts that go to others than `a`. -/
def sumToOthers (a : A) (xs : List (Transfer T A)) : ℤ :=
  ((xs.filter fun x => x.dst ≠ a).map Transfer.amount).sum

omit [DecidableEq T] in
@[simp] theorem sumToOthers_append (a : A) (xs ys : List (Transfer T A)) :
    sumToOthers a (xs ++ ys) = sumToOthers a xs + sumToOthers a ys := by
  simp [sumToOthers]

omit [DecidableEq T] in
theorem sumToOthers_ifPos (a : A) (x : Transfer T A) :
    sumToOthers a x.ifPos = if x.dst = a then 0 else max x.amount 0 := by
  unfold Transfer.ifPos sumToOthers
  by_cases hpos : x.amount > 0
  · have hmax : max x.amount 0 = x.amount := max_eq_left hpos.le
    by_cases hd : x.dst = a <;> simp [hpos, hd, hmax]
  · have hmax : max x.amount 0 = 0 := max_eq_right (by omega)
    simp [hpos, hmax]

/-- A holder that signs all the transfers, in one token, loses what goes to others. -/
theorem netAll_of_src_eq {token : T} {a : A} {xs : List (Transfer T A)}
    (h : ∀ x ∈ xs, x.token = token ∧ x.src = a) (t : T) :
    netAll t a xs = - amountIn token t (sumToOthers a xs) := by
  induction xs with
  | nil => simp [sumToOthers]
  | cons x xs ih =>
    rw [List.forall_mem_cons] at h
    obtain ⟨⟨htoken, hsrc⟩, hxs⟩ := h
    rw [netAll_cons, ih hxs]
    by_cases hd : x.dst = a
    · simp [Transfer.net, sumToOthers, hd, hsrc]
    · have hsum : sumToOthers a (x :: xs) = x.amount + sumToOthers a xs := by
        simp [sumToOthers, hd]
      rw [hsum, amountIn_add]
      simp only [Transfer.net, amountIn, htoken, hsrc, hd, if_true, if_false]
      split_ifs <;> omega

end Trellis
