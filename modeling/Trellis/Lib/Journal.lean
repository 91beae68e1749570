import Mathlib

/-!
# Journals

A journal is a list of entries, some of which book a change on an account; a booking can also state
the balance that it leaves. `folded book log k` adds up what a journal books on the account `k`. A
journal accounts for balances (`Accounts`) when they are what it books, and every balance it states
is the one it had booked up to there.

Results:
* `Accounts.post`: a booking is entered, and the balance of its account is changed by it.
* `Accounts.note`: an entry that books nothing is entered.
-/

namespace Trellis

/-- A change on an account, and the balance it states to leave there. -/
structure Booking (κ : Type) where
  account : κ
  change : ℤ
  balance : Option ℤ
  deriving DecidableEq

variable {E κ : Type} [DecidableEq κ] (book : E → Option (Booking κ))

/-- What an entry books on the account `k`. -/
def posted (e : E) (k : κ) : ℤ :=
  match book e with
  | some b => if b.account = k then b.change else 0
  | none => 0

/-- What a journal books on the account `k`, entry by entry. -/
def folded (log : List E) (k : κ) : ℤ := log.foldl (fun balance e => balance + posted book e k) 0

/-- The journal accounts for the balances. -/
structure Accounts (log : List E) (balance : κ → ℤ) : Prop where
  agrees (k : κ) : balance k = folded book log k
  stated (pre post : List E) (e : E) (b : Booking κ) (n : ℤ) : log = pre ++ e :: post →
    book e = some b → b.balance = some n → n = folded book (pre ++ [e]) b.account

section

variable {book} {log : List E} {balance balance' : κ → ℤ} {e : E} {k : κ}

@[simp] theorem folded_nil (k : κ) : folded book [] k = 0 := rfl

theorem folded_concat (log : List E) (e : E) (k : κ) :
    folded book (log ++ [e]) k = folded book log k + posted book e k := by
  unfold folded
  rw [List.foldl_concat]

theorem posted_none (he : book e = none) (k : κ) : posted book e k = 0 := by
  unfold posted
  rw [he]

theorem folded_notes {notes : List E} (h : ∀ e ∈ notes, book e = none) (log : List E) (k : κ) :
    folded book (log ++ notes) k = folded book log k := by
  induction notes generalizing log with
  | nil => rw [List.append_nil]
  | cons e notes ih =>
    rw [List.forall_mem_cons] at h
    rw [List.append_cons, ih h.2, folded_concat, posted_none h.1, add_zero]

theorem posted_some {b : Booking κ} (he : book e = some b) (k : κ) :
    posted book e k = if b.account = k then b.change else 0 := by
  unfold posted
  rw [he]

theorem Accounts.nil (h : ∀ k, balance k = 0) : Accounts book [] balance := by
  constructor
  · intro k
    rw [h k, folded_nil]
  · intro pre post e b n hsplit
    simp at hsplit

/-- An entry is the last one of a longer journal, or stands in the journal before. -/
theorem split_concat {pre post : List E} {e' : E} (h : log ++ [e] = pre ++ e' :: post) :
    (log = pre ∧ e = e') ∨ ∃ post', log = pre ++ e' :: post' := by
  rcases List.eq_nil_or_concat post with rfl | ⟨post', last, rfl⟩
  · have happend := List.append_inj' h rfl
    exact .inl ⟨happend.1, List.singleton_injective happend.2⟩
  · have happend : log ++ [e] = (pre ++ e' :: post') ++ [last] := by
      rw [h, List.concat_eq_append, List.append_assoc, List.cons_append]
    exact .inr ⟨post', (List.append_inj' happend rfl).1⟩

/-- A booking is entered, and the balance of its account is changed by it. -/
theorem Accounts.post (h : Accounts book log balance) {b : Booking κ} (he : book e = some b)
    (hbalance : ∀ k, balance' k = balance k + if b.account = k then b.change else 0)
    (hstated : ∀ n, b.balance = some n → n = balance' b.account) :
    Accounts book (log ++ [e]) balance' := by
  have hagrees : ∀ k, balance' k = folded book (log ++ [e]) k := by
    intro k
    rw [folded_concat, posted_some he, hbalance, h.agrees]
  constructor
  · exact hagrees
  · intro pre post e' b' n hsplit he' hn
    rcases split_concat hsplit with ⟨rfl, rfl⟩ | ⟨post', hlog⟩
    · rw [he] at he'
      obtain rfl := Option.some.inj he'
      rw [hstated n hn, hagrees]
    · exact h.stated pre post' e' b' n hlog he' hn

/-- An entry that books nothing is entered. -/
theorem Accounts.note (h : Accounts book log balance) (he : book e = none) :
    Accounts book (log ++ [e]) balance := by
  constructor
  · intro k
    rw [folded_concat, posted_none he, add_zero, h.agrees]
  · intro pre post e' b n hsplit he' hn
    rcases split_concat hsplit with ⟨-, rfl⟩ | ⟨post', hlog⟩
    · rw [he] at he'
      cases he'
    · exact h.stated pre post' e' b n hlog he' hn

end

end Trellis
