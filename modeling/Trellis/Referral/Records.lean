import Trellis.Referral.Graph

/-!
# Referral records and referral edges

`register` stores who referred a wallet twice: as the edge that `accrue` follows, and as the record
that `get_referral_record` returns. `set_referrer` writes the edge only.

Results:
* `agree_step_iff`: a step keeps records and edges in agreement exactly when it is no `set_referrer`
  that gives a wallet with a record another referrer.
* `records_agree_iff`: the same over every run.
-/

namespace Trellis.Referral

open Exec

variable {me : Address} {X : Type}

/-- Every record is that of its wallet, and names the referrer that the edge of the wallet leads
    to. -/
def Agree (w : World (Linked Store X)) : Prop :=
  ∀ wallet r, w.store.own.readReferralRecord wallet = some r →
    r.wallet = wallet ∧ w.store.own.readReferrer wallet = some r.referrer

/-- A `set_referrer` that passes its checks gives a wallet that has a record the referrer of the
    record. -/
def Faithful (w : World (Linked Store X)) : Step me (Entry X) → Prop
  | .call env (.setReferrer caller referredWallet referrer) =>
    w.shared.admin = some caller → env.signed caller = true → referredWallet ≠ referrer →
      w.store.own.wouldCreateCycle referredWallet referrer = false →
      ∀ r, w.store.own.readReferralRecord referredWallet = some r → r.referrer = referrer
  | _ => True

/-! ## Steps -/

theorem Agree.congr {w w' : World (Linked Store X)} (h : Agree w)
    (hrecords : w'.store.own.records = w.store.own.records)
    (hreferrers : w'.store.own.referrers = w.store.own.referrers) : Agree w' := by
  intro wallet r hr
  unfold Store.readReferralRecord at hr
  unfold Store.readReferrer
  rw [hrecords] at hr
  rw [hreferrers]
  exact h wallet r hr

/-- A new edge keeps the agreement exactly when it leads to the referrer of the record. -/
theorem agree_edge_iff {w w' : World (Linked Store X)} (h : Agree w)
    {referredWallet referrer : Address} (hrecords : w'.store.own.records = w.store.own.records)
    (hreferrers : w'.store.own.referrers = w.store.own.referrers.insert referredWallet referrer) :
    Agree w' ↔ ∀ r, w.store.own.readReferralRecord referredWallet = some r →
      r.referrer = referrer := by
  have hedge := readReferrer_set hreferrers
  constructor
  · intro hafter r hr
    have hr' : w'.store.own.readReferralRecord referredWallet = some r := by
      unfold Store.readReferralRecord
      rw [hrecords]
      exact hr
    have hnames := (hafter referredWallet r hr').2
    rw [hedge, Function.update_self] at hnames
    exact (Option.some.inj hnames).symm
  · intro hsame wallet r hr
    unfold Store.readReferralRecord at hr
    rw [hrecords] at hr
    rw [hedge]
    by_cases hwallet : wallet = referredWallet
    · rw [hwallet] at hr ⊢
      rw [Function.update_self, hsame r hr]
      exact ⟨(h referredWallet r hr).1, rfl⟩
    · rw [Function.update_of_ne hwallet]
      exact h wallet r hr

/-- A registration writes a record and the edge that it names. -/
theorem Agree.register {w w' : World (Linked Store X)} (h : Agree w) {wallet referrer : Address}
    (hrecords : w'.store.own.records = w.store.own.records.insert wallet ⟨wallet, referrer, 0, 0⟩)
    (hreferrers : w'.store.own.referrers = w.store.own.referrers.insert wallet referrer) :
    Agree w' := by
  intro a r hr
  unfold Store.readReferralRecord at hr
  rw [hrecords, Table.lookup_set] at hr
  rw [readReferrer_set hreferrers]
  split_ifs at hr with ha
  · obtain rfl := Option.some.inj hr
    rw [ha, Function.update_self]
    exact ⟨rfl, rfl⟩
  · rw [Function.update_of_ne ha]
    exact h a r hr

/-- A step keeps records and edges in agreement exactly when it is faithful. -/
theorem agree_step_iff {w : World (Linked Store X)} (h : Agree w) (s : Step me (Entry X)) :
    Agree (step s w) ↔ Faithful w s := by
  rcases step_cases s w with ⟨env, c, rfl, -, hdone⟩ | ⟨hfails, hstore, -⟩
  · generalize step (.call env c) w = w' at hdone
    cases hdone with
    | setReferrer events hadmin hsigned hne hcycle =>
      constructor
      · intro hafter _ _ _ _
        refine (agree_edge_iff h ?_ ?_).mp hafter
        · rfl
        · rfl
      · intro hfaithful
        refine (agree_edge_iff h ?_ ?_).mpr (hfaithful hadmin hsigned hne hcycle)
        · rfl
        · rfl
    | register => exact iff_of_true (h.register rfl rfl) trivial
    | accrue w' maxTiers rewardCap rates hadmin hsigned hpos hmaxTiers hcap hrates heach =>
      obtain ⟨accrued, lifetimeAccrued, events, rfl⟩ := frame_of_credited heach
      exact iff_of_true (h.congr rfl rfl) trivial
    | init => exact iff_of_true (h.congr rfl rfl) trivial
    | setTreasury => exact iff_of_true (h.congr rfl rfl) trivial
    | setRegistry => exact iff_of_true (h.congr rfl rfl) trivial
    | setTierConfig => exact iff_of_true (h.congr rfl rfl) trivial
    | claimNothing => exact iff_of_true h trivial
    | claimRewards => exact iff_of_true (h.congr rfl rfl) trivial
  · refine iff_of_true (h.congr (by rw [hstore]) (by rw [hstore])) ?_
    cases s with
    | outside => trivial
    | call env c =>
      cases c with
      | setReferrer caller referredWallet referrer =>
        -- the call would have returned
        intro hadmin hsigned hne hcycle
        refine absurd ?_ (hfails env _ rfl)
        exact returns_of_places ⟨rfl, rfl, hadmin, hsigned⟩ hcycle
      | _ => trivial

/-! ## Every run -/

/-- Over every run from the deployment, records and edges agree in every state exactly when every
    `set_referrer` that passes its checks leaves the referrer of a recorded wallet as it is. -/
theorem records_agree_iff (x : X) (tokens : TokenLedger) (steps : List (Step me (Entry X))) :
    (∀ y ∈ trace step (deployed x tokens) steps, ∀ wallet r,
      (step y.2 y.1).store.own.readReferralRecord wallet = some r →
        r.wallet = wallet ∧ (step y.2 y.1).store.own.readReferrer wallet = some r.referrer) ↔
      ∀ y ∈ trace step (deployed x tokens) steps, Faithful y.1 y.2 := by
  refine trace_forall_iff (P := fun _ => True) (G := Agree) (N := fun _ _ => True) (Q := Faithful)
    (fun _ _ _ _ => trivial) (fun w s _ _ h => agree_step_iff h s) trivial ?_ fun _ _ => trivial
  rintro wallet r ⟨⟩

/-- The wallet `⟨12⟩` registers below `⟨11⟩`, and the admin then moves it below `⟨13⟩`. -/
def movedRun : List (Step ⟨0⟩ (Entry Unit)) :=
  [.call (.signedBy ⟨0⟩ 1 1 [⟨1⟩]) (.init ⟨1⟩),
    .call (.signedBy ⟨0⟩ 2 2 [⟨1⟩]) (.setReferrer ⟨1⟩ ⟨11⟩ ⟨10⟩),
    .call (.signedBy ⟨0⟩ 3 3 [⟨12⟩]) (.register ⟨12⟩ ⟨11⟩),
    .call (.signedBy ⟨0⟩ 4 4 [⟨1⟩]) (.setReferrer ⟨1⟩ ⟨12⟩ ⟨13⟩)]

/-- The record of the wallet still names `⟨11⟩`. -/
theorem records_disagree :
    ¬ ∀ y ∈ trace step (deployed () (.ofList [])) movedRun, ∀ wallet r,
      (step y.2 y.1).store.own.readReferralRecord wallet = some r →
        r.wallet = wallet ∧ (step y.2 y.1).store.own.readReferrer wallet = some r.referrer := by
  intro h
  have hmoved : (reached () (.ofList []) (movedRun.take 3),
      .call (.signedBy ⟨0⟩ 4 4 [⟨1⟩]) (.setReferrer ⟨1⟩ ⟨12⟩ ⟨13⟩)) ∈
        trace step (deployed () (.ofList [])) movedRun :=
    mem_trace_iff.mpr ⟨movedRun.take 3, [], rfl, rfl⟩
  have hrecord : (reached () (.ofList []) movedRun).store.own.readReferralRecord ⟨12⟩ =
      some ⟨⟨12⟩, ⟨11⟩, 0, 0⟩ := by decide
  have hreferrer : (reached () (.ofList []) movedRun).store.own.readReferrer ⟨12⟩ = some ⟨13⟩ := by
    decide
  have hsame := (h _ hmoved ⟨12⟩ _ hrecord).2
  exact absurd (hreferrer.symm.trans hsame) (by decide)

end Trellis.Referral
