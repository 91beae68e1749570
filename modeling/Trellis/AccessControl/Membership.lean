import Trellis.AccessControl.Enumerations

/-!
# The hierarchical role check

`has_role` walks up the parents by recursion and asks each role for its members;
`get_role_ancestors` walks up by a loop and lists the roles. The two walks and the listings of the
members agree, so a grant reaches the granted role and the roles below it, and no others.

Results:
* `ancestors_of_loop`: the loop appends the roles above, nearest first.
* `climbs_of_acyclic`: without cycles the chain has every role above once.
* `hasRole_iff_listed`: the role check asks the listings of the role and of its chain.
* `hasRole_setMember`: a grant changes no check of a role that is neither the granted one nor below
  it.
* `hasRole_exact`: these in every reachable state.
-/

namespace Trellis.AccessControl

open Exec

variable {me : Address}

/-! ## The chain -/

theorem ancestorsRound_none {s : Store} {role : Symbol} (h : s.getRoleParent role = none)
    (chain : List Symbol) : s.ancestorsRound (role, chain) = .inl chain := by
  unfold Store.ancestorsRound
  dsimp only
  rw [h]

theorem ancestorsRound_some {s : Store} {role parent : Symbol}
    (h : s.getRoleParent role = some parent) (chain : List Symbol) :
    s.ancestorsRound (role, chain) = .inr (parent, chain ++ [parent]) := by
  unfold Store.ancestorsRound
  dsimp only
  rw [h]

/-- The walk of `get_role_ancestors` appends the roles above, nearest first. -/
theorem ancestors_of_loop {s : Store} {n : ℕ} {role : Symbol} {acc chain : List Symbol}
    (h : loopWithin s.ancestorsRound n (role, acc) = some chain) :
    ∃ above, chain = acc ++ above ∧ ∀ k, above[k]? = climb s.getRoleParent (k + 1) role := by
  induction n generalizing role acc with
  | zero => simp at h
  | succ n ih =>
    cases hparent : s.getRoleParent role with
    | none =>
      rw [loopWithin_done (ancestorsRound_none hparent acc)] at h
      refine ⟨[], ?_, ?_⟩
      · rw [List.append_nil, Option.some.inj h]
      · intro k
        rw [climb_succ, hparent]
        rfl
    | some parent =>
      rw [loopWithin_next (ancestorsRound_some hparent acc)] at h
      obtain ⟨above, hchain, habove⟩ := ih h
      refine ⟨parent :: above, ?_, ?_⟩
      · rw [hchain, List.append_assoc, List.singleton_append]
      · intro k
        rw [climb_succ, hparent, Option.bind_some]
        cases k with
        | zero => rfl
        | succ k =>
          rw [List.getElem?_cons_succ]
          exact habove k

/-- The chain has the roles above `role`, nearest first and each once. -/
structure Climbs (s : Store) (role : Symbol) (chain : List Symbol) : Prop where
  nearest (k : ℕ) : chain[k]? = climb s.getRoleParent (k + 1) role
  nodup : chain.Nodup
  mem (r : Symbol) : r ∈ chain ↔ ∃ k, climb s.getRoleParent (k + 1) role = some r

theorem climbs_of_acyclic {s : Store} (hacyclic : Acyclic s.getRoleParent) {role : Symbol}
    {chain : List Symbol} (h : s.getRoleAncestors role = some chain) : Climbs s role chain := by
  obtain ⟨above, hchain, habove⟩ := ancestors_of_loop h
  rw [List.nil_append] at hchain
  subst hchain
  constructor
  · exact habove
  · apply List.nodup_iff_getElem?_ne_getElem?.mpr
    intro i j hij hj hsame
    -- a role at two places would be above `role` by two numbers of hops
    have hlast : chain[j]? = some chain[j] := List.getElem?_eq_getElem hj
    rw [hlast, habove] at hsame
    rw [habove] at hlast
    have heq := hacyclic.eq_of_climb (Nat.succ_le_succ hij.le) hsame hlast
    omega
  · intro r
    rw [List.mem_iff_getElem?]
    exact exists_congr fun k => by rw [habove]

/-! ## The check -/

theorem hasRole_of_acyclic {s : Store} (h : Acyclic s.getRoleParent) (role : Symbol)
    (user : Address) : ∃ answer, s.hasRole role user = some answer :=
  loopWithin_of_acyclic (membershipRound_moves s user) h (mem_keys_of_getRoleParent s) role

/-- The role check finds the user in the listing of the role or of one in its chain. -/
theorem hasRole_iff_listed {s : Store} {role : Symbol} {chain : List Symbol} {user : Address}
    {answer : Bool} (hchain : Climbs s role chain) (h : s.hasRole role user = some answer) :
    answer = true ↔
      user ∈ s.getRoleMembers role ∨ ∃ r ∈ chain, user ∈ s.getRoleMembers r := by
  rw [hasRole_iff h]
  constructor
  · rintro ⟨k, r, hclimb, hmember⟩
    cases k with
    | zero =>
      rw [← Option.some.inj hclimb] at hmember
      exact .inl (mem_getRoleMembers_iff.mpr hmember)
    | succ k =>
      exact .inr ⟨r, (hchain.mem r).mpr ⟨k, hclimb⟩, mem_getRoleMembers_iff.mpr hmember⟩
  · rintro (hdirect | ⟨r, hr, habove⟩)
    · exact ⟨0, role, rfl, mem_getRoleMembers_iff.mp hdirect⟩
    · obtain ⟨k, hclimb⟩ := (hchain.mem r).mp hr
      exact ⟨k + 1, r, hclimb, mem_getRoleMembers_iff.mp habove⟩

/-- A grant or a revocation changes no check of a role that is neither that role nor below it. -/
theorem hasRole_setMember {s : Store} (hacyclic : Acyclic s.getRoleParent) {role written : Symbol}
    (hnot : ∀ k, climb s.getRoleParent k role ≠ some written) (grantee user : Address)
    (held : Bool) : (s.setMember written grantee held).hasRole role user = s.hasRole role user := by
  have hacyclic' : Acyclic (s.setMember written grantee held).getRoleParent := hacyclic
  obtain ⟨answer, hanswer⟩ := hasRole_of_acyclic hacyclic role user
  obtain ⟨answer', hanswer'⟩ := hasRole_of_acyclic hacyclic' role user
  have hsame : ∀ k r, climb s.getRoleParent k role = some r →
      (s.setMember written grantee held).isMember r user = s.isMember r user := by
    intro k r hclimb
    rw [isMember_setMember]
    apply if_neg
    rintro ⟨rfl, -⟩
    exact hnot k hclimb
  have hiff : answer' = true ↔ answer = true := by
    rw [hasRole_iff hanswer, hasRole_iff hanswer']
    show (∃ k r, climb s.getRoleParent k role = some r ∧ _) ↔ _
    refine exists_congr fun k => exists_congr fun r => and_congr_right fun hclimb => ?_
    rw [hsame k r hclimb]
  rw [hanswer, hanswer', Bool.eq_iff_iff.mpr hiff]

/-- In every reachable state the chain of a role has the roles above it, nearest first and each
    once, the role check finds the members of the role and of the roles in its chain, and a grant of
    a role that is neither that role nor in its chain leaves the check alone. -/
theorem hasRole_exact (tokens : TokenLedger) (steps : List (Step me Entry)) (role : Symbol) :
    ∃ chain, (run step (deployed tokens) steps).store.getRoleAncestors role = some chain ∧
      Climbs (run step (deployed tokens) steps).store role chain ∧
      (∀ user, ∃ answer,
        (run step (deployed tokens) steps).store.hasRole role user = some answer ∧
          (answer = true ↔
            user ∈ (run step (deployed tokens) steps).store.getRoleMembers role ∨
              ∃ r ∈ chain, user ∈ (run step (deployed tokens) steps).store.getRoleMembers r)) ∧
      ∀ (env : Env me) (caller : Address) (granted : Symbol) (grantee user : Address),
        granted ≠ role → granted ∉ chain →
          (step (.call env (.grantRole caller granted grantee))
              (run step (deployed tokens) steps)).store.hasRole role user =
            (run step (deployed tokens) steps).store.hasRole role user := by
  have hacyclic := (hierarchy_reached tokens steps).acyclic
  generalize run step (deployed tokens) steps = w at hacyclic
  obtain ⟨chain, hwalk⟩ := loopWithin_of_acyclic (ancestorsRound_moves w.store) hacyclic
    (mem_keys_of_getRoleParent w.store) (role, [])
  have hchain : Climbs w.store role chain := climbs_of_acyclic hacyclic hwalk
  refine ⟨chain, hwalk, hchain, ?_, ?_⟩
  · intro user
    obtain ⟨answer, hanswer⟩ := hasRole_of_acyclic hacyclic role user
    exact ⟨answer, hanswer, hasRole_iff_listed hchain hanswer⟩
  · intro env caller granted grantee user hne hnot
    have hnowhere : ∀ k, climb w.store.getRoleParent k role ≠ some granted := by
      intro k hclimb
      cases k with
      | zero => exact hne (Option.some.inj hclimb).symm
      | succ k => exact hnot ((hchain.mem granted).mpr ⟨k, hclimb⟩)
    rcases exec_returns env (.grantRole caller granted grantee) w with ⟨-, hsame⟩ | ⟨-, hdone⟩
    · show (exec env (.grantRole caller granted grantee) w).store.hasRole role user = _
      rw [hsame]
    · show (exec env (.grantRole caller granted grantee) w).store.hasRole role user = _
      generalize exec env (.grantRole caller granted grantee) w = w' at hdone ⊢
      cases hdone with
      | grantRole => exact hasRole_setMember hacyclic hnowhere grantee user true

end Trellis.AccessControl
