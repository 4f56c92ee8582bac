import Mathlib.Algebra.Order.Group.Nat
import Mathlib.Data.Finset.Card
import Mathlib.Tactic.Common

/-!
Byzantine quorums and locked voting. A record of votes says who prevoted and who
precommitted which ballot in which round; ballots are compared through a key. When
no honest voter leaves its lock without a later prevote quorum for the new key, two
precommit quorums carry the same key.
-/

set_option autoImplicit false
set_option relaxedAutoImplicit false

namespace Engram.Library

universe u v w

/-- A set of `3T + 1` nodes of which at most `T` are faulty. -/
structure QuorumSystem (ν : Type u) [DecidableEq ν] where
  honest : Finset ν
  faulty : Finset ν
  tolerance : ℕ
  disjoint : Disjoint honest faulty
  size : (honest ∪ faulty).card = 3 * tolerance + 1
  faulty_le : faulty.card ≤ tolerance

namespace QuorumSystem

variable {ν : Type u} [DecidableEq ν] (S : QuorumSystem ν)

def nodes : Finset ν := S.honest ∪ S.faulty

/-- A set of more than two thirds of the nodes. -/
def IsQuorum (q : Finset ν) : Prop := q ⊆ S.nodes ∧ 2 * S.tolerance + 1 ≤ q.card

variable {S}

theorem card_add_card : S.honest.card + S.faulty.card = 3 * S.tolerance + 1 := by
  rw [← S.size, Finset.card_union_of_disjoint S.disjoint]

theorem not_faulty {x : ν} (honest : x ∈ S.honest) : x ∉ S.faulty :=
  Finset.disjoint_left.mp S.disjoint honest

theorem exists_mem_honest : ∃ x, x ∈ S.honest := by
  have total := S.card_add_card
  have few := S.faulty_le
  have positive : 0 < S.honest.card := by omega
  exact Finset.card_pos.mp positive

/-- More than `T` nodes include an honest one. -/
theorem exists_honest {q : Finset ν} (known : q ⊆ S.nodes)
    (large : S.tolerance + 1 ≤ q.card) : ∃ x ∈ q, x ∈ S.honest := by
  have few := S.faulty_le
  have outside : ∃ x ∈ q, x ∉ S.faulty := by
    by_contra none
    push Not at none
    have bound : q.card ≤ S.faulty.card := Finset.card_le_card none
    omega
  obtain ⟨x, member, notFaulty⟩ := outside
  refine ⟨x, member, ?_⟩
  rcases Finset.mem_union.mp (known member) with honest | faulty
  · exact honest
  · exact absurd faulty notFaulty

theorem IsQuorum.exists_honest {q : Finset ν} (quorum : S.IsQuorum q) :
    ∃ x ∈ q, x ∈ S.honest := by
  have large := quorum.2
  exact S.exists_honest quorum.1 (by omega)

private theorem IsQuorum.meet {q q' : Finset ν} (first : S.IsQuorum q) (second : S.IsQuorum q') :
    ∃ x ∈ S.honest, x ∈ q ∧ x ∈ q' := by
  have within : (q ∪ q').card ≤ 3 * S.tolerance + 1 := by
    rw [← S.size]
    exact Finset.card_le_card (Finset.union_subset first.1 second.1)
  have counted := Finset.card_union_add_card_inter q q'
  have firstLarge := first.2
  have secondLarge := second.2
  have known : q ∩ q' ⊆ S.nodes := fun x member => first.1 (Finset.mem_inter.mp member).1
  obtain ⟨x, shared, honest⟩ := S.exists_honest known (by omega)
  exact ⟨x, honest, Finset.mem_inter.mp shared⟩

end QuorumSystem

/-- Who prevoted and who precommitted which ballot in which round. -/
structure VoteRecord (ν : Type u) (β : Type v) where
  prevoted : ν → ℕ → β → Prop
  precommitted : ν → ℕ → β → Prop

namespace VoteRecord

variable {ν : Type u} [DecidableEq ν] {β : Type v} {κ : Type w}

def PrevoteQuorum (S : QuorumSystem ν) (V : VoteRecord ν β) (r : ℕ) (b : β) : Prop :=
  ∃ q, S.IsQuorum q ∧ ∀ x ∈ q, V.prevoted x r b

def PrecommitQuorum (S : QuorumSystem ν) (V : VoteRecord ν β) (r : ℕ) (b : β) : Prop :=
  ∃ q, S.IsQuorum q ∧ ∀ x ∈ q, V.precommitted x r b

/-- The honest votes of a record follow the locking discipline for a key. -/
structure Lawful (S : QuorumSystem ν) (key : β → κ) (V : VoteRecord ν β) : Prop where
  prevote_once : ∀ x ∈ S.honest, ∀ r b b', V.prevoted x r b → V.prevoted x r b' → b = b'
  precommit_justified : ∀ x ∈ S.honest, ∀ r b, V.precommitted x r b → V.PrevoteQuorum S r b
  lock_kept : ∀ x ∈ S.honest, ∀ r b r' b', V.precommitted x r b → V.prevoted x r' b' → r < r' →
    key b = key b' ∨
      ∃ vr b'', r ≤ vr ∧ vr < r' ∧ key b'' = key b' ∧ V.PrevoteQuorum S vr b''

namespace Lawful

variable {S : QuorumSystem ν} {key : β → κ} {V : VoteRecord ν β}

private theorem prevoteQuorum_unique (lawful : V.Lawful S key) {r : ℕ} {b b' : β}
    (first : V.PrevoteQuorum S r b) (second : V.PrevoteQuorum S r b') : b = b' := by
  obtain ⟨q, quorum, voted⟩ := first
  obtain ⟨q', quorum', voted'⟩ := second
  obtain ⟨x, honest, member, member'⟩ := quorum.meet quorum'
  exact lawful.prevote_once x honest r b b' (voted x member) (voted' x member')

theorem prevoteQuorum_of_precommitQuorum (lawful : V.Lawful S key) {r : ℕ} {b : β}
    (decided : V.PrecommitQuorum S r b) : V.PrevoteQuorum S r b := by
  obtain ⟨q, quorum, voted⟩ := decided
  obtain ⟨x, member, honest⟩ := quorum.exists_honest
  exact lawful.precommit_justified x honest r b (voted x member)

private theorem key_of_later_prevoteQuorum (lawful : V.Lawful S key) {r : ℕ} {b : β}
    (decided : V.PrecommitQuorum S r b) :
    ∀ r' b', r ≤ r' → V.PrevoteQuorum S r' b' → key b' = key b := by
  intro r'
  induction r' using Nat.strong_induction_on with
  | _ r' ih =>
      intro b' later voted
      rcases Nat.eq_or_lt_of_le later with same | after
      · subst same
        have justified := lawful.prevoteQuorum_of_precommitQuorum decided
        rw [lawful.prevoteQuorum_unique voted justified]
      · obtain ⟨q, quorum, precommitted⟩ := decided
        obtain ⟨q', quorum', prevoted⟩ := voted
        obtain ⟨x, honest, member, member'⟩ := quorum.meet quorum'
        have kept := lawful.lock_kept x honest r b r' b' (precommitted x member)
          (prevoted x member') after
        rcases kept with same | ⟨vr, b'', low, high, same, unlocking⟩
        · exact same.symm
        · rw [← same]
          exact ih vr high b'' low unlocking

/-- Any two precommit quorums, of any rounds, carry the same key. -/
theorem agreement (lawful : V.Lawful S key) {r r' : ℕ} {b b' : β}
    (first : V.PrecommitQuorum S r b) (second : V.PrecommitQuorum S r' b') : key b = key b' := by
  have justified := lawful.prevoteQuorum_of_precommitQuorum first
  have justified' := lawful.prevoteQuorum_of_precommitQuorum second
  rcases Nat.le_total r r' with before | after
  · exact (lawful.key_of_later_prevoteQuorum first r' b' before justified').symm
  · exact lawful.key_of_later_prevoteQuorum second r b after justified

end Lawful

end VoteRecord

end Engram.Library
