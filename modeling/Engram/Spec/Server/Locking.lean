import Engram.Spec.Server.Voting

/-!
The invariants of the voting core. A node's progress is one number, four stages to a
round, and every vote and lock of an honest node lies at or below its stage; this
orders an honest node's votes, and with the lock rule it makes the votes of every
reachable core lawful.
-/

set_option autoImplicit false
set_option relaxedAutoImplicit false

namespace Engram.Spec.Server

open Engram.Types Engram.Library

variable {Node : Type} [DecidableEq Node]

def Phase.index : Phase → ℕ
  | .propose => 0
  | .prevote => 1
  | .precommit => 2
  | .decided => 3

theorem Phase.index_le (phase : Phase) : phase.index ≤ 3 := by
  cases phase <;> decide

namespace Core

/-- The progress of a node: its round and the phase within it. -/
def stage (c : Core Node) (q : Node) : ℕ := 4 * c.round q + (c.step q).index

omit [DecidableEq Node] in
theorem stage_of_step {c : Core Node} {q : Node} {phase : Phase} (atPhase : c.step q = phase) :
    c.stage q = 4 * c.round q + phase.index := by
  rw [stage, atPhase]

end Core

namespace CoreStep

variable {κ : Type} {k : ServerConstants Node} {key : Proposal → κ}
  {accepts : Proposal → Prop} {c c' : Core Node}

theorem stage_le (step : CoreStep k key accepts c c') (q : Node) : c.stage q ≤ c'.stage q := by
  have bounded := (c.step q).index_le
  cases step with
  | idle => exact Nat.le_refl _
  | propose msg _ _ _ _ => exact Nat.le_refl _
  | prevote p id _ atPropose _ _ =>
      by_cases same : q = p
      · subst same
        simp [Core.stage, Core.addPrevote, atPropose, Phase.index]
      · simp [Core.stage, Core.addPrevote, same]
  | precommitNil p _ atPrevote =>
      by_cases same : q = p
      · subst same
        simp [Core.stage, Core.addPrecommit, atPrevote, Phase.index]
      · simp [Core.stage, Core.addPrecommit, same]
  | lock p msg _ atPrevote _ _ =>
      by_cases same : q = p
      · subst same
        simp [Core.stage, Core.addLock, Core.addPrecommit, atPrevote, Phase.index]
      · simp [Core.stage, Core.addLock, Core.addPrecommit, same]
  | enter p r forward _ =>
      by_cases same : q = p
      · subst same
        simp only [Core.stage, Core.enter, Function.update_self]
        omega
      · simp [Core.stage, Core.enter, same]
  | decide p msg _ _ _ _ =>
      by_cases same : q = p
      · subst same
        have last : Phase.decided.index = 3 := rfl
        simp only [Core.stage, Core.decide, Function.update_self]
        omega
      · simp [Core.stage, Core.decide, same]

theorem propose_mono (step : CoreStep k key accepts c c') {r : ℕ} {m : ProposalMsg Node}
    (member : m ∈ c.msgsPropose r) : m ∈ c'.msgsPropose r := by
  cases step with
  | propose msg _ _ _ _ => exact (mem_update_insert _ _ _ _ _).mpr (.inl member)
  | _ => exact member

private theorem prevote_mono (step : CoreStep k key accepts c c') {r : ℕ} {m : Vote Node}
    (member : m ∈ c.msgsPrevote r) : m ∈ c'.msgsPrevote r := by
  cases step with
  | prevote p id _ _ _ _ => exact (mem_update_insert _ _ _ _ _).mpr (.inl member)
  | _ => exact member

private theorem precommit_mono (step : CoreStep k key accepts c c') {r : ℕ} {m : Vote Node}
    (member : m ∈ c.msgsPrecommit r) : m ∈ c'.msgsPrecommit r := by
  cases step with
  | precommitNil p _ _ => exact (mem_update_insert _ _ _ _ _).mpr (.inl member)
  | lock p msg _ _ _ _ => exact (mem_update_insert _ _ _ _ _).mpr (.inl member)
  | _ => exact member

private theorem quorumFor_mono {votes votes' : ℕ → Finset (Vote Node)} {r : ℕ} {b : Proposal}
    (grows : ∀ m ∈ votes r, m ∈ votes' r) (quorum : Core.QuorumFor k votes r b) :
    Core.QuorumFor k votes' r b := by
  refine Nat.le_trans quorum (Finset.card_le_card ?_)
  intro m member
  obtain ⟨present, voted⟩ := Finset.mem_filter.mp member
  exact Finset.mem_filter.mpr ⟨grows m present, voted⟩

private theorem prevoteQuorum_mono (step : CoreStep k key accepts c c') {r : ℕ} {b : Proposal}
    (quorum : Core.QuorumFor k c.msgsPrevote r b) : Core.QuorumFor k c'.msgsPrevote r b :=
  quorumFor_mono (fun _ => step.prevote_mono) quorum

theorem precommitQuorum_mono (step : CoreStep k key accepts c c') {r : ℕ} {b : Proposal}
    (quorum : Core.QuorumFor k c.msgsPrecommit r b) : Core.QuorumFor k c'.msgsPrecommit r b :=
  quorumFor_mono (fun _ => step.precommit_mono) quorum

private theorem propose_cases (step : CoreStep k key accepts c c') {r : ℕ} {m : ProposalMsg Node}
    (member : m ∈ c'.msgsPropose r) : m ∈ c.msgsPropose r ∨
      ((m.src ∈ k.system.nodes ∧ m.src = k.proposer r ∧ m.round = r) ∧
        (∀ m' ∈ c.msgsPropose r, m'.src ≠ m.src) ∧
        (m.src ∈ k.honestNodes → r = c.round m.src) ∧ c' = c.addProposal m) := by
  cases step with
  | propose msg known leader fresh current =>
      rcases (mem_update_insert _ _ _ _ _).mp member with old | ⟨rfl, rfl⟩
      · exact .inl old
      · exact .inr ⟨⟨known, leader, rfl⟩, fresh, current, rfl⟩
  | _ => exact .inl member

theorem prevote_cases (step : CoreStep k key accepts c c') {r : ℕ} {m : Vote Node}
    (member : m ∈ c'.msgsPrevote r) : m ∈ c.msgsPrevote r ∨
      (m.src ∈ k.honestNodes ∧ c.step m.src = .propose ∧ r = c.round m.src ∧ m.round = r ∧
        (∀ b ∈ m.id, accepts b ∧ c.PrevoteAllowed m.src k key b) ∧
        c' = c.addPrevote m.src m.id) := by
  cases step with
  | prevote p id honest atPropose valid allowed =>
      rcases (mem_update_insert _ _ _ _ _).mp member with old | ⟨rfl, rfl⟩
      · exact .inl old
      · exact .inr ⟨honest, atPropose, rfl, rfl,
          fun b cast => ⟨valid b cast, allowed b cast⟩, rfl⟩
  | _ => exact .inl member

/-- A new precommit is cast by an honest node in its prevote phase: for nil, or for
the proposal on which it locks. -/
theorem precommit_cases (step : CoreStep k key accepts c c') {r : ℕ} {m : Vote Node}
    (member : m ∈ c'.msgsPrecommit r) : m ∈ c.msgsPrecommit r ∨
      (m.src ∈ k.honestNodes ∧ c.step m.src = .prevote ∧ r = c.round m.src ∧ m.round = r ∧
        (m.id = none ∧ c' = c.addPrecommit m.src none ∨
          ∃ msg ∈ c.msgsPropose r, m.id = some msg.proposal ∧
            Core.QuorumFor k c.msgsPrevote r msg.proposal ∧
            c' = c.addLock m.src msg.proposal)) := by
  cases step with
  | precommitNil p honest atPrevote =>
      rcases (mem_update_insert _ _ _ _ _).mp member with old | ⟨rfl, rfl⟩
      · exact .inl old
      · exact .inr ⟨honest, atPrevote, rfl, rfl, .inl ⟨rfl, rfl⟩⟩
  | lock p msg honest atPrevote proposed quorum =>
      rcases (mem_update_insert _ _ _ _ _).mp member with old | ⟨rfl, rfl⟩
      · exact .inl old
      · exact .inr ⟨honest, atPrevote, rfl, rfl, .inr ⟨msg, proposed, rfl, quorum, rfl⟩⟩
  | _ => exact .inl member

private theorem lock_cases (step : CoreStep k key accepts c c') (q : Node) :
    (c'.lockedRound q = c.lockedRound q ∧ c'.lockedValue q = c.lockedValue q) ∨
      (c.step q = .prevote ∧ ∃ msg ∈ c.msgsPropose (c.round q),
        Core.QuorumFor k c.msgsPrevote (c.round q) msg.proposal ∧
        c' = c.addLock q msg.proposal) := by
  cases step with
  | lock p msg honest atPrevote proposed quorum =>
      by_cases same : q = p
      · subst same
        exact .inr ⟨atPrevote, msg, proposed, quorum, rfl⟩
      · exact .inl ⟨Function.update_of_ne same _ _, Function.update_of_ne same _ _⟩
  | _ => exact .inl ⟨rfl, rfl⟩

theorem decision_cases (step : CoreStep k key accepts c c') (q : Node) :
    c'.decision q = c.decision q ∨
      (c.decision q = none ∧ ∃ msg ∈ c.msgsPropose (c.round q),
        Core.QuorumFor k c.msgsPrecommit (c.round q) msg.proposal ∧
        c' = c.decide q msg.proposal) := by
  cases step with
  | decide p msg _ undecided proposed quorum =>
      by_cases same : q = p
      · subst same
        exact .inr ⟨undecided, msg, proposed, quorum, rfl⟩
      · exact .inl (Function.update_of_ne same _ _)
  | _ => exact .inl rfl

theorem fsm_cases (step : CoreStep k key accepts c c') :
    (c'.decision = c.decision ∧ c'.fsm = c.fsm) ∨
      ∃ p ∈ k.honestNodes, ∃ prop, c' = c.decide p prop := by
  cases step with
  | decide p msg honest _ _ _ => exact .inr ⟨p, honest, msg.proposal, rfl⟩
  | _ => exact .inl ⟨rfl, rfl⟩

private theorem stage_of_decided (step : CoreStep k key accepts c c') {q : Node} {r : ℕ}
    (decided : c.stage q = 4 * r + 3) (settled : c.decision q ≠ none) : c'.stage q = 4 * r + 3 := by
  have atDecided : c.step q = .decided := by
    unfold Core.stage at decided
    cases phase : c.step q with
    | decided => rfl
    | _ => rw [phase] at decided; simp only [Phase.index] at decided; omega
  cases step with
  | idle => exact decided
  | propose msg _ _ _ _ => exact decided
  | prevote p id _ atPropose _ _ =>
      have other : q ≠ p := by
        rintro rfl
        rw [atDecided] at atPropose
        cases atPropose
      simpa [Core.stage, Core.addPrevote, other] using decided
  | precommitNil p _ atPrevote =>
      have other : q ≠ p := by
        rintro rfl
        rw [atDecided] at atPrevote
        cases atPrevote
      simpa [Core.stage, Core.addPrecommit, other] using decided
  | lock p msg _ atPrevote _ _ =>
      have other : q ≠ p := by
        rintro rfl
        rw [atDecided] at atPrevote
        cases atPrevote
      simpa [Core.stage, Core.addLock, Core.addPrecommit, other] using decided
  | enter p r' _ undecided =>
      have other : q ≠ p := by
        rintro rfl
        exact undecided atDecided
      simpa [Core.stage, Core.enter, other] using decided
  | decide p msg _ undecided _ _ =>
      have other : q ≠ p := by
        rintro rfl
        exact settled undecided
      simpa [Core.stage, Core.decide, other] using decided

end CoreStep

section Invariants

variable {κ : Type} {k : ServerConstants Node} {key : Proposal → κ}
  {accepts : Proposal → Prop} {c c' : Core Node}

structure WellFormed (k : ServerConstants Node) (c : Core Node) : Prop where
  propose_leader : ∀ r, ∀ m ∈ c.msgsPropose r,
    m.src ∈ k.system.nodes ∧ m.src = k.proposer r ∧ m.round = r
  propose_unique : ∀ r, ∀ m ∈ c.msgsPropose r, ∀ m' ∈ c.msgsPropose r, m = m'
  prevote_sender : ∀ r, ∀ m ∈ c.msgsPrevote r,
    m.round = r ∧ m.src ∈ k.system.nodes ∧ (m.id ≠ none → m.src ∈ k.honestNodes)
  precommit_sender : ∀ r, ∀ m ∈ c.msgsPrecommit r,
    m.round = r ∧ m.src ∈ k.system.nodes ∧ (m.id ≠ none → m.src ∈ k.honestNodes)

theorem WellFormed.step (formed : WellFormed k c) (step : CoreStep k key accepts c c') :
    WellFormed k c' where
  propose_leader r m member := by
    rcases step.propose_cases member with old | ⟨sender, -⟩
    · exact formed.propose_leader r m old
    · exact sender
  propose_unique r m member m' member' := by
    have leads : ∀ m ∈ c.msgsPropose r, m.src = k.proposer r :=
      fun m old => (formed.propose_leader r m old).2.1
    rcases step.propose_cases member with old | ⟨⟨-, leader, -⟩, fresh, -, _⟩
    · rcases step.propose_cases member' with old' | ⟨⟨-, leader', -⟩, fresh', -, _⟩
      · exact formed.propose_unique r m old m' old'
      · exact absurd ((leads m old).trans leader'.symm) (fresh' m old)
    · rcases step.propose_cases member' with old' | ⟨⟨-, leader', -⟩, fresh', -, grown'⟩
      · exact absurd ((leads m' old').trans leader.symm) (fresh m' old')
      · -- Both are the one message this step added.
        rw [grown'] at member
        rcases (mem_update_insert _ _ _ _ _).mp member with old | ⟨_, same⟩
        · exact absurd ((leads m old).trans leader'.symm) (fresh' m old)
        · exact same
  prevote_sender r m member := by
    rcases step.prevote_cases member with old | ⟨honest, -, -, sameRound, -⟩
    · exact formed.prevote_sender r m old
    · exact ⟨sameRound, Finset.mem_union_left _ honest, fun _ => honest⟩
  precommit_sender r m member := by
    rcases step.precommit_cases member with old | ⟨honest, -, -, sameRound, -⟩
    · exact formed.precommit_sender r m old
    · exact ⟨sameRound, Finset.mem_union_left _ honest, fun _ => honest⟩

/-- The messages and locks of an honest node lie at or below its stage. -/
structure Timeline (k : ServerConstants Node) (c : Core Node) : Prop where
  propose_past : ∀ r, ∀ m ∈ c.msgsPropose r, m.src ∈ k.honestNodes → 4 * r ≤ c.stage m.src
  prevote_past : ∀ r, ∀ m ∈ c.msgsPrevote r, m.src ∈ k.honestNodes → 4 * r + 1 ≤ c.stage m.src
  precommit_past : ∀ r, ∀ m ∈ c.msgsPrecommit r, m.src ∈ k.honestNodes →
    4 * r + 2 ≤ c.stage m.src
  lock_past : ∀ q, ∀ ρ ∈ c.lockedRound q, 4 * ρ + 2 ≤ c.stage q
  prevote_once : ∀ r, ∀ m ∈ c.msgsPrevote r, ∀ m' ∈ c.msgsPrevote r,
    m.src ∈ k.honestNodes → m.src = m'.src → m = m'

private theorem Timeline.fresh_prevote (timeline : Timeline k c) {q : Node} {r : ℕ} {m : Vote Node}
    (honest : q ∈ k.honestNodes) (atPropose : c.step q = .propose) (current : r = c.round q)
    (member : m ∈ c.msgsPrevote r) : m.src ≠ q := by
  rintro rfl
  have past := timeline.prevote_past r m member honest
  rw [Core.stage_of_step atPropose, current] at past
  simp only [Phase.index] at past
  omega

theorem Timeline.step (timeline : Timeline k c) (step : CoreStep k key accepts c c') :
    Timeline k c' where
  propose_past r m member honest := by
    have forward := step.stage_le m.src
    rcases step.propose_cases member with old | ⟨-, -, current, -⟩
    · exact Nat.le_trans (timeline.propose_past r m old honest) forward
    · have low : 4 * r ≤ c.stage m.src := by
        rw [current honest]
        exact Nat.le_add_right _ _
      exact Nat.le_trans low forward
  prevote_past r m member honest := by
    have forward := step.stage_le m.src
    rcases step.prevote_cases member with old | ⟨-, -, current, -, -, voted⟩
    · exact Nat.le_trans (timeline.prevote_past r m old honest) forward
    · rw [voted, current]
      simp [Core.stage, Core.addPrevote, Phase.index]
  precommit_past r m member honest := by
    have forward := step.stage_le m.src
    rcases step.precommit_cases member with old | ⟨-, -, current, -, voted⟩
    · exact Nat.le_trans (timeline.precommit_past r m old honest) forward
    · rcases voted with ⟨-, grown⟩ | ⟨msg, -, -, -, grown⟩
      · rw [grown, current]
        simp [Core.stage, Core.addPrecommit, Phase.index]
      · rw [grown, current]
        simp [Core.stage, Core.addLock, Core.addPrecommit, Phase.index]
  lock_past q ρ locked := by
    have forward := step.stage_le q
    rcases step.lock_cases q with ⟨same, -⟩ | ⟨-, msg, -, -, grown⟩
    · rw [same] at locked
      exact Nat.le_trans (timeline.lock_past q ρ locked) forward
    · rw [grown] at locked ⊢
      simp only [Core.addLock, Function.update_self, Option.mem_def, Option.some.injEq] at locked
      rw [← locked]
      simp [Core.stage, Core.addLock, Core.addPrecommit, Phase.index]
  prevote_once r m member m' member' honest same := by
    rcases step.prevote_cases member with old | ⟨_, atPropose, current, sameRound, -, _⟩
    · rcases step.prevote_cases member' with old' | ⟨honest', atPropose', current', -, -, _⟩
      · exact timeline.prevote_once r m old m' old' honest same
      · exact absurd same (timeline.fresh_prevote honest' atPropose' current' old)
    · rcases step.prevote_cases member' with old' | ⟨_, _, _, sameRound', -, grown'⟩
      · exact absurd same.symm (timeline.fresh_prevote honest atPropose current old')
      · rw [grown'] at member
        rcases (mem_update_insert _ _ _ _ _).mp member with old | ⟨roundEq, voteEq⟩
        · exact absurd rfl (timeline.fresh_prevote honest atPropose current old)
        · rw [voteEq, ← roundEq, ← sameRound']

/-- Precommits for a proposal lock it, and a lock is left only for a later quorum. -/
structure Locking (k : ServerConstants Node) (key : Proposal → κ) (c : Core Node) : Prop where
  precommit_locks : ∀ r, ∀ m ∈ c.msgsPrecommit r, m.id ≠ none → ∃ ρ ∈ c.lockedRound m.src, r ≤ ρ
  lock_justified : ∀ q, ∀ ρ ∈ c.lockedRound q, ∃ m ∈ c.msgsPropose ρ,
    c.lockedValue q = some m.proposal.value ∧ Core.QuorumFor k c.msgsPrevote ρ m.proposal
  precommit_justified : ∀ r, ∀ m ∈ c.msgsPrecommit r, ∀ b ∈ m.id,
    Core.QuorumFor k c.msgsPrevote r b
  lock_kept : ∀ r, ∀ m ∈ c.msgsPrecommit r, ∀ b ∈ m.id, ∀ r', ∀ m' ∈ c.msgsPrevote r',
    ∀ b' ∈ m'.id, m.src ∈ k.honestNodes → m.src = m'.src → r < r' →
    key b = key b' ∨ ∃ vr b'', r ≤ vr ∧ vr < r' ∧ key b'' = key b' ∧
      Core.QuorumFor k c.msgsPrevote vr b''

private theorem Locking.of_allowed (locking : Locking k key c) (timeline : Timeline k c) {q : Node}
    {b' : Proposal} (atPropose : c.step q = .propose) (allowed : c.PrevoteAllowed q k key b')
    {r : ℕ} {m : Vote Node} (member : m ∈ c.msgsPrecommit r) (voted : m.id ≠ none)
    (own : m.src = q) :
    ∃ vr b'', r ≤ vr ∧ vr < c.round q ∧ key b'' = key b' ∧
      Core.QuorumFor k c.msgsPrevote vr b'' := by
  obtain ⟨ρ, locked, later⟩ := locking.precommit_locks r m member voted
  rw [own] at locked
  rcases allowed with nilRound | ⟨sameValue, sameKey⟩ | ⟨vr, earlier, below, quorum⟩
  · rw [nilRound] at locked
    cases locked
  · obtain ⟨msg, proposed, lockedValue, quorum⟩ := locking.lock_justified q ρ locked
    have value : msg.proposal.value = b'.value := by
      rw [lockedValue] at sameValue
      exact Option.some.inj sameValue
    have past := timeline.lock_past q ρ locked
    rw [Core.stage_of_step atPropose] at past
    simp only [Phase.index] at past
    exact ⟨ρ, msg.proposal, later, by omega, sameKey ρ locked msg proposed value, quorum⟩
  · exact ⟨vr, b', Nat.le_trans later (below ρ locked), earlier, rfl, quorum⟩

theorem Locking.step (locking : Locking k key c) (timeline : Timeline k c)
    (step : CoreStep k key accepts c c') : Locking k key c' where
  precommit_locks r m member voted := by
    rcases step.precommit_cases member with old | ⟨-, -, current, -, cast⟩
    · obtain ⟨ρ, locked, later⟩ := locking.precommit_locks r m old voted
      rcases step.lock_cases m.src with ⟨same, -⟩ | ⟨-, msg, -, -, grown⟩
      · exact ⟨ρ, by rw [same]; exact locked, later⟩
      · -- A new lock is at the current round, at or above the old one.
        have past := timeline.lock_past m.src ρ locked
        have bounded := (c.step m.src).index_le
        unfold Core.stage at past
        refine ⟨c.round m.src, by rw [grown]; exact Function.update_self _ _ _, by omega⟩
    · rcases cast with ⟨nil, -⟩ | ⟨msg, -, -, -, grown⟩
      · exact absurd nil voted
      · exact ⟨r, by rw [grown, current]; exact Function.update_self _ _ _, Nat.le_refl r⟩
  lock_justified q ρ locked := by
    rcases step.lock_cases q with ⟨same, sameValue⟩ | ⟨-, msg, proposed, quorum, grown⟩
    · rw [same] at locked
      obtain ⟨msg, proposed, value, quorum⟩ := locking.lock_justified q ρ locked
      exact ⟨msg, step.propose_mono proposed, sameValue.trans value,
        step.prevoteQuorum_mono quorum⟩
    · rw [grown] at locked
      simp only [Core.addLock, Function.update_self, Option.mem_def, Option.some.injEq] at locked
      rw [← locked]
      refine ⟨msg, step.propose_mono proposed, ?_, step.prevoteQuorum_mono quorum⟩
      rw [grown]
      exact Function.update_self _ _ _
  precommit_justified r m member b voted := by
    rcases step.precommit_cases member with old | ⟨-, -, -, -, cast⟩
    · exact step.prevoteQuorum_mono (locking.precommit_justified r m old b voted)
    · rcases cast with ⟨nil, -⟩ | ⟨msg, -, id, quorum, -⟩
      · rw [nil] at voted
        cases voted
      · rw [id] at voted
        obtain rfl := Option.some.inj voted
        exact step.prevoteQuorum_mono quorum
  lock_kept r m member b voted r' m' member' b' voted' honest same after := by
    have old' : m' ∈ c.msgsPrevote r' → 4 * r' + 1 ≤ c.stage m.src := by
      intro present
      rw [same] at honest ⊢
      exact timeline.prevote_past r' m' present honest
    rcases step.precommit_cases member with old | ⟨-, atPrevote, current, -, cast⟩
    · have nonNil : m.id ≠ none := by
        rw [voted]
        exact Option.some_ne_none b
      rcases step.prevote_cases member' with earlier | ⟨-, atPropose, current', -, allowed, -⟩
      · rcases locking.lock_kept r m old b voted r' m' earlier b' voted' honest same after with
          sameKey | ⟨vr, b'', low, high, sameKey, quorum⟩
        · exact .inl sameKey
        · exact .inr ⟨vr, b'', low, high, sameKey, step.prevoteQuorum_mono quorum⟩
      · obtain ⟨vr, b'', low, high, sameKey, quorum⟩ :=
          locking.of_allowed timeline atPropose (allowed b' voted').2 old nonNil same
        exact .inr ⟨vr, b'', low, current' ▸ high, sameKey, step.prevoteQuorum_mono quorum⟩
    · -- A new precommit is in the voter's current round, so no later prevote exists.
      rcases step.prevote_cases member' with earlier | ⟨-, atPropose, -, -, -, -⟩
      · have past := old' earlier
        rw [Core.stage_of_step atPrevote, ← current] at past
        simp only [Phase.index] at past
        omega
      · rw [← same, atPrevote] at atPropose
        cases atPropose

/-- A decided node stopped in its decision's round, on a proposal of that round with a
precommit quorum. -/
def Decided (k : ServerConstants Node) (c : Core Node) : Prop :=
  ∀ q, ∀ d ∈ c.decision q, c.stage q = 4 * d.round + 3 ∧
    (∃ m ∈ c.msgsPropose d.round, m.proposal = d.prop) ∧
    Core.QuorumFor k c.msgsPrecommit d.round d.prop

theorem Decided.step (decided : Decided k c) (step : CoreStep k key accepts c c') :
    Decided k c' := by
  intro q d settled
  rcases step.decision_cases q with same | ⟨-, msg, proposed, quorum, grown⟩
  · rw [same] at settled
    obtain ⟨stopped, ⟨m, proposed, carried⟩, quorum⟩ := decided q d settled
    have nonNil : c.decision q ≠ none := by
      rw [settled]
      exact Option.some_ne_none d
    exact ⟨step.stage_of_decided stopped nonNil, ⟨m, step.propose_mono proposed, carried⟩,
      step.precommitQuorum_mono quorum⟩
  · rw [grown] at settled
    simp only [Core.decide, Function.update_self, Option.mem_def, Option.some.injEq] at settled
    subst settled
    refine ⟨?_, ⟨msg, step.propose_mono proposed, rfl⟩, step.precommitQuorum_mono quorum⟩
    rw [grown]
    simp [Core.stage, Core.decide, Phase.index]

/-- The invariant of the voting core for a key. -/
structure CoreInvariant (k : ServerConstants Node) (key : Proposal → κ) (c : Core Node) :
    Prop where
  formed : WellFormed k c
  timeline : Timeline k c
  locking : Locking k key c
  decided : Decided k c

theorem CoreInvariant.step (invariant : CoreInvariant k key c)
    (step : CoreStep k key accepts c c') : CoreInvariant k key c' where
  formed := invariant.formed.step step
  timeline := invariant.timeline.step step
  locking := invariant.locking.step invariant.timeline step
  decided := invariant.decided.step step

theorem mem_faultyVotes {r : ℕ} {m : Vote Node} (member : m ∈ FaultyVotes k r) :
    m.src ∈ k.byzantineNodes ∧ m.round = r ∧ m.id = none := by
  obtain ⟨f, faulty, rfl⟩ := Finset.mem_image.mp member
  exact ⟨faulty, rfl, rfl⟩

theorem CoreInvariant.initial (k : ServerConstants Node) (key : Proposal → κ)
    (clock : Node → ℕ) : CoreInvariant k key (initialState k clock).core := by
  have sender : ∀ r, ∀ m ∈ FaultyVotes k r,
      m.round = r ∧ m.src ∈ k.system.nodes ∧ (m.id ≠ none → m.src ∈ k.honestNodes) := by
    intro r m member
    obtain ⟨faulty, sameRound, nil⟩ := mem_faultyVotes member
    exact ⟨sameRound, Finset.mem_union_right _ faulty, fun voted => absurd nil voted⟩
  have notHonest : ∀ r, ∀ m ∈ FaultyVotes k r, m.src ∉ k.honestNodes := by
    intro r m member honest
    exact QuorumSystem.not_faulty honest (mem_faultyVotes member).1
  have nil : ∀ r, ∀ m ∈ FaultyVotes k r, m.id = none :=
    fun r m member => (mem_faultyVotes member).2.2
  refine ⟨⟨?_, ?_, sender, sender⟩, ⟨?_, ?_, ?_, ?_, ?_⟩, ⟨?_, ?_, ?_, ?_⟩, ?_⟩
  · intro r m member
    cases member
  · intro r m member
    cases member
  · intro r m member
    cases member
  · intro r m member honest
    exact absurd honest (notHonest r m member)
  · intro r m member honest
    exact absurd honest (notHonest r m member)
  · intro q ρ locked
    cases locked
  · intro r m member m' _ honest
    exact absurd honest (notHonest r m member)
  · intro r m member voted
    exact absurd (nil r m member) voted
  · intro q ρ locked
    cases locked
  · intro r m member b voted
    rw [nil r m member] at voted
    cases voted
  · intro r m member b voted
    rw [nil r m member] at voted
    cases voted
  · intro q d settled
    cases settled

def Core.voteRecord (c : Core Node) : VoteRecord Node Proposal where
  prevoted x r b := ⟨x, r, some b⟩ ∈ c.msgsPrevote r
  precommitted x r b := ⟨x, r, some b⟩ ∈ c.msgsPrecommit r

private theorem quorum_of_quorumFor {votes : ℕ → Finset (Vote Node)} {r : ℕ} {b : Proposal}
    (sender : ∀ m ∈ votes r, m.round = r ∧ m.src ∈ k.system.nodes)
    (quorum : Core.QuorumFor k votes r b) :
    ∃ q, k.system.IsQuorum q ∧ ∀ x ∈ q, (⟨x, r, some b⟩ : Vote Node) ∈ votes r := by
  have voteOf : ∀ m ∈ votesFor (votes r) (some b), m = ⟨m.src, r, some b⟩ ∧ m ∈ votes r := by
    intro m member
    obtain ⟨present, voted⟩ := Finset.mem_filter.mp member
    have sameRound := (sender m present).1
    cases m with
    | mk src round id =>
        simp only at sameRound voted
        rw [sameRound, voted] at present ⊢
        exact ⟨rfl, present⟩
  refine ⟨(votesFor (votes r) (some b)).image Vote.src, ⟨?_, ?_⟩, ?_⟩
  · intro x member
    obtain ⟨m, voted, rfl⟩ := Finset.mem_image.mp member
    exact (sender m (voteOf m voted).2).2
  · have injective : Set.InjOn Vote.src (votesFor (votes r) (some b) : Set (Vote Node)) := by
      intro m member m' member' same
      rw [(voteOf m member).1, (voteOf m' member').1, same]
    rw [Finset.card_image_of_injOn injective]
    exact quorum
  · intro x member
    obtain ⟨m, voted, rfl⟩ := Finset.mem_image.mp member
    obtain ⟨shape, present⟩ := voteOf m voted
    rw [← shape]
    exact present

private theorem CoreInvariant.prevoteQuorum (invariant : CoreInvariant k key c) {r : ℕ}
    {b : Proposal} (quorum : Core.QuorumFor k c.msgsPrevote r b) :
    c.voteRecord.PrevoteQuorum k.system r b := by
  refine quorum_of_quorumFor ?_ quorum
  intro m member
  exact ⟨(invariant.formed.prevote_sender r m member).1,
    (invariant.formed.prevote_sender r m member).2.1⟩

theorem CoreInvariant.precommitQuorum (invariant : CoreInvariant k key c) {r : ℕ} {b : Proposal}
    (quorum : Core.QuorumFor k c.msgsPrecommit r b) :
    c.voteRecord.PrecommitQuorum k.system r b := by
  refine quorum_of_quorumFor ?_ quorum
  intro m member
  exact ⟨(invariant.formed.precommit_sender r m member).1,
    (invariant.formed.precommit_sender r m member).2.1⟩

theorem CoreInvariant.lawful (invariant : CoreInvariant k key c) :
    c.voteRecord.Lawful k.system key where
  prevote_once x honest r b b' voted voted' := by
    have same := invariant.timeline.prevote_once r _ voted _ voted' honest rfl
    exact Option.some.inj (congrArg Vote.id same)
  precommit_justified x _ r b voted :=
    invariant.prevoteQuorum (invariant.locking.precommit_justified r _ voted b rfl)
  lock_kept x honest r b r' b' voted voted' after := by
    rcases invariant.locking.lock_kept r _ voted b rfl r' _ voted' b' rfl honest rfl after with
      same | ⟨vr, b'', low, high, same, quorum⟩
    · exact .inl same
    · exact .inr ⟨vr, b'', low, high, same, invariant.prevoteQuorum quorum⟩

theorem CoreInvariant.agreement (invariant : CoreInvariant k key c) {p q : Node} {d d' : Decision}
    (first : d ∈ c.decision p) (second : d' ∈ c.decision q) : key d.prop = key d'.prop := by
  obtain ⟨-, -, quorum⟩ := invariant.decided p d first
  obtain ⟨-, -, quorum'⟩ := invariant.decided q d' second
  exact invariant.lawful.agreement (invariant.precommitQuorum quorum)
    (invariant.precommitQuorum quorum')

end Invariants

theorem ServerRun.coreInvariant {κ : Type} {k : ServerConstants Node} {key : Proposal → κ}
    {past : List (Move (State Node) (Action Node))} {now : State Node} (run : ServerRun k past now)
    (honours : ∀ m ∈ past, HonoursLock k key m.source m.input) : CoreInvariant k key now.core := by
  obtain ⟨start, ⟨clock, -, rfl⟩, run⟩ := run
  induction run with
  | initial => exact CoreInvariant.initial k key clock
  | extend _ taken ih =>
      have before := ih fun m member => honours m (List.mem_cons_of_mem _ member)
      exact before.step (core_step (honours _ (List.mem_cons_self ..)) taken)

end Engram.Spec.Server
