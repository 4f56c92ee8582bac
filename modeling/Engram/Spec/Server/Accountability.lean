import Engram.Spec.Server.Agreement

/-!
Fork accountability in `EngramTendermint.tla`: what evidence of double signing a run can leave,
and what one process's messages in a round say.
-/

set_option autoImplicit false
set_option relaxedAutoImplicit false

namespace Engram.Spec.Server

open Engram.Types Engram.Library

variable {Node : Type} [DecidableEq Node] {k : ServerConstants Node}

section Definitions

variable (k : ServerConstants Node) (s : State Node)

/-- I1. -/
def AgreementOnValue : Prop :=
  ∀ p ∈ k.honestNodes, ∀ q ∈ k.honestNodes, ∀ d ∈ s.decision p, ∀ d' ∈ s.decision q,
    d.prop.value = d'.prop.value

def DoubleSigningEvidence : Prop :=
  ∃ r ≤ k.maxRound, ∃ p ∈ k.system.nodes,
    (∃ m₁ ∈ s.msgsPrevote r, ∃ m₂ ∈ s.msgsPrevote r,
      m₁.src = p ∧ m₂.src = p ∧ m₁.id ≠ m₂.id) ∨
    (∃ m₁ ∈ s.msgsPrecommit r, ∃ m₂ ∈ s.msgsPrecommit r,
      m₁.src = p ∧ m₂.src = p ∧ m₁.id ≠ m₂.id) ∨
    ∃ m₁ ∈ s.msgsPropose r, ∃ m₂ ∈ s.msgsPropose r,
      m₁.src = p ∧ m₂.src = p ∧ m₁.proposal ≠ m₂.proposal

/-- I6. -/
def Accountability : Prop := ¬ AgreementOnValue k s → DoubleSigningEvidence k s

end Definitions

section PrecommitOnce

variable {κ : Type} {key : Proposal → κ} {accepts : Proposal → Prop} {c c' : Core Node}

def PrecommitOnce (k : ServerConstants Node) (c : Core Node) : Prop :=
  ∀ r, ∀ m ∈ c.msgsPrecommit r, ∀ m' ∈ c.msgsPrecommit r,
    m.src ∈ k.honestNodes → m.src = m'.src → m = m'

private theorem Timeline.fresh_precommit (timeline : Timeline k c) {q : Node} {r : ℕ}
    {m : Vote Node}
    (honest : q ∈ k.honestNodes) (atPrevote : c.step q = .prevote) (current : r = c.round q)
    (member : m ∈ c.msgsPrecommit r) : m.src ≠ q := by
  rintro rfl
  have past := timeline.precommit_past r m member honest
  rw [Core.stage_of_step atPrevote, current] at past
  simp only [Phase.index] at past
  omega

private theorem CoreStep.precommit_added (step : CoreStep k key accepts c c') {r : ℕ}
    {m : Vote Node} (member : m ∈ c'.msgsPrecommit r) (new : m ∉ c.msgsPrecommit r) {m' : Vote Node}
    (member' : m' ∈ c'.msgsPrecommit r) (new' : m' ∉ c.msgsPrecommit r) : m = m' := by
  cases step with
  | precommitNil p honest atPrevote =>
      rcases (mem_update_insert _ _ _ _ _).mp member with old | ⟨-, rfl⟩
      · exact absurd old new
      · rcases (mem_update_insert _ _ _ _ _).mp member' with old' | ⟨-, rfl⟩
        · exact absurd old' new'
        · rfl
  | lock p msg honest atPrevote proposed quorum =>
      rcases (mem_update_insert _ _ _ _ _).mp member with old | ⟨-, rfl⟩
      · exact absurd old new
      · rcases (mem_update_insert _ _ _ _ _).mp member' with old' | ⟨-, rfl⟩
        · exact absurd old' new'
        · rfl
  | _ => exact absurd member new

theorem PrecommitOnce.step (once : PrecommitOnce k c) (timeline : Timeline k c)
    (step : CoreStep k key accepts c c') : PrecommitOnce k c' := by
  intro r m member m' member' honest same
  by_cases old : m ∈ c.msgsPrecommit r
  · by_cases old' : m' ∈ c.msgsPrecommit r
    · exact once r m old m' old' honest same
    · rcases step.precommit_cases member' with before | ⟨honest', atPrevote, current, -⟩
      · exact absurd before old'
      · exact absurd same (timeline.fresh_precommit honest' atPrevote current old)
  · rcases step.precommit_cases member with before | ⟨-, atPrevote, current, -⟩
    · exact absurd before old
    · by_cases old' : m' ∈ c.msgsPrecommit r
      · exact absurd same.symm (timeline.fresh_precommit honest atPrevote current old')
      · exact step.precommit_added member old member' old'

theorem ServerRun.precommitOnce {past : List (Move (State Node) (Action Node))} {now : State Node}
    (run : ServerRun k past now) : PrecommitOnce k now.core := by
  obtain ⟨start, initial, run⟩ := run
  induction run with
  | initial =>
      obtain ⟨clock, -, rfl⟩ := initial
      intro r m member m' _ honest
      exact absurd honest fun present =>
        QuorumSystem.not_faulty present (mem_faultyVotes member).1
  | extend before taken ih =>
      have whole : ServerRun k _ _ := ⟨start, initial, before⟩
      have core := whole.coreInvariant fun m _ => honoursLock_value k m.source m.input
      exact ih.step core.timeline (core_step (honoursLock_value k _ _) taken)

end PrecommitOnce

section Evidence

variable {past : List (Move (State Node) (Action Node))} {now : State Node}

private theorem votes_agree {votes : Finset (Vote Node)}
    (sender : ∀ m ∈ votes, m.id ≠ none → m.src ∈ k.honestNodes)
    (once : ∀ m ∈ votes, ∀ m' ∈ votes, m.src ∈ k.honestNodes → m.src = m'.src → m = m')
    {m₁ m₂ : Vote Node} (first : m₁ ∈ votes) (second : m₂ ∈ votes) (same : m₁.src = m₂.src) :
    m₁.id = m₂.id := by
  by_contra differ
  have voted : m₁.id ≠ none ∨ m₂.id ≠ none := by
    by_contra nil
    push Not at nil
    exact differ (nil.1.trans nil.2.symm)
  have honest : m₁.src ∈ k.honestNodes := by
    rcases voted with one | two
    · exact sender m₁ first one
    · rw [same]
      exact sender m₂ second two
  exact differ (congrArg Vote.id (once m₁ first m₂ second honest same))

theorem not_doubleSigning {κ : Type} {key : Proposal → κ} (core : CoreInvariant k key now.core)
    (once : PrecommitOnce k now.core) : ¬ DoubleSigningEvidence k now := by
  rintro ⟨r, -, p, -, prevotes | precommits | proposals⟩
  · obtain ⟨m₁, first, m₂, second, src₁, src₂, differ⟩ := prevotes
    exact differ (votes_agree (fun m member => (core.formed.prevote_sender r m member).2.2)
      (core.timeline.prevote_once r) first second (src₁.trans src₂.symm))
  · obtain ⟨m₁, first, m₂, second, src₁, src₂, differ⟩ := precommits
    exact differ (votes_agree (fun m member => (core.formed.precommit_sender r m member).2.2)
      (once r) first second (src₁.trans src₂.symm))
  · obtain ⟨m₁, first, m₂, second, -, -, differ⟩ := proposals
    exact differ (congrArg ProposalMsg.proposal
      (core.formed.propose_unique r m₁ first m₂ second))

/-- No run of `ServerSpec`, of any size, leaves evidence of double signing, by honest or
Byzantine processes; so fork accountability holds there exactly because agreement does. -/
theorem no_double_signing (run : ServerRun k past now) :
    ¬ DoubleSigningEvidence k now ∧ (Accountability k now ↔ AgreementOnValue k now) ∧
      Accountability k now := by
  have core := run.coreInvariant fun m _ => honoursLock_value k m.source m.input
  have agreed : AgreementOnValue k now := fun p _ q _ d decided d' decided' =>
    core.agreement decided decided'
  exact ⟨not_doubleSigning core run.precommitOnce,
    ⟨fun _ => agreed, fun _ broken => absurd agreed broken⟩,
    fun broken => absurd agreed broken⟩

/-- Two nodes decide, and nobody signed twice. -/
theorem no_double_signing_decided :
    ∃ past now, ServerRun (checkedConstants oneByzantine fun _ => 0) past now ∧
      now.decision 0 ≠ none ∧
      ¬ DoubleSigningEvidence (checkedConstants oneByzantine fun _ => 0) now := by
  obtain ⟨past, now, run, passed⟩ := exists_serverRun decidingTrace
    (fun _ s => decide (s.decision 0 ≠ none))
    (by decide +kernel : replayPasses
      (ServerNext (checkedConstants oneByzantine fun _ => 0)) _ decidingTrace _ = true)
  exact ⟨past, now, run, of_decide_eq_true passed, (no_double_signing run).1⟩

end Evidence

end Engram.Spec.Server
