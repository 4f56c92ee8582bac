import Engram.Spec.Server.Agreement

/-!
The semantic firewall of `ServerSpec`. Validity is read against sensors that keep
changing, so a decision is traced back to the step of the run in which an honest node
prevoted for the proposal and checked it.
-/

set_option autoImplicit false
set_option relaxedAutoImplicit false

namespace Engram.Spec.Server

open Engram.Types Engram.Library

variable {Node : Type} [DecidableEq Node]

def CastsPrevote (m : Move (State Node) (Action Node)) (q : Node) (r : ℕ) (b : Proposal) : Prop :=
  m.source.round q = r ∧ ⟨q, r, some b⟩ ∉ m.source.msgsPrevote r ∧
    ⟨q, r, some b⟩ ∈ m.target.msgsPrevote r

variable {k : ServerConstants Node} {past : List (Move (State Node) (Action Node))}
  {now : State Node}

private theorem prevote_checked (run : ServerRun k past now) {r : ℕ} {q : Node} {b : Proposal}
    (voted : (⟨q, r, some b⟩ : Vote Node) ∈ now.msgsPrevote r) :
    q ∈ k.honestNodes ∧
      ∃ m ∈ past, CastsPrevote m q r b ∧ IsValidProposal k m.source.env b := by
  obtain ⟨start, ⟨clock, -, rfl⟩, run⟩ := run
  induction run with
  | initial => exact absurd (mem_faultyVotes voted).2.2 (Option.some_ne_none b)
  | @extend past now next input _ taken ih =>
      by_cases old : (⟨q, r, some b⟩ : Vote Node) ∈ now.msgsPrevote r
      · obtain ⟨honest, m, member, cast, valid⟩ := ih old
        exact ⟨honest, m, List.mem_cons_of_mem _ member, cast, valid⟩
      · have step := core_step (honoursLock_value k now input) taken
        rcases step.prevote_cases voted with before | ⟨honest, -, current, -, checked, -⟩
        · exact absurd before old
        · exact ⟨honest, _, List.mem_cons_self .., ⟨current.symm, old, voted⟩, (checked b rfl).1⟩

theorem precommitQuorum_checked (run : ServerRun k past now) {r : ℕ} {b : Proposal}
    (quorum : Core.QuorumFor k now.msgsPrecommit r b) :
    ∃ m ∈ past, ∃ q ∈ k.honestNodes, CastsPrevote m q r b ∧ IsValidProposal k m.source.env b := by
  have invariant := run.coreInvariant fun m _ => honoursLock_value k m.source m.input
  have justified := invariant.lawful.prevoteQuorum_of_precommitQuorum
    (invariant.precommitQuorum quorum)
  obtain ⟨voters, isQuorum, voted⟩ := justified
  obtain ⟨q, member, -⟩ := isQuorum.exists_honest
  obtain ⟨honest, m, taken, cast, valid⟩ := prevote_checked run (voted q member)
  exact ⟨m, taken, q, honest, cast, valid⟩

theorem IsValidProposal.attested {e : Environment} {b : Proposal} (valid : IsValidProposal k e b)
    (bound : b.fsmState = .anchored ∨ b.fsmState = .recovering) :
    b.daReceipt.attestation = true ∧
      b.btcReceipt.checkpointBlockHash =
        ExpectedBlockHash b.btcReceipt.checkpointBlockHeight := by
  obtain ⟨-, -, -, da, btc, -, -⟩ := valid
  exact ⟨(da (.inl bound)).1, (btc (.inl bound)).2.2.2⟩

private theorem IsValidProposal.noWithdrawal {e : Environment} {b : Proposal}
    (valid : IsValidProposal k e b)
    (degraded : b.fsmState = .sovereign ∨ b.fsmState = .recovering) :
    b.value ≠ .txWithdrawal := by
  obtain ⟨-, -, -, -, -, breaker, -⟩ := valid
  exact breaker degraded

/-- Every proposal an honest node decided was valid in an earlier state of the run in
which an honest node prevoted for it, and so carries what validity demands of its state. -/
theorem semantic_firewall (run : ServerRun k past now) :
    ∀ p ∈ k.honestNodes, ∀ d ∈ now.decision p,
      (∃ m ∈ past, ∃ q ∈ k.honestNodes, CastsPrevote m q d.round d.prop ∧
        IsValidProposal k m.source.env d.prop) ∧
      (d.prop.fsmState = .anchored ∨ d.prop.fsmState = .recovering →
        d.prop.daReceipt.attestation = true ∧
          d.prop.btcReceipt.checkpointBlockHash =
            ExpectedBlockHash d.prop.btcReceipt.checkpointBlockHeight) ∧
      (d.prop.fsmState = .sovereign ∨ d.prop.fsmState = .recovering →
        d.prop.value ≠ .txWithdrawal) := by
  intro p _ d decided
  have invariant := run.coreInvariant fun m _ => honoursLock_value k m.source m.input
  obtain ⟨-, -, quorum⟩ := invariant.decided p d decided
  obtain ⟨m, taken, q, honest, cast, valid⟩ := precommitQuorum_checked run quorum
  exact ⟨⟨m, taken, q, honest, cast, valid⟩, valid.attested, valid.noWithdrawal⟩

theorem semantic_firewall_decided :
    ∃ past now, ServerRun (checkedConstants oneByzantine fun _ => 0) past now ∧
      ∃ d ∈ now.decision 0, d.prop.fsmState = .anchored ∧
        (∃ m ∈ past, IsValidProposal (checkedConstants oneByzantine fun _ => 0) m.source.env
          d.prop) ∧
        d.prop.daReceipt.attestation = true := by
  obtain ⟨past, now, run, passed⟩ := exists_serverRun decidingTrace
    (fun _ s => decide (s.decision 0 = some ⟨healthyProposal, 0⟩))
    (by decide +kernel : replayPasses
      (ServerNext (checkedConstants oneByzantine fun _ => 0)) _ decidingTrace _ = true)
  have decided := of_decide_eq_true passed
  obtain ⟨⟨m, member, -, -, -, valid⟩, attested, -⟩ :=
    semantic_firewall run 0 (by decide) _ decided
  exact ⟨past, now, run, _, decided, rfl, ⟨m, member, valid⟩, (attested (.inl rfl)).1⟩

end Engram.Spec.Server
