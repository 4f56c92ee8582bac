import Engram.Spec.Server.SensorInvariants

/-!
The master invariants of `EngramServer.tla` and `EngramTendermint.tla` compare a decided
proposal with the sensors of the current state. The decision hook makes them agree once;
the environment goes on.
-/

set_option autoImplicit false
set_option relaxedAutoImplicit false

namespace Engram.Spec.Server

open Engram.Types Engram.Library

variable {Node : Type} [DecidableEq Node]

section Properties

variable (k : ServerConstants Node) (s : State Node)

def FSMStateConsistency : Prop :=
  ∀ p ∈ k.honestNodes, ∀ d ∈ s.decision p, d.prop.fsmState = s.env.state

def DAReceiptConsistency : Prop :=
  ∀ p ∈ k.honestNodes, ∀ d ∈ s.decision p,
    (d.prop.fsmState = .anchored ∨ d.prop.fsmState = .recovering) ∨
      IsDAHealthy k.toConstants s.env.vars → d.prop.daReceipt.attestation = true

def BTCConsistency : Prop :=
  ∀ p ∈ k.honestNodes, ∀ d ∈ s.decision p,
    d.prop.btcReceipt.checkpointBlockHeight = s.env.hBtcAnchored

def ZKProofConsistency : Prop :=
  ∀ p ∈ k.honestNodes, ∀ d ∈ s.decision p,
    d.prop.fsmState = .recovering ∧ s.env.safeBlocks = k.hysteresisWait →
      d.prop.zkProofRef = true

def HealthyConsistency : Prop :=
  ∀ p ∈ k.honestNodes, ∀ d ∈ s.decision p,
    (d.prop.healthy = true ↔ IsHealthyCondition k.toConstants s.env.vars)

def HybridTendermintInvariant : Prop :=
  FSMStateConsistency k s ∧ DAReceiptConsistency k s ∧ BTCConsistency k s ∧
    ZKProofConsistency k s ∧ HealthyConsistency k s

def NoCrossModeDoubleSpending : Prop :=
  ∀ p ∈ k.honestNodes, ∀ q ∈ k.honestNodes, ∀ d ∈ s.decision p, ∀ d' ∈ s.decision q,
    d.prop.btcReceipt.checkpointBlockHeight ≤ s.env.hBtcAnchored ∧
      d'.prop.fsmState = .sovereign → d'.prop.round > d.prop.round

end Properties

section Decisions

variable {k : ServerConstants Node} {s s' now : State Node} {a : Action Node} {p : Node}
  {past : List (Move (State Node) (Action Node))}

private theorem startRound_decision {r : ℕ} (taken : StartRound k s p r = some s') :
    s'.decision = s.decision := by
  obtain ⟨-, -, rfl⟩ := startRound_some taken
  rfl

private theorem handler_decision {handler : ProposeHandler} {msg : ProposalMsg Node}
    (taken : handler.run k s p msg = some s') : s'.decision = s.decision := by
  obtain ⟨-, ⟨id, rfl, -, -⟩ | ⟨-, -, -, -, started⟩⟩ := handler_cases taken
  · rfl
  · obtain ⟨-, -, rfl⟩ := startRound_some started
    rfl

private theorem messageProcessing_decision {m : MessageAction Node}
    (taken : ServerMessageProcessing k s p m = some s')
    (silent : (Action.messageProcessing p m).decides = none) : s'.decision = s.decision := by
  cases m with
  | uponProposalInPropose msg =>
      have ran : ProposeHandler.uponProposalInPropose.run k s p msg = some s' := taken
      exact handler_decision ran
  | uponProposalInProposeAndPrevote msg =>
      have ran : ProposeHandler.uponProposalInProposeAndPrevote.run k s p msg = some s' := taken
      exact handler_decision ran
  | uponProposalInPrevoteOrCommitAndPrevote msg =>
      obtain ⟨-, -, ⟨-, rfl⟩ | ⟨-, rfl⟩⟩ := uponPrevoteQuorum_some taken
      · rfl
      · rfl
  | uponQuorumOfPrecommitsAny =>
      exact startRound_decision (uponPrecommitQuorum_some taken)
  | onRoundCatchup r =>
      exact startRound_decision (Option.ite_none_right_eq_some.mp taken).2
  | uponfPlusOneTimeoutsAny r =>
      exact startRound_decision (Option.ite_none_right_eq_some.mp taken).2
  | serverInsertProposal v proofFound =>
      obtain ⟨-, -, -, -, -, rfl⟩ := serverInsertProposal_some taken
      rfl
  | serverProposerVotes handler msg own =>
      obtain ⟨handled, ran, ⟨-, -, -, rfl⟩ | ⟨-, rfl⟩⟩ := serverProposerVotes_some taken
      · have kept : handled.decision = s.decision := handler_decision ran
        exact kept
      · exact handler_decision ran
  | serverUponProposalInPrecommitNoDecision msg => cases silent
  | _ =>
      obtain ⟨-, rfl⟩ := guarded_eq_some taken
      rfl

private theorem decision_kept (taken : ServerNext k s a = some s') (silent : a.decides = none) :
    s'.decision = s.decision := by
  cases a with
  | advanceRealTime =>
      obtain ⟨-, rfl⟩ := advanceRealTime_some taken
      rfl
  | updateEnvironment u =>
      obtain rfl := Option.some.inj taken
      rfl
  | byzantinePull r =>
      obtain ⟨-, rfl⟩ := guarded_eq_some taken
      rfl
  | byzantineDataWithholding r tx =>
      obtain ⟨-, -, -, -, -, rfl⟩ := serverDataWithholding_some taken
      rfl
  | honestTimeout r caller =>
      obtain ⟨-, rfl⟩ := guarded_eq_some taken
      rfl
  | honestRoundSkip p =>
      obtain ⟨-, rfl⟩ := guarded_eq_some taken
      rfl
  | messageProcessing p m =>
      obtain ⟨-, processed⟩ := Option.ite_none_right_eq_some.mp taken
      exact messageProcessing_decision processed silent

private theorem decision_installed (run : ServerRun k past now) {d : Decision}
    (decided : d ∈ now.decision p) :
    ∃ older reached, ServerRun k older reached ∧ d ∈ reached.decision p ∧
      reached.env.hBtcAnchored = d.prop.btcReceipt.checkpointBlockHeight := by
  obtain ⟨start, init, run⟩ := run
  induction run with
  | initial =>
      obtain ⟨clock, -, rfl⟩ := init
      cases decided
  | @extend past now next input before taken ih =>
      by_cases old : d ∈ now.decision p
      · exact ih old
      · refine ⟨_, next, ⟨start, init, before.extend taken⟩, decided, ?_⟩
        cases sensorStep_of_next taken with
        | update u => exact absurd decided old
        | decide q msg proposed quorum =>
            have latest : Function.update now.decision q (some ⟨msg.proposal, now.round q⟩) p =
              some d := decided
            by_cases same : p = q
            · subst same
              rw [Function.update_self] at latest
              obtain rfl := Option.some.inj latest
              rfl
            · rw [Function.update_of_ne same] at latest
              exact absurd latest old
        | other silent _ _ _ _ =>
            rw [decision_kept taken (Action.silent_iff.mp silent).2] at decided
            exact absurd decided old

/-- Nobody has decided, or the FSM variable is the state of one decided proposal. -/
def FsmWritten (k : ServerConstants Node) (c : Core Node) : Prop :=
  (∀ p ∈ k.honestNodes, c.decision p = none) ∨
    ∃ p ∈ k.honestNodes, ∃ d ∈ c.decision p, d.prop.fsmState = c.fsm

theorem FsmWritten.step {κ : Type} {key : Proposal → κ} {accepts : Proposal → Prop}
    {c c' : Core Node} (written : FsmWritten k c) (step : CoreStep k key accepts c c') :
    FsmWritten k c' := by
  rcases step.fsm_cases with ⟨decisions, fsm⟩ | ⟨q, honest, prop, rfl⟩
  · unfold FsmWritten
    rw [decisions, fsm]
    exact written
  · exact .inr ⟨q, honest, ⟨prop, c.round q⟩, Function.update_self .., rfl⟩

theorem FsmWritten.matches_iff {c : Core Node} (written : FsmWritten k c) :
    FsmMatches k c ↔ FsmAgrees k c := by
  constructor
  · intro carried p honest q other d decided d' decided'
    exact (carried p honest d decided).trans (carried q other d' decided').symm
  · intro agrees p honest d decided
    rcases written with undecided | ⟨q, other, d', decided', matched⟩
    · rw [undecided p honest] at decided
      cases decided
    · exact (agrees p honest q other d decided d' decided').trans matched

private theorem fsm_decided (run : ServerRun k past now) : FsmWritten k now.core := by
  obtain ⟨start, ⟨clock, -, rfl⟩, run⟩ := run
  exact run.invariant (I := fun s => FsmWritten k s.core) (.inl fun _ _ => rfl)
    fun s a _ before taken => before.step (core_step (honoursLock_value k s a) taken)

private theorem decision_behind (run : ServerRun k past now) {d : Decision}
    (decided : d ∈ now.decision p) : Behind now.env d.prop := by
  have invariant := run.coreInvariant fun m _ => honoursLock_value k m.source m.input
  obtain ⟨-, ⟨m, proposed, carried⟩, -⟩ := invariant.decided p d decided
  exact run.sensorInvariant.known _ (.inl ⟨_, m, proposed, carried⟩)

def bitcoinBlock : SensorUpdate := ⟨⟨true, true, false⟩, .normal false, .normal⟩

private theorem bitcoinBlock_overtakes (run : ServerRun k past now) {d : Decision}
    (honest : p ∈ k.honestNodes) (decided : d ∈ now.decision p) :
    ∃ older reached, ServerRun k older reached ∧ ¬ BTCConsistency k reached := by
  obtain ⟨start, init, steps⟩ := run
  have behind := decision_behind ⟨start, init, steps⟩ decided
  have taken : ServerNext k now (.updateEnvironment bitcoinBlock) =
    some { now with env := UpdateSensors k now.env bitcoinBlock } := rfl
  refine ⟨_, _, ⟨start, init, steps.extend taken⟩, fun consistent => ?_⟩
  have anchored : d.prop.btcReceipt.checkpointBlockHeight = now.env.hBtcCurrent + 1 :=
    consistent p honest d decided
  have below := behind.checkpoint
  omega

end Decisions

section Invariants

variable {k : ServerConstants Node} {past : List (Move (State Node) (Action Node))}
  {now : State Node}

private theorem decided_checked (run : ServerRun k past now) {p : Node} {d : Decision}
    (decided : d ∈ now.decision p) : ∃ m ∈ past, IsValidProposal k m.source.env d.prop := by
  have invariant := run.coreInvariant fun m _ => honoursLock_value k m.source m.input
  obtain ⟨-, -, quorum⟩ := invariant.decided p d decided
  obtain ⟨m, taken, -, -, -, valid⟩ := precommitQuorum_checked run quorum
  exact ⟨m, taken, valid⟩

private theorem decided_ne_recovering (run : ServerRun k past now) {p : Node} {d : Decision}
    (decided : d ∈ now.decision p) : d.prop.fsmState ≠ .recovering := by
  intro recovering
  obtain ⟨m, -, valid⟩ := decided_checked run decided
  rcases (decision_behind run decided).target with installed | ⟨-, unattested⟩
  · exact installed.ne_recovering recovering
  · exact absurd ((valid.attested (.inr recovering)).1.symm.trans unattested) (by decide)

private theorem fsmStateConsistency_iff (run : ServerRun k past now) :
    FSMStateConsistency k now ↔ FsmAgrees k now.core := (fsm_decided run).matches_iff

/-- What the master invariants come to, for all constants. In every run the FSM part holds as
soon as the decided states agree with each other, the proof part always and the attestation
part for ANCHORED and RECOVERING; the hybrid invariant is one exactly when no honest node can
decide anything, and the rule against cross-mode double spending exactly when none can decide
in SOVEREIGN. -/
theorem master_invariants (k : ServerConstants Node) :
    (∀ past now, ServerRun k past now →
      (FSMStateConsistency k now ↔ FsmAgrees k now.core) ∧ ZKProofConsistency k now ∧
      ∀ p ∈ k.honestNodes, ∀ d ∈ now.decision p,
        d.prop.fsmState = .anchored ∨ d.prop.fsmState = .recovering →
          d.prop.daReceipt.attestation = true) ∧
    ((∀ past now, ServerRun k past now → HybridTendermintInvariant k now) ↔
      ∀ past now, ServerRun k past now → ∀ p ∈ k.honestNodes, now.decision p = none) ∧
    ((∀ past now, ServerRun k past now → NoCrossModeDoubleSpending k now) ↔
      ∀ past now, ServerRun k past now → ∀ p ∈ k.honestNodes, ∀ d ∈ now.decision p,
        d.prop.fsmState ≠ .sovereign) := by
  refine ⟨fun past now run => ⟨fsmStateConsistency_iff run, ?_, ?_⟩, ⟨?_, ?_⟩, ?_, ?_⟩
  · rintro p honest d decided ⟨recovering, -⟩
    exact absurd recovering (decided_ne_recovering run decided)
  · intro p honest d decided bound
    obtain ⟨m, -, valid⟩ := decided_checked run decided
    exact (valid.attested bound).1
  · intro invariant past now run p honest
    by_contra some_
    obtain ⟨d, decided⟩ := Option.ne_none_iff_exists'.mp some_
    obtain ⟨older, reached, longer, overtaken⟩ := bitcoinBlock_overtakes run honest decided
    obtain ⟨-, -, consistent, -⟩ := invariant older reached longer
    exact overtaken consistent
  · intro undecided past now run
    have none_ := undecided past now run
    have nothing : ∀ p ∈ k.honestNodes, ∀ d, d ∉ now.decision p := by
      intro p honest d decided
      rw [none_ p honest] at decided
      cases decided
    exact ⟨fun p honest d decided => absurd decided (nothing p honest d),
      fun p honest d decided => absurd decided (nothing p honest d),
      fun p honest d decided => absurd decided (nothing p honest d),
      fun p honest d decided => absurd decided (nothing p honest d),
      fun p honest d decided => absurd decided (nothing p honest d)⟩
  · -- Right after a SOVEREIGN decision the rule compares the decision with itself.
    intro invariant past now run p honest d decided sovereign
    obtain ⟨older, reached, earlier, decided', anchored⟩ := decision_installed run decided
    exact absurd (invariant older reached earlier p honest p honest d decided' d decided'
      ⟨anchored.ge, sovereign⟩) (lt_irrefl _)
  · intro never past now run p honest q other d decided d' decided' rule
    exact absurd rule.2 (never past now run q other d' decided')

/-- Under the model checker's thresholds, with two of the nodes as leaders, both fail. -/
theorem master_invariants_split :
    let k := checkedConstants allHonest fun r => if r = 0 then 0 else 3
    (¬ ∀ past now, ServerRun k past now → HybridTendermintInvariant k now) ∧
      ¬ ∀ past now, ServerRun k past now → NoCrossModeDoubleSpending k now := by
  obtain ⟨past, now, run, passed⟩ := exists_serverRun splitTrace
    (fun _ s => decide (s.decision 1 = some ⟨degradedProposal, 1⟩))
    (by decide +kernel : replayPasses
      (ServerNext (checkedConstants allHonest fun r => if r = 0 then 0 else 3)) _ splitTrace _ =
        true)
  have decided := of_decide_eq_true passed
  have honest : (1 : Fin 4) ∈
      (checkedConstants allHonest fun r => if r = 0 then 0 else 3).honestNodes := by decide
  obtain ⟨-, hybrid, crossMode⟩ :=
    master_invariants (checkedConstants allHonest fun r => if r = 0 then 0 else 3)
  refine ⟨fun invariant => ?_, fun invariant => ?_⟩
  · have undecided := hybrid.mp invariant past now run 1 honest
    rw [decided] at undecided
    cases undecided
  · exact crossMode.mp invariant past now run 1 honest _ decided rfl

end Invariants

end Engram.Spec.Server
