import Engram.Spec.Server.Locking
import Mathlib.Data.Fintype.Basic

/-!
Agreement of `ServerSpec`. Locks compare values, so decided values agree in every run;
the FSM states of the decided proposals agree only while the locks also keep the state,
or when every quorum takes all the honest nodes.
-/

set_option autoImplicit false
set_option relaxedAutoImplicit false

namespace Engram.Spec.Server

open Engram.Types Engram.Library

variable {Node : Type} [DecidableEq Node]

section Configurations

/-- The constants of the model checker's configuration for given node sets and schedule. -/
def checkedConstants (system : QuorumSystem (Fin 4)) (proposer : ℕ → Fin 4) :
    ServerConstants (Fin 4) where
  suspiciousThreshold := 1
  sovereignThreshold := 2
  daThreshold := 1
  hysteresisWait := 1
  minPeers := 2
  minSubnetDiversity := 2
  minAnchorPeers := 1
  maxChurnRate := 1
  minAvgTenure := 1
  maxPeerLatency := 1
  maxSuspiciousTime := 1
  downHysteresisThreshold := 1
  maxDownHysteresisThreshold := 8
  suspiciousHysteresisWait := 1
  system := system
  maxRound := 2
  proposer := proposer
  maxTimestamp := 20
  minTimestamp := 0
  delay := 1
  precision := 1
  timeoutDuration := 2
  maxIgnoreRounds := 1
  maxCensorshipRounds := 3

def allHonest : QuorumSystem (Fin 4) where
  honest := {0, 1, 2, 3}
  faulty := ∅
  tolerance := 1
  disjoint := by decide
  size := by decide
  faulty_le := by decide

def oneByzantine : QuorumSystem (Fin 4) where
  honest := {0, 1, 2}
  faulty := {3}
  tolerance := 1
  disjoint := by decide
  size := by decide
  faulty_le := by decide

def healthyProposal : Proposal where
  value := .txNormal
  timestamp := 2
  round := 0
  fsmState := .anchored
  daReceipt := ⟨0, true⟩
  btcReceipt := ⟨0, (.btcBlock, 0)⟩
  zkProofRef := false
  healthy := true

def degradedProposal : Proposal :=
  { healthyProposal with round := 1, fsmState := .sovereign, healthy := false }

def healthyMsg : ProposalMsg (Fin 4) := ⟨0, 0, healthyProposal, none⟩

def degradedMsg : ProposalMsg (Fin 4) := ⟨3, 1, degradedProposal, none⟩

def each (nodes : List (Fin 4)) (m : MessageAction (Fin 4)) : List (Action (Fin 4)) :=
  nodes.map fun p => .messageProcessing p m

/-- Round `0` up to its prevotes: the timers run out, node `0` proposes, and nodes `0`,
`1` and `2` prevote. -/
def prevotedRound : List (Action (Fin 4)) :=
  [.advanceRealTime, .advanceRealTime] ++ each [0] (.serverInsertProposal .txNormal false) ++
    each [0, 1, 2] (.receiveProposal healthyMsg) ++
    each [0, 1, 2] (.uponProposalInPropose healthyMsg)

def lockedRound0 : List (Action (Fin 4)) :=
  each [0, 1, 2] (.uponProposalInPrevoteOrCommitAndPrevote healthyMsg)

def decidingTrace : List (Action (Fin 4)) :=
  prevotedRound ++ lockedRound0 ++
    each [0, 1] (.serverUponProposalInPrecommitNoDecision healthyMsg)

/-- Node `3` proposes the same value in round `1` under a failed light client before the
precommits of round `0`; node `0` decides in round `0` and node `1` in round `1`. -/
def splitTrace : List (Action (Fin 4)) :=
  prevotedRound ++ each [1, 2] .onLocalTimerExpire ++ each [3] (.uponfPlusOneTimeoutsAny 1) ++
    [.updateEnvironment ⟨⟨false, false, true⟩, .normal false, .normal⟩] ++
    each [3] (.serverInsertProposal .txNormal false) ++ lockedRound0 ++
    each [0] (.serverUponProposalInPrecommitNoDecision healthyMsg) ++
    each [1, 2] (.uponfPlusOneTimeoutsAny 1) ++ each [1, 2, 3] (.receiveProposal degradedMsg) ++
    each [1, 2, 3] (.uponProposalInPropose degradedMsg) ++
    each [1, 2, 3] (.uponProposalInPrevoteOrCommitAndPrevote degradedMsg) ++
    each [1] (.serverUponProposalInPrecommitNoDecision degradedMsg)

/-- Round `0` up to its prevotes with the leader's `M_QC`, then a round change by expired
timers. -/
def conformingTrace : List (Action (Fin 4)) :=
  [.advanceRealTime, .advanceRealTime] ++ each [0] (.serverInsertProposal .txNormal false) ++
    each [0, 1, 2] (.receiveProposal healthyMsg) ++
    each [0] (.serverProposerVotes .uponProposalInPropose healthyMsg healthyMsg) ++
    each [1, 2] (.uponProposalInPropose healthyMsg) ++ each [1, 2] .onLocalTimerExpire ++
    each [0] (.uponfPlusOneTimeoutsAny 1)

/-- The checkpoint of round `0` is overtaken: Bitcoin grows and the anchor follows it
before the precommits, and node `0` decides. -/
def overtakenTrace : List (Action (Fin 4)) :=
  prevotedRound ++ [.updateEnvironment ⟨⟨true, true, false⟩, .normal false, .normal⟩] ++
    lockedRound0 ++ each [0] (.serverUponProposalInPrecommitNoDecision healthyMsg)

/-- A relay attack starts after the precommits of round `0`, and nodes `0` and `1` decide
under it. -/
def absorbedTrace : List (Action (Fin 4)) :=
  prevotedRound ++ lockedRound0 ++
    [.updateEnvironment ⟨⟨false, false, false⟩, .normal false, .relayNodeAttack⟩] ++
    each [0, 1] (.serverUponProposalInPrecommitNoDecision healthyMsg)

def forgedMsg : ProposalMsg (Fin 4) :=
  ⟨3, 0, { degradedProposal with timestamp := 0, round := 0 }, none⟩

def forgedRound : List (Action (Fin 4)) :=
  each [0, 1, 2] (.receiveProposal forgedMsg) ++
    each [0, 1, 2] (.uponProposalInPropose forgedMsg) ++
    each [0, 1, 2] (.uponProposalInPrevoteOrCommitAndPrevote forgedMsg) ++
    each [0] (.serverUponProposalInPrecommitNoDecision forgedMsg)

theorem serverInit_zero (system : QuorumSystem (Fin 4)) (proposer : ℕ → Fin 4) :
    ServerInit (checkedConstants system proposer)
      (initialState (checkedConstants system proposer) fun _ => 0) :=
  ⟨fun _ => 0, fun _ _ => ⟨Nat.le_refl 0, Nat.zero_le _⟩, rfl⟩

theorem exists_serverRun {system : QuorumSystem (Fin 4)} {proposer : ℕ → Fin 4}
    (trace : List (Action (Fin 4)))
    (check : List (Move (State (Fin 4)) (Action (Fin 4))) → State (Fin 4) → Bool)
    (passes : replayPasses (ServerNext (checkedConstants system proposer))
      (initialState (checkedConstants system proposer) fun _ => 0) trace check = true) :
    ∃ past now, ServerRun (checkedConstants system proposer) past now ∧
      check past now = true := by
  obtain ⟨past, now, run, passed⟩ := exists_run_of_replayPasses _ _ trace check passes
  exact ⟨past, now, ⟨_, serverInit_zero system proposer, run⟩, passed⟩

end Configurations

section Value

variable {k : ServerConstants Node} {past : List (Move (State Node) (Action Node))}
  {now : State Node}

/-- Any two decided honest nodes decided the same value, in every run of the server. -/
theorem agreement_on_value (run : ServerRun k past now) :
    ∀ p ∈ k.honestNodes, ∀ q ∈ k.honestNodes, ∀ d ∈ now.decision p, ∀ d' ∈ now.decision q,
      d.prop.value = d'.prop.value := by
  intro p _ q _ d decided d' decided'
  have invariant := run.coreInvariant fun m _ => honoursLock_value k m.source m.input
  exact invariant.agreement decided decided'

theorem agreement_on_value_twoDeciders :
    ∃ past now, ServerRun (checkedConstants oneByzantine fun _ => 0) past now ∧
      ∃ d ∈ now.decision 0, ∃ d' ∈ now.decision 1, d.prop.value = d'.prop.value := by
  obtain ⟨past, now, run, passed⟩ := exists_serverRun decidingTrace
    (fun _ s => decide (s.decision 0 = some ⟨healthyProposal, 0⟩ ∧
      s.decision 1 = some ⟨healthyProposal, 0⟩))
    (by decide +kernel : replayPasses
      (ServerNext (checkedConstants oneByzantine fun _ => 0)) _ decidingTrace _ = true)
  obtain ⟨decided, decided'⟩ := of_decide_eq_true passed
  exact ⟨past, now, run, _, decided, _, decided',
    agreement_on_value run 0 (by decide) 1 (by decide) _ decided _ decided'⟩

end Value

section FsmState

variable {κ : Type} {k : ServerConstants Node} {key : Proposal → κ}
  {accepts : Proposal → Prop} {c c' : Core Node}

def FsmAgrees (k : ServerConstants Node) (c : Core Node) : Prop :=
  ∀ p ∈ k.honestNodes, ∀ q ∈ k.honestNodes, ∀ d ∈ c.decision p, ∀ d' ∈ c.decision q,
    d.prop.fsmState = d'.prop.fsmState

def FsmMatches (k : ServerConstants Node) (c : Core Node) : Prop :=
  ∀ p ∈ k.honestNodes, ∀ d ∈ c.decision p, d.prop.fsmState = c.fsm

theorem FsmMatches.step (before : FsmMatches k c) (step : CoreStep k key accepts c c')
    (agrees : FsmAgrees k c') : FsmMatches k c' := by
  intro p honest d decided
  rcases step.fsm_cases with ⟨sameDecision, sameFsm⟩ | ⟨q, other, prop, grown⟩
  · rw [sameDecision] at decided
    rw [sameFsm]
    exact before p honest d decided
  · have latest : (⟨prop, c.round q⟩ : Decision) ∈ c'.decision q := by
      rw [grown]
      exact Function.update_self _ _ _
    rw [agrees p honest q other d decided _ latest, grown]
    rfl

private theorem ServerRun.fsmMatches {past : List (Move (State Node) (Action Node))}
    {now : State Node} {P : List (Move (State Node) (Action Node)) → Prop}
    (closed : ∀ m older, P (m :: older) → P older)
    (agrees : ∀ older reached, ServerRun k older reached → P older → FsmAgrees k reached.core)
    (run : ServerRun k past now) (holds : P past) : FsmMatches k now.core := by
  obtain ⟨start, ⟨clock, within, rfl⟩, run⟩ := run
  induction run with
  | initial =>
      intro p _ d decided
      cases decided
  | extend before taken ih =>
      have extended := agrees _ _ ⟨_, ⟨clock, within, rfl⟩, before.extend taken⟩ holds
      exact (ih (closed _ _ holds)).step (core_step (honoursLock_value k _ _) taken) extended

private theorem CoreInvariant.precommitted_of_full (invariant : CoreInvariant k key c)
    (full : k.byzantineNodes.card = k.system.tolerance) {r : ℕ} {b : Proposal}
    (quorum : Core.QuorumFor k c.msgsPrecommit r b) {p : Node} (honest : p ∈ k.honestNodes) :
    (⟨p, r, some b⟩ : Vote Node) ∈ c.msgsPrecommit r := by
  obtain ⟨q, isQuorum, voted⟩ := invariant.precommitQuorum quorum
  have within : q ⊆ k.honestNodes := by
    intro x member
    exact (invariant.formed.precommit_sender r _ (voted x member)).2.2 (Option.some_ne_none b)
  have size : k.honestNodes.card ≤ q.card := by
    have total := k.system.card_add_card
    have large := isQuorum.2
    unfold ServerConstants.honestNodes
    unfold ServerConstants.byzantineNodes at full
    omega
  have all := Finset.eq_of_subset_of_card_le within size
  exact voted p (all ▸ honest)

theorem CoreInvariant.fsmAgrees_of_full (invariant : CoreInvariant k key c)
    (full : k.byzantineNodes.card = k.system.tolerance) : FsmAgrees k c := by
  intro p honest q other d decided d' decided'
  obtain ⟨stopped, ⟨m, proposed, carried⟩, quorum⟩ := invariant.decided p d decided
  obtain ⟨stopped', ⟨m', proposed', carried'⟩, quorum'⟩ := invariant.decided q d' decided'
  have past := invariant.timeline.precommit_past _ _
    (invariant.precommitted_of_full full quorum' honest) honest
  have past' := invariant.timeline.precommit_past _ _
    (invariant.precommitted_of_full full quorum other) other
  have sameRound : d.round = d'.round := by
    simp only at past past'
    omega
  rw [← sameRound] at proposed'
  have same := invariant.formed.propose_unique d.round m proposed m' proposed'
  rw [← carried, ← carried', same]

def blockAndState (b : Proposal) : Value × FSMState := (b.value, b.fsmState)

/-- As many nodes are Byzantine as tolerated, or no step lets a locked node prevote a
proposal with its locked value and another FSM state. -/
def StateKeepingLocks (k : ServerConstants Node)
    (past : List (Move (State Node) (Action Node))) : Prop :=
  k.byzantineNodes.card = k.system.tolerance ∨
    ∀ m ∈ past, HonoursLock k blockAndState m.source m.input

private theorem ServerRun.fsmAgrees {past : List (Move (State Node) (Action Node))}
    {now : State Node} (run : ServerRun k past now) (keeping : StateKeepingLocks k past) :
    FsmAgrees k now.core := by
  rcases keeping with full | honours
  · have invariant := run.coreInvariant fun m _ => honoursLock_value k m.source m.input
    exact invariant.fsmAgrees_of_full full
  · intro p _ q _ d decided d' decided'
    have same := (run.coreInvariant honours).agreement decided decided'
    exact congrArg Prod.snd same

/-- In every run whose locks keep the FSM state, decided honest nodes agree on it and it
is the FSM variable. -/
theorem agreement_on_fsmState {past : List (Move (State Node) (Action Node))} {now : State Node}
    (run : ServerRun k past now) (keeping : StateKeepingLocks k past) :
    (∀ p ∈ k.honestNodes, ∀ q ∈ k.honestNodes, ∀ d ∈ now.decision p, ∀ d' ∈ now.decision q,
      d.prop.fsmState = d'.prop.fsmState) ∧
    ∀ p ∈ k.honestNodes, ∀ d ∈ now.decision p, d.prop.fsmState = now.env.state := by
  have closed : ∀ m older, StateKeepingLocks k (m :: older) → StateKeepingLocks k older := by
    rintro m older (full | honours)
    · exact .inl full
    · exact .inr fun m' member => honours m' (List.mem_cons_of_mem _ member)
  refine ⟨run.fsmAgrees keeping, ?_⟩
  exact run.fsmMatches closed (fun _ _ reached holds => reached.fsmAgrees holds) keeping

theorem agreement_on_fsmState_twoDeciders :
    ∃ past now, ServerRun (checkedConstants allHonest fun _ => 0) past now ∧
      StateKeepingLocks (checkedConstants allHonest fun _ => 0) past ∧
      ∃ d ∈ now.decision 0, ∃ d' ∈ now.decision 1,
        d.prop.fsmState = d'.prop.fsmState ∧ d.prop.fsmState = now.env.state := by
  obtain ⟨past, now, run, passed⟩ := exists_serverRun decidingTrace
    (fun moves s => decide (s.decision 0 = some ⟨healthyProposal, 0⟩ ∧
      s.decision 1 = some ⟨healthyProposal, 0⟩ ∧
      ∀ m ∈ moves, HonoursLock (checkedConstants allHonest fun _ => 0) blockAndState
        m.source m.input))
    (by decide +kernel : replayPasses
      (ServerNext (checkedConstants allHonest fun _ => 0)) _ decidingTrace _ = true)
  obtain ⟨decided, decided', honours⟩ := of_decide_eq_true passed
  obtain ⟨agrees, matched⟩ := agreement_on_fsmState run (.inr honours)
  exact ⟨past, now, run, .inr honours, _, decided, _, decided',
    agrees 0 (by decide) 1 (by decide) _ decided _ decided', matched 0 (by decide) _ decided⟩

/-- Four honest nodes can decide one value under two FSM states. -/
theorem fsmState_disagreement :
    ¬ ∀ (k : ServerConstants (Fin 4)) (past : List (Move (State (Fin 4)) (Action (Fin 4))))
      (now : State (Fin 4)), ServerRun k past now →
      (∀ p ∈ k.honestNodes, ∀ q ∈ k.honestNodes, ∀ d ∈ now.decision p, ∀ d' ∈ now.decision q,
        d.prop.fsmState = d'.prop.fsmState) ∧
      ∀ p ∈ k.honestNodes, ∀ d ∈ now.decision p, d.prop.fsmState = now.env.state := by
  intro claimed
  obtain ⟨past, now, run, passed⟩ := exists_serverRun splitTrace
    (fun _ s => decide (s.decision 0 = some ⟨healthyProposal, 0⟩ ∧
      s.decision 1 = some ⟨degradedProposal, 1⟩))
    (by decide +kernel : replayPasses
      (ServerNext (checkedConstants allHonest fun r => if r = 0 then 0 else 3)) _ splitTrace _ =
        true)
  obtain ⟨decided, decided'⟩ := of_decide_eq_true passed
  have same := (claimed _ past now run).1 0 (by decide) 1 (by decide) _ decided _ decided'
  exact absurd same (by decide)

end FsmState

end Engram.Spec.Server
