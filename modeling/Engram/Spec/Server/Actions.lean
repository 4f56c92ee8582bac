import Engram.Spec.Server.State

/-!
The actions of `EngramTendermint.tla` and `EngramServer.tla`. An action's bound
variables are arguments, and a disabled action is `none`. A round carries at most one
proposal message, so the message a `CHOOSE` picks is an argument too.
-/

set_option autoImplicit false
set_option relaxedAutoImplicit false

namespace Engram.Spec.Server

open Engram.Types Engram.Library

variable {Node : Type} [DecidableEq Node]

section Broadcast

variable (s : State Node)

def BroadcastProposal (src : Node) (round : ℕ) (proposal : Proposal) (validRound : Option ℕ) :
    State Node :=
  { s with
    msgsPropose := Function.update s.msgsPropose round
      (insert ⟨src, round, proposal, validRound⟩ (s.msgsPropose round)) }

def BroadcastPrevote (src : Node) (round : ℕ) (id : Option Proposal) : State Node :=
  { s with
    msgsPrevote := Function.update s.msgsPrevote round
      (insert ⟨src, round, id⟩ (s.msgsPrevote round)) }

def BroadcastPrecommit (src : Node) (round : ℕ) (id : Option Proposal) : State Node :=
  { s with
    msgsPrecommit := Function.update s.msgsPrecommit round
      (insert ⟨src, round, id⟩ (s.msgsPrecommit round)) }

def BroadcastTimeout (src : Node) (round : ℕ) : State Node :=
  { s with
    msgsTimeout := Function.update s.msgsTimeout round
      (insert ⟨src, round⟩ (s.msgsTimeout round)) }

def setStep (p : Node) (step : Phase) : State Node :=
  { s with step := Function.update s.step p step }

end Broadcast

section RoundManagement

variable (k : ServerConstants Node) (s : State Node) (p : Node)

def UpdateIgnoredRounds : Node → Value → ℕ := fun q tx =>
  if q = p then
    if ∃ m ∈ s.msgsPropose (s.round p), m.proposal.value = tx then 0
    else MinVal (s.txIgnoredRounds p tx + 1) (k.maxIgnoreRounds + 1)
  else s.txIgnoredRounds q tx

def enterRound (r : ℕ) : State Node :=
  { s with
    round := Function.update s.round p r
    step := Function.update s.step p .propose
    localRemTime := Function.update s.localRemTime p k.timeoutDuration }

def StartRound (r : ℕ) : Option (State Node) :=
  if r ≤ k.maxRound ∧ s.step p ≠ .decided then
    some { enterRound k s p r with txIgnoredRounds := UpdateIgnoredRounds k s p }
  else none

end RoundManagement

section Tendermint

variable (k : ServerConstants Node) (s : State Node) (p : Node)

def InsertProposal (prop : Proposal) : Option (State Node) :=
  if p = k.proposer (s.round p) ∧ s.step p = .propose ∧
      (∀ m ∈ s.msgsPropose (s.round p), m.src ≠ p) ∧ IsValidProposal k s.env prop then
    some (BroadcastProposal s p (s.round p) prop (s.validRound p))
  else none

def ReceiveProposal (msg : ProposalMsg Node) : Option (State Node) :=
  if msg ∈ s.msgsPropose (s.round p) ∧ msg.src = k.proposer (s.round p) ∧
      msg.validRound = none ∧ s.inspectedProposal (s.round p) p = none ∧
      msg ∉ s.receivedTimelyProposal p then
    some { s with
      inspectedProposal := Function.update s.inspectedProposal (s.round p)
        (Function.update (s.inspectedProposal (s.round p)) p (some (s.localClock p)))
      receivedTimelyProposal :=
        if IsTimely k (s.localClock p) msg.proposal.timestamp then
          Function.update s.receivedTimelyProposal p (insert msg (s.receivedTimelyProposal p))
        else s.receivedTimelyProposal }
  else none

def UponProposalInPropose (msg : ProposalMsg Node) : Option (State Node) :=
  if msg ∈ s.receivedTimelyProposal p ∧ msg.round = s.round p ∧
      msg.src = k.proposer (s.round p) ∧ msg.validRound = none ∧ s.step p = .propose then
    if IsCensoring k s p msg.proposal then
      if s.round p + 1 ≤ k.maxRound then
        StartRound k (BroadcastTimeout s p (s.round p + 1)) p (s.round p + 1)
      else none
    else
      some (setStep (BroadcastPrevote s p (s.round p)
        (if IsValidProposal k s.env msg.proposal ∧
            (s.lockedRound p = none ∨ s.lockedValue p = some msg.proposal.value)
          then some msg.proposal else none)) p .prevote)
  else none

/-- A nil locked round is `-1`, below every round. -/
def lockedAtMost (vr : ℕ) : Prop := ∀ r ∈ s.lockedRound p, r ≤ vr

instance (vr : ℕ) : Decidable (lockedAtMost s p vr) :=
  inferInstanceAs (Decidable (∀ r ∈ s.lockedRound p, r ≤ vr))

def UponProposalInProposeAndPrevote (msg : ProposalMsg Node) : Option (State Node) :=
  match msg.validRound with
  | none => none
  | some vr =>
      if msg ∈ s.msgsPropose (s.round p) ∧ msg.src = k.proposer (s.round p) ∧
          vr < s.round p ∧ s.step p = .propose ∧
          (votesFor (s.msgsPrevote vr) (some msg.proposal)).card ≥ k.threshold2 then
        some (setStep (BroadcastPrevote s p (s.round p)
          (if IsValidProposal k s.env msg.proposal ∧
              (lockedAtMost s p vr ∨ s.lockedValue p = some msg.proposal.value)
            then some msg.proposal else none)) p .prevote)
      else none

def UponQuorumOfPrevotesAny : Option (State Node) :=
  if s.step p = .prevote ∧
      ((s.msgsPrevote (s.round p)).image Vote.src).card ≥ k.threshold2 then
    some (setStep (BroadcastPrecommit s p (s.round p) none) p .precommit)
  else none

def UponProposalInPrevoteOrCommitAndPrevote (msg : ProposalMsg Node) : Option (State Node) :=
  if msg ∈ s.msgsPropose (s.round p) ∧ msg.src = k.proposer (s.round p) ∧
      (s.step p = .prevote ∨ s.step p = .precommit) ∧
      (votesFor (s.msgsPrevote (s.round p)) (some msg.proposal)).card ≥ k.threshold2 then
    if s.step p = .prevote then
      some { setStep (BroadcastPrecommit s p (s.round p) (some msg.proposal)) p .precommit with
        lockedValue := Function.update s.lockedValue p (some msg.proposal.value)
        lockedRound := Function.update s.lockedRound p (some (s.round p)) }
    else
      some { s with
        validValue := Function.update s.validValue p (some msg.proposal)
        validRound := Function.update s.validRound p (some (s.round p)) }
  else none

def UponQuorumOfPrecommitsAny : Option (State Node) :=
  if ((s.msgsPrecommit (s.round p)).image Vote.src).card ≥ k.threshold2 ∧
      s.round p + 1 ≤ k.maxRound then
    StartRound k s p (s.round p + 1)
  else none

def UponProposalInPrecommitNoDecision (msg : ProposalMsg Node) : Option (State Node) :=
  if msg ∈ s.msgsPropose (s.round p) ∧ msg.src = k.proposer (s.round p) ∧
      s.decision p = none ∧ s.inspectedProposal (s.round p) p ≠ none ∧
      (votesFor (s.msgsPrecommit (s.round p)) (some msg.proposal)).card ≥ k.threshold2 then
    some { setStep s p .decided with
      decision := Function.update s.decision p (some ⟨msg.proposal, s.round p⟩) }
  else none

def OnTimeoutPropose : Option (State Node) :=
  if s.step p = .propose ∧ p ≠ k.proposer (s.round p) ∧ s.localRemTime p = 0 then
    some (setStep (BroadcastPrevote s p (s.round p) none) p .prevote)
  else none

def OnQuorumOfNilPrevotes : Option (State Node) :=
  if s.step p = .prevote ∧
      (votesFor (s.msgsPrevote (s.round p)) none).card ≥ k.threshold2 then
    some (setStep (BroadcastPrecommit s p (s.round p) none) p .precommit)
  else none

def fasterNodes (r : ℕ) : Finset Node :=
  (s.msgsPropose r).image ProposalMsg.src ∪ (s.msgsPrevote r).image Vote.src ∪
    (s.msgsPrecommit r).image Vote.src

def OnRoundCatchup (r : ℕ) : Option (State Node) :=
  if r ≤ k.maxRound ∧ s.round p < r ∧ (fasterNodes s r).card ≥ k.threshold1 then
    StartRound k s p r
  else none

def UponfPlusOneTimeoutsAny (r : ℕ) : Option (State Node) :=
  if r ≤ k.maxRound ∧ s.round p < r ∧
      ((s.msgsTimeout r).image TimeoutMsg.src).card ≥ k.threshold1 then
    StartRound k s p r
  else none

def OnLocalTimerExpire : Option (State Node) :=
  if s.localRemTime p = 0 ∧ s.round p + 1 ≤ k.maxRound then
    some (BroadcastTimeout s p (s.round p + 1))
  else none

def AdvanceRealTime : Option (State Node) :=
  if s.realTime < k.maxTimestamp then
    some { s with
      realTime := s.realTime + 1
      localClock := fun q => s.localClock q + 1
      localRemTime := fun q =>
        if s.localRemTime q > 0 ∧ ¬ ∃ m ∈ s.receivedTimelyProposal q, m.round = s.round q then
          s.localRemTime q - 1
        else s.localRemTime q }
  else none

def withheldProposal (r : ℕ) (tx : Value) : Proposal where
  value := tx
  timestamp := s.realTime
  round := r
  fsmState := CalculateNextFSMState k.toConstants s.env.vars
  daReceipt := ⟨s.env.hEngramVerified, false⟩
  btcReceipt := ⟨s.env.hBtcCurrent, ExpectedBlockHash s.env.hBtcCurrent⟩
  zkProofRef := false
  healthy := decide (IsHealthyCondition k.toConstants s.env.vars)

def ByzantineDataWithholding (r : ℕ) (tx : Value) : Option (State Node) :=
  if r ≤ k.maxRound ∧ k.proposer r ∈ k.byzantineNodes ∧ s.msgsPropose r = ∅ ∧
      tx ∈ s.forcedTxQueue then
    some (BroadcastProposal s (k.proposer r) r (withheldProposal k s r tx) none)
  else none

end Tendermint

section Sensors

variable (k : ServerConstants Node) (e : Environment)

/-- The choices of `UpdateBTCSensor`: whether Bitcoin grows, whether the submitted
height moves to the tip, and whether the light client fails. -/
structure BTCUpdate where
  grows : Bool
  submits : Bool
  spvFails : Bool
  deriving DecidableEq, Repr

/-- The choices of `UpdateDASensor`. A failure raises at least one flag. -/
inductive DAUpdate where
  | normal (grows : Bool)
  | failure (grows attestationFails dasFails : Bool)
      (raised : attestationFails = true ∨ dasFails = true)
  deriving DecidableEq, Repr

inductive P2PUpdate where
  | normal
  | relayNodeAttack
  | bgpHijackingAttack
  | churnBasedRotationAttack
  deriving DecidableEq, Repr

structure SensorUpdate where
  btc : BTCUpdate
  da : DAUpdate
  p2p : P2PUpdate
  deriving DecidableEq, Repr

def grown (height : ℕ) (grows : Bool) : ℕ := if grows = true then height + 1 else height

/-- `BTCNormalUpdate` and `BTCSPVFailure`: a failing light client freezes the anchor. -/
def UpdateBTCSensor (u : BTCUpdate) : Environment :=
  let current := grown e.hBtcCurrent u.grows
  let submitted := if u.submits = true then current else e.hBtcSubmitted
  { e with
    hBtcCurrent := current
    hBtcSubmitted := submitted
    hBtcAnchored := if u.spvFails = true then e.hBtcAnchored else submitted
    isBtcSpvFailed := u.spvFails }

def UpdateDASensor : DAUpdate → Environment
  | .normal grows =>
      { e with
        hEngramCurrent := grown e.hEngramCurrent grows
        hEngramVerified := grown e.hEngramCurrent grows
        isAttestationFailed := false
        isDasFailed := false }
  | .failure grows attestationFails dasFails _ =>
      { e with
        hEngramCurrent := grown e.hEngramCurrent grows
        isAttestationFailed := attestationFails
        isDasFailed := dasFails }

def UpdateP2PHealthSensor : P2PUpdate → Environment
  | .normal =>
      { e with
        activePeers := e.anchorPeers ∪ {.honestNode1}
        peerChurnRate := 0
        avgPeerTenure := k.minAvgTenure + 10
        peerLatency := 0 }
  | .relayNodeAttack => { e with peerLatency := k.maxPeerLatency + 10 }
  | .bgpHijackingAttack => { e with activePeers := {.sybilN1, .sybilN2, .sybilN3} }
  | .churnBasedRotationAttack =>
      { e with peerChurnRate := k.maxChurnRate + 5, avgPeerTenure := 0 }

def UpdateSensors (u : SensorUpdate) : Environment :=
  let next := UpdateP2PHealthSensor k (UpdateDASensor (UpdateBTCSensor e u.btc) u.da) u.p2p
  { next with
    reanchoringProofValid := decide (e.state = .recovering ∧
      next.hBtcAnchored ≥ next.hBtcSubmitted ∧ next.hBtcSubmitted > 0) }

/-- Steps 3 to 5 of the decision hook: the decided proposal is written back into the
FSM and the sensors. -/
def syncDecision (prop : Proposal) : Environment :=
  let primed := ExecuteFSMTransition k.toConstants e.vars prop.fsmState
  let submits := prop.fsmState = .recovering ∧ prop.zkProofRef = true
  let reanchors := e.state = .recovering ∧ prop.fsmState = .anchored
  { e with
    state := primed.state
    suspiciousDuration := primed.suspiciousDuration
    unhealthyStreak := primed.unhealthyStreak
    failedRecoveryAttempts := primed.failedRecoveryAttempts
    safeBlocks := primed.safeBlocks
    suspiciousSafeBlocks := primed.suspiciousSafeBlocks
    hBtcAnchored := prop.btcReceipt.checkpointBlockHeight
    hEngramVerified := prop.daReceipt.publishedBlockHeight
    hBtcSubmitted := if submits then e.hBtcCurrent else e.hBtcSubmitted
    reanchoringProofValid := if submits then false else e.reanchoringProofValid
    hBtcCurrent := if reanchors then prop.btcReceipt.checkpointBlockHeight else e.hBtcCurrent
    hEngramCurrent :=
      if reanchors then prop.daReceipt.publishedBlockHeight else e.hEngramCurrent
    isDasFailed := if reanchors then false else e.isDasFailed
    isAttestationFailed := if reanchors then false else e.isAttestationFailed
    isBtcSpvFailed := if reanchors then false else e.isBtcSpvFailed }

end Sensors

section ServerHooks

variable (k : ServerConstants Node) (s : State Node) (p : Node)

def freshProposal (v : Value) (proofFound : Bool) : Proposal where
  value := v
  timestamp := s.localClock p
  round := s.round p
  fsmState := CalculateNextFSMState k.toConstants s.env.vars
  daReceipt := ⟨s.env.hEngramVerified, !s.env.isAttestationFailed⟩
  btcReceipt := ⟨s.env.hBtcAnchored, ExpectedBlockHash s.env.hBtcAnchored⟩
  zkProofRef := proofFound
  healthy := decide (IsHealthyCondition k.toConstants s.env.vars)

/-- A leader that saw a valid value proposes it again. -/
def leaderProposal (v : Value) (proofFound : Bool) : Proposal :=
  (s.validValue p).getD (freshProposal k s p v proofFound)

def eQC (round : ℕ) (caller : Node) : QuorumCert Node :=
  ⟨.eQC, round, caller, none, s.env.hBtcCurrent⟩

def mQC (round : ℕ) (caller : Node) (method : Value) : QuorumCert Node :=
  ⟨.mQC, round, caller, some method, s.env.hBtcCurrent⟩

def tQC (round : ℕ) (caller : Node) : TimeoutCert Node :=
  ⟨round, caller, s.env.hBtcCurrent⟩

/-- Hook 1: the leader injects a proposal and emits an `E_QC`. The true branch of the
proof search opens only once the hysteresis wait is met. -/
def ServerInsertProposal (v : Value) (proofFound : Bool) : Option (State Node) :=
  if ¬ GlobalDecisionExists k s ∧
      (proofFound = true → s.env.state = .recovering ∧ s.env.safeBlocks ≥ k.hysteresisWait) then
    (InsertProposal k s p (leaderProposal k s p v proofFound)).map fun next =>
      { next with quorumCerts := insert (eQC s (s.round p) p) s.quorumCerts }
  else none

inductive ProposeHandler where
  | uponProposalInPropose
  | uponProposalInProposeAndPrevote
  deriving DecidableEq, Repr

def ProposeHandler.run : ProposeHandler → ProposalMsg Node → Option (State Node)
  | .uponProposalInPropose => UponProposalInPropose k s p
  | .uponProposalInProposeAndPrevote => UponProposalInProposeAndPrevote k s p

/-- Hook 2: a leader voting on a round with its own proposal emits an `M_QC`. -/
def ServerProposerVotes (handler : ProposeHandler) (msg own : ProposalMsg Node) :
    Option (State Node) :=
  if p = k.proposer (s.round p) ∧ ∃ m ∈ s.msgsPropose (s.round p), m.src = p then
    if own ∈ s.msgsPropose (s.round p) ∧ own.src = p then
      (handler.run k s p msg).map fun next =>
        { next with quorumCerts := insert (mQC s (s.round p) p own.proposal.value) s.quorumCerts }
    else none
  else handler.run k s p msg

/-- Hook 3: a decision drives the FSM and the sensor synchronisation. -/
def ServerUponProposalInPrecommitNoDecision (msg : ProposalMsg Node) : Option (State Node) :=
  (UponProposalInPrecommitNoDecision k s p msg).map fun next =>
    { next with env := syncDecision k s.env msg.proposal }

/-- Hook 4: a timeout quorum of the node's own round emits a `T_QC`. -/
def ServerUponTimeoutCert : Option (State Node) :=
  if ((s.msgsTimeout (s.round p)).image TimeoutMsg.src).card ≥ k.threshold2 ∧
      ¬ ∃ tqc ∈ s.timeoutCerts, tqc.round = s.round p then
    some { s with timeoutCerts := insert (tQC s (s.round p) p) s.timeoutCerts }
  else none

def ServerAdvanceRealTime : Option (State Node) :=
  if ∃ qc ∈ s.quorumCerts, qc.round = currentMaxRound k s then none
  else AdvanceRealTime k s

def ServerUpdateEnvironment (u : SensorUpdate) : Option (State Node) :=
  some { s with env := UpdateSensors k s.env u }

def ServerByzantinePull (r : ℕ) : Option (State Node) :=
  if r ≤ k.maxRound ∧ k.proposer r ∈ k.byzantineNodes ∧ s.msgsPropose r = ∅ ∧
      (¬ ∃ q ∈ s.quorumCerts, q.type = .eQC ∧ q.round = r ∧ q.caller = k.proposer r) ∧
      ∀ q ∈ k.honestNodes, s.round q ≤ r then
    some { s with quorumCerts := insert (eQC s r (k.proposer r)) s.quorumCerts }
  else none

def ServerByzantineDataWithholding (r : ℕ) (tx : Value) : Option (State Node) :=
  if (∃ q ∈ s.quorumCerts, q.type = .eQC ∧ q.round = r ∧ q.caller = k.proposer r) ∧
      ∀ q ∈ k.honestNodes, s.round q ≤ r then
    (ByzantineDataWithholding k s r tx).map fun next =>
      { next with quorumCerts := insert (mQC s r (k.proposer r) tx) s.quorumCerts }
  else none

def ServerHonestTimeout (r : ℕ) (caller : Node) : Option (State Node) :=
  if r ≤ k.maxRound ∧ k.proposer r ∈ k.byzantineNodes ∧
      (∃ q ∈ s.quorumCerts, q.type = .eQC ∧ q.round = r ∧ q.caller = k.proposer r) ∧
      (¬ ∃ q ∈ s.quorumCerts, q.type = .mQC ∧ q.round = r ∧ q.caller = k.proposer r) ∧
      (¬ ∃ tqc ∈ s.timeoutCerts, tqc.round = r) ∧
      (∃ q ∈ k.honestNodes, s.round q = r) ∧ caller ∈ k.honestNodes then
    some { s with timeoutCerts := insert (tQC s r caller) s.timeoutCerts }
  else none

/-- The round skip does not count the synthetic round against the forced queue. -/
def ServerHonestRoundSkip : Option (State Node) :=
  if p ∈ k.honestNodes ∧ (∃ tqc ∈ s.timeoutCerts, tqc.round = s.round p) ∧
      s.step p ≠ .decided ∧ s.round p + 1 ≤ k.maxRound then
    some (enterRound k s p (s.round p + 1))
  else none

end ServerHooks

/-- The disjuncts of `ServerMessageProcessing`. -/
inductive MessageAction (Node : Type) where
  | receiveProposal (msg : ProposalMsg Node)
  | uponProposalInPropose (msg : ProposalMsg Node)
  | uponProposalInProposeAndPrevote (msg : ProposalMsg Node)
  | uponQuorumOfPrevotesAny
  | uponProposalInPrevoteOrCommitAndPrevote (msg : ProposalMsg Node)
  | uponQuorumOfPrecommitsAny
  | onTimeoutPropose
  | onQuorumOfNilPrevotes
  | onRoundCatchup (r : ℕ)
  | uponfPlusOneTimeoutsAny (r : ℕ)
  | onLocalTimerExpire
  | serverInsertProposal (v : Value) (proofFound : Bool)
  | serverProposerVotes (handler : ProposeHandler) (msg own : ProposalMsg Node)
  | serverUponProposalInPrecommitNoDecision (msg : ProposalMsg Node)
  | serverUponTimeoutCert

/-- The disjuncts of `ServerNext`. -/
inductive Action (Node : Type) where
  | advanceRealTime
  | updateEnvironment (u : SensorUpdate)
  | messageProcessing (p : Node) (m : MessageAction Node)
  | byzantinePull (r : ℕ)
  | byzantineDataWithholding (r : ℕ) (tx : Value)
  | honestTimeout (r : ℕ) (caller : Node)
  | honestRoundSkip (p : Node)

section Next

variable (k : ServerConstants Node) (s : State Node)

def ServerMessageProcessing (p : Node) : MessageAction Node → Option (State Node)
  | .receiveProposal msg => ReceiveProposal k s p msg
  | .uponProposalInPropose msg => UponProposalInPropose k s p msg
  | .uponProposalInProposeAndPrevote msg => UponProposalInProposeAndPrevote k s p msg
  | .uponQuorumOfPrevotesAny => UponQuorumOfPrevotesAny k s p
  | .uponProposalInPrevoteOrCommitAndPrevote msg =>
      UponProposalInPrevoteOrCommitAndPrevote k s p msg
  | .uponQuorumOfPrecommitsAny =>
      if GlobalDecisionExists k s then none else UponQuorumOfPrecommitsAny k s p
  | .onTimeoutPropose => OnTimeoutPropose k s p
  | .onQuorumOfNilPrevotes => OnQuorumOfNilPrevotes k s p
  | .onRoundCatchup r => OnRoundCatchup k s p r
  | .uponfPlusOneTimeoutsAny r => UponfPlusOneTimeoutsAny k s p r
  | .onLocalTimerExpire => OnLocalTimerExpire k s p
  | .serverInsertProposal v proofFound => ServerInsertProposal k s p v proofFound
  | .serverProposerVotes handler msg own => ServerProposerVotes k s p handler msg own
  | .serverUponProposalInPrecommitNoDecision msg =>
      ServerUponProposalInPrecommitNoDecision k s p msg
  | .serverUponTimeoutCert => ServerUponTimeoutCert k s p

def ServerNext : Action Node → Option (State Node)
  | .advanceRealTime => ServerAdvanceRealTime k s
  | .updateEnvironment u => ServerUpdateEnvironment k s u
  | .messageProcessing p m =>
      if SynchronizedLocalClocks k s ∧ p ∈ k.honestNodes then ServerMessageProcessing k s p m
      else none
  | .byzantinePull r => ServerByzantinePull k s r
  | .byzantineDataWithholding r tx => ServerByzantineDataWithholding k s r tx
  | .honestTimeout r caller => ServerHonestTimeout k s r caller
  | .honestRoundSkip p => ServerHonestRoundSkip k s p

end Next

/-- A run of `ServerSpec`: its steps, newest first, and the state it reaches. -/
def ServerRun (k : ServerConstants Node) (past : List (Move (State Node) (Action Node)))
    (now : State Node) : Prop :=
  ∃ start, ServerInit k start ∧ Run (ServerNext k) start past now

end Engram.Spec.Server
