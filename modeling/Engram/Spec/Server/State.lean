import Engram.Spec.EngramFSM
import Engram.Library.GuardedRun
import Engram.Library.LockedVoting
import Mathlib.Data.Finset.Lattice.Fold
import Mathlib.Order.Lattice.Nat

/-!
The variables of `ServerSpec` (`EngramVars.tla`) and the predicates its actions read.
Nil proposals, rounds, values and decisions are `none`. The variables that no guard
reads (`evidence`, `action` and the timing ghosts) are left out.
-/

set_option autoImplicit false
set_option relaxedAutoImplicit false

namespace Engram.Spec.Server

open Engram.Types Engram.Library

inductive Value where
  | txNormal
  | txWithdrawal
  deriving DecidableEq, Repr

inductive HashTag where
  | btcBlock
  | btcFork
  deriving DecidableEq, Repr

structure DAReceipt where
  publishedBlockHeight : ℕ
  attestation : Bool
  deriving DecidableEq, Repr

structure BTCReceipt where
  checkpointBlockHeight : ℕ
  checkpointBlockHash : HashTag × ℕ
  deriving DecidableEq, Repr

structure Proposal where
  value : Value
  timestamp : ℕ
  round : ℕ
  fsmState : FSMState
  daReceipt : DAReceipt
  btcReceipt : BTCReceipt
  zkProofRef : Bool
  healthy : Bool
  deriving DecidableEq, Repr

structure Decision where
  prop : Proposal
  round : ℕ
  deriving DecidableEq, Repr

inductive Phase where
  | propose
  | prevote
  | precommit
  | decided
  deriving DecidableEq, Repr

structure ProposalMsg (Node : Type) where
  src : Node
  round : ℕ
  proposal : Proposal
  validRound : Option ℕ
  deriving DecidableEq, Repr

/-- A prevote or a precommit; the nil vote has no `id`. -/
structure Vote (Node : Type) where
  src : Node
  round : ℕ
  id : Option Proposal
  deriving DecidableEq, Repr

structure TimeoutMsg (Node : Type) where
  src : Node
  round : ℕ
  deriving DecidableEq, Repr

inductive CertType where
  | eQC
  | mQC
  deriving DecidableEq, Repr

/-- An `E_QC` or `M_QC`; the method `"None"` of an `E_QC` is `none`. -/
structure QuorumCert (Node : Type) where
  type : CertType
  round : ℕ
  caller : Node
  method : Option Value
  btcAnchored : ℕ
  deriving DecidableEq, Repr

structure TimeoutCert (Node : Type) where
  round : ℕ
  caller : Node
  btcAnchored : ℕ
  deriving DecidableEq, Repr

inductive Peer where
  | anchorN1
  | anchorN2
  | anchorN3
  | sybilN1
  | sybilN2
  | sybilN3
  | honestNode1
  | honestNode2
  deriving DecidableEq, Repr

inductive Subnet where
  | subnetA
  | subnetB
  | subnetC
  | subnetMalicious
  | subnetD
  | subnetE
  deriving DecidableEq, Repr

def SubnetOf : Peer → Subnet
  | .anchorN1 => .subnetA
  | .anchorN2 => .subnetB
  | .anchorN3 => .subnetC
  | .sybilN1 | .sybilN2 | .sybilN3 => .subnetMalicious
  | .honestNode1 => .subnetD
  | .honestNode2 => .subnetE

/-- `fsmVars` and `networkSensorVars`. -/
structure Environment where
  state : FSMState
  safeBlocks : ℕ
  suspiciousDuration : ℕ
  suspiciousSafeBlocks : ℕ
  unhealthyStreak : ℕ
  failedRecoveryAttempts : ℕ
  reanchoringProofValid : Bool
  activePeers : Finset Peer
  anchorPeers : Finset Peer
  blacklistedPeers : Finset Peer
  peerChurnRate : ℕ
  avgPeerTenure : ℕ
  peerLatency : ℕ
  hEngramCurrent : ℕ
  hEngramVerified : ℕ
  isAttestationFailed : Bool
  isDasFailed : Bool
  hBtcCurrent : ℕ
  hBtcSubmitted : ℕ
  hBtcAnchored : ℕ
  isBtcSpvFailed : Bool

/-- The sensor quantities that the rule engine of `EngramFSM.tla` reads. -/
def Environment.vars (e : Environment) : Vars where
  state := e.state
  btcGap := (e.hBtcCurrent : ℤ) - (MinVal e.hBtcSubmitted e.hBtcAnchored : ℤ)
  isBtcSpvFailed := e.isBtcSpvFailed
  daGap := (e.hEngramCurrent : ℤ) - (e.hEngramVerified : ℤ)
  isDasFailed := e.isDasFailed
  isAttestationFailed := e.isAttestationFailed
  subnetDiversity := (e.activePeers.image SubnetOf).card
  activeAnchors := (e.activePeers ∩ e.anchorPeers).card
  cleanPeers := (e.activePeers \ e.blacklistedPeers).card
  peerChurnRate := e.peerChurnRate
  avgPeerTenure := e.avgPeerTenure
  peerLatency := e.peerLatency
  safeBlocks := e.safeBlocks
  suspiciousDuration := e.suspiciousDuration
  suspiciousSafeBlocks := e.suspiciousSafeBlocks
  unhealthyStreak := e.unhealthyStreak
  failedRecoveryAttempts := e.failedRecoveryAttempts
  reanchoringProofValid := e.reanchoringProofValid

/-- The constants of the specification. The node sets carry `N = 3T + 1`, their
disjointness and the bound on the Byzantine nodes. -/
structure ServerConstants (Node : Type) [DecidableEq Node] extends Constants where
  system : QuorumSystem Node
  maxRound : ℕ
  proposer : ℕ → Node
  maxTimestamp : ℕ
  minTimestamp : ℕ
  delay : ℕ
  precision : ℕ
  timeoutDuration : ℕ
  maxIgnoreRounds : ℕ
  maxCensorshipRounds : ℕ

namespace ServerConstants

variable {Node : Type} [DecidableEq Node] (k : ServerConstants Node)

def honestNodes : Finset Node := k.system.honest

def byzantineNodes : Finset Node := k.system.faulty

def threshold1 : ℕ := k.system.tolerance + 1

def threshold2 : ℕ := 2 * k.system.tolerance + 1

end ServerConstants

structure State (Node : Type) where
  round : Node → ℕ
  step : Node → Phase
  decision : Node → Option Decision
  lockedValue : Node → Option Value
  lockedRound : Node → Option ℕ
  validValue : Node → Option Proposal
  validRound : Node → Option ℕ
  localClock : Node → ℕ
  realTime : ℕ
  localRemTime : Node → ℕ
  msgsPropose : ℕ → Finset (ProposalMsg Node)
  msgsPrevote : ℕ → Finset (Vote Node)
  msgsPrecommit : ℕ → Finset (Vote Node)
  msgsTimeout : ℕ → Finset (TimeoutMsg Node)
  receivedTimelyProposal : Node → Finset (ProposalMsg Node)
  inspectedProposal : ℕ → Node → Option ℕ
  env : Environment
  forcedTxQueue : Finset Value
  txIgnoredRounds : Node → Value → ℕ
  quorumCerts : Finset (QuorumCert Node)
  timeoutCerts : Finset (TimeoutCert Node)

section Initial

variable {Node : Type} [DecidableEq Node] (k : ServerConstants Node)

def FaultyTimeouts (r : ℕ) : Finset (TimeoutMsg Node) :=
  k.byzantineNodes.image fun f => ⟨f, r⟩

/-- `FaultyPrevotes` and `FaultyPrecommits`: the nil votes of the Byzantine nodes. -/
def FaultyVotes (r : ℕ) : Finset (Vote Node) :=
  k.byzantineNodes.image fun f => ⟨f, r, none⟩

def FSMInit : Environment where
  state := .anchored
  safeBlocks := 0
  suspiciousDuration := 0
  suspiciousSafeBlocks := 0
  unhealthyStreak := 0
  failedRecoveryAttempts := 0
  reanchoringProofValid := false
  activePeers := {.anchorN1, .anchorN2, .anchorN3}
  anchorPeers := {.anchorN1, .anchorN2, .anchorN3}
  blacklistedPeers := ∅
  peerChurnRate := 0
  avgPeerTenure := k.minAvgTenure
  peerLatency := 0
  hEngramCurrent := 0
  hEngramVerified := 0
  isAttestationFailed := false
  isDasFailed := false
  hBtcCurrent := 0
  hBtcSubmitted := 0
  hBtcAnchored := 0
  isBtcSpvFailed := false

def initialState (clock : Node → ℕ) : State Node where
  round _ := 0
  step _ := .propose
  decision _ := none
  lockedValue _ := none
  lockedRound _ := none
  validValue _ := none
  validRound _ := none
  localClock := clock
  realTime := 0
  localRemTime _ := k.timeoutDuration
  msgsPropose _ := ∅
  msgsPrevote := FaultyVotes k
  msgsPrecommit := FaultyVotes k
  msgsTimeout := FaultyTimeouts k
  receivedTimelyProposal _ := ∅
  inspectedProposal _ _ := none
  env := FSMInit k
  forcedTxQueue := {.txNormal}
  txIgnoredRounds _ _ := 0
  quorumCerts := ∅
  timeoutCerts := ∅

/-- `ServerInit`: the honest clocks start within the precision of the minimum. -/
def ServerInit (s : State Node) : Prop :=
  ∃ clock : Node → ℕ,
    (∀ p ∈ k.honestNodes, k.minTimestamp ≤ clock p ∧ clock p ≤ k.minTimestamp + k.precision) ∧
    s = initialState k clock

end Initial

section Predicates

variable {Node : Type} [DecidableEq Node] (k : ServerConstants Node)

def IsTimely (processTime messageTime : ℕ) : Prop :=
  (processTime : ℤ) ≥ (messageTime : ℤ) - k.precision ∧
    processTime ≤ messageTime + k.precision + k.delay

def SynchronizedLocalClocks (s : State Node) : Prop :=
  ∀ p ∈ k.honestNodes, ∀ q ∈ k.honestNodes, p ≠ q →
    (s.localClock p ≥ s.localClock q ∧ s.localClock p - s.localClock q ≤ k.precision) ∨
    (s.localClock p < s.localClock q ∧ s.localClock q - s.localClock p ≤ k.precision)

/-- The tolerance of the specification's own data-availability check. -/
def DATolerance (r : ℕ) : ℕ := if r ≤ 1 then 0 else if r = 2 then 2 else 4

/-- The tolerance of the specification's own settlement check. -/
def BTCTolerance (r : ℕ) : ℕ := if r ≤ 2 then 0 else 1

def ContainsWithdrawal (value : Value) : Prop := value = .txWithdrawal

def ExpectedBlockHash (height : ℕ) : HashTag × ℕ := (.btcBlock, height)

variable (e : Environment)

def VerifyZkProof (zkProof : Bool) (receipt : DAReceipt) : Prop :=
  zkProof = true ∧ receipt.attestation = true ∧ receipt.publishedBlockHeight > e.hEngramVerified

def VerifySPVProof (receipt : BTCReceipt) : Prop :=
  receipt.checkpointBlockHeight ≤ e.hBtcCurrent ∧
    receipt.checkpointBlockHeight ≥ e.hBtcAnchored ∧
    receipt.checkpointBlockHash = ExpectedBlockHash receipt.checkpointBlockHeight

/-- The semantic firewall. Every `Value` is one of the two valid values. -/
def IsValidProposal (prop : Proposal) : Prop :=
  (k.minTimestamp ≤ prop.timestamp ∧ prop.timestamp ≤ k.maxTimestamp) ∧
  prop.fsmState = CalculateNextFSMState k.toConstants e.vars ∧
  (prop.healthy = true ↔ IsHealthyCondition k.toConstants e.vars) ∧
  ((prop.fsmState = .anchored ∨ prop.fsmState = .recovering) ∨
      IsDAHealthy k.toConstants e.vars →
    prop.daReceipt.attestation = true ∧
      prop.daReceipt.publishedBlockHeight ≤ e.hEngramCurrent ∧
      (prop.daReceipt.publishedBlockHeight : ℤ) ≥
        (e.hEngramCurrent : ℤ) - k.daThreshold - DATolerance prop.round) ∧
  ((prop.fsmState = .anchored ∨ prop.fsmState = .recovering) ∨
      IsBTCHealthy k.toConstants e.vars →
    (prop.btcReceipt.checkpointBlockHeight : ℤ) ≥
        (e.hBtcCurrent : ℤ) - BTCTolerance prop.round ∧
      VerifySPVProof e prop.btcReceipt) ∧
  (prop.fsmState = .sovereign ∨ prop.fsmState = .recovering → ¬ ContainsWithdrawal prop.value) ∧
  if prop.fsmState = .recovering ∧ e.safeBlocks = k.hysteresisWait then
    VerifyZkProof e prop.zkProofRef prop.daReceipt
  else prop.zkProofRef = false

variable (s : State Node)

def IsCensoring (p : Node) (prop : Proposal) : Prop :=
  prop.round < k.maxCensorshipRounds ∧
    ∃ tx ∈ s.forcedTxQueue, s.txIgnoredRounds p tx ≥ k.maxIgnoreRounds ∧ prop.value ≠ tx

def votesFor (votes : Finset (Vote Node)) (id : Option Proposal) : Finset (Vote Node) :=
  votes.filter fun m => m.id = id

/-- Some round holds a quorum of matching precommits for a proposal. -/
def GlobalDecisionExists : Prop :=
  ∃ r ∈ Finset.range (k.maxRound + 1), ∃ m ∈ s.msgsPrecommit r,
    m.id ≠ none ∧ (votesFor (s.msgsPrecommit r) m.id).card ≥ k.threshold2

/-- `Max({round[p] : p \in HonestNodes})`. -/
def currentMaxRound : ℕ := k.honestNodes.sup s.round

instance (processTime messageTime : ℕ) : Decidable (IsTimely k processTime messageTime) :=
  inferInstanceAs (Decidable (_ ∧ _))
instance : Decidable (SynchronizedLocalClocks k s) :=
  inferInstanceAs (Decidable (∀ p ∈ k.honestNodes, ∀ q ∈ k.honestNodes, _))
instance (value : Value) : Decidable (ContainsWithdrawal value) :=
  inferInstanceAs (Decidable (value = .txWithdrawal))
instance (zkProof : Bool) (receipt : DAReceipt) : Decidable (VerifyZkProof e zkProof receipt) :=
  inferInstanceAs (Decidable (_ ∧ _))
instance (receipt : BTCReceipt) : Decidable (VerifySPVProof e receipt) :=
  inferInstanceAs (Decidable (_ ∧ _))
instance (prop : Proposal) : Decidable (IsValidProposal k e prop) :=
  inferInstanceAs (Decidable (_ ∧ _ ∧ _ ∧ _ ∧ _ ∧ _ ∧ _))
instance (p : Node) (prop : Proposal) : Decidable (IsCensoring k s p prop) :=
  inferInstanceAs (Decidable (_ ∧ _))
instance : Decidable (GlobalDecisionExists k s) :=
  inferInstanceAs (Decidable (∃ r ∈ Finset.range (k.maxRound + 1), _))

end Predicates

end Engram.Spec.Server
