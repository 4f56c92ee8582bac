import Engram.Node.Proposal
import Engram.Node.Sensors

/-!
The leader's `PrepareProposal` and the validator's `ProcessProposal`. Both
refresh the metrics on a branch of the committed store that is discarded
afterwards, so each returns its answer and no store.
-/

set_option autoImplicit false
set_option relaxedAutoImplicit false

namespace Engram.Node

open Engram.Types Engram.Keeper

/-- Recognised values of `ENGRAM_BYZANTINE_BEHAVIOR`; every other value, and a
target that is not hexadecimal, behaves as `honest`. -/
inductive ByzantineBehavior where
  | honest
  | fakeFsmState (state : FSMState)
  | forgeBtcHash
  | falseDaAttestation
  | censorTx (target : Bytes)

def applyByzantineBehavior (ext : ExtendedProposal) (txs : List Bytes) :
    ByzantineBehavior → ExtendedProposal × List Bytes
  | .honest => (ext, txs)
  | .fakeFsmState state => ({ ext with fsmState := state }, txs)
  | .forgeBtcHash =>
      ({ ext with btcReceipt := { ext.btcReceipt with
          checkpointBlockHash := ⟨"FORGED", ext.btcReceipt.checkpointBlockHeight⟩ } }, txs)
  | .falseDaAttestation =>
      ({ ext with daReceipt := ⟨ext.daReceipt.publishedBlockHeight + 1, true⟩ }, txs)
  | .censorTx target => (ext, txs.filter (fun tx => tx ≠ target))

section Leader

variable (p : Params) (s : Option Sensors) (height : UInt64) (committed : Store)

/-- The Bitcoin checkpoint the leader publishes: its own confirmed anchor when
that advances the committed one and does not exceed the observed tip. -/
def leaderCheckpoint : UInt64 :=
  let st := refreshMetrics p height committed s
  match (s.bind Sensors.anchor).bind AnchorTracker.confirmedAnchorHeight with
  | some confirmed =>
      if confirmed > st.hBtcAnchored && confirmed ≤ st.hBtcCurrent then confirmed
      else st.hBtcAnchored
  | none => st.hBtcAnchored

/-- The DA height the leader publishes: the committed one, advanced to what its
own publisher verified. -/
def leaderDAHeight : UInt64 :=
  match (s.bind Sensors.daPublisher).bind DAAvailabilitySource.verifiedHeight with
  | some verified =>
      if verified > committed.hEngramVerified then verified else committed.hEngramVerified
  | none => committed.hEngramVerified

def leaderProposal : ExtendedProposal :=
  let st := refreshMetrics p height committed s
  let inp := st.currentFSMInput
  let targetState := calculateNextState st.currState inp p
  let daHeight := leaderDAHeight s committed
  let checkpoint := leaderCheckpoint p s height committed
  let daReceipt : DA.Receipt := ⟨daHeight, daHeight > 0⟩
  let zkProofRef :=
    if targetState = .recovering ∧ inp.safeBlocks = p.hysteresisWait ∧
        daReceipt.attestation = true ∧ daReceipt.publishedBlockHeight > st.hEngramVerified then
      st.lastAnchoredRoot.getD []
    else []
  { fsmState := targetState
    healthy := isHealthyCondition inp.metrics p
    daReceipt := daReceipt
    btcReceipt := ⟨checkpoint, Anchor.expectedBlockHash checkpoint⟩
    zkProofRef := zkProofRef }

/-- While withdrawals are locked the leader leaves them out. -/
def leaderTxs (targetState : FSMState) (txs : List Bytes) : List Bytes :=
  if withdrawLocked targetState then txs.filter (fun tx => !containsWithdrawal tx) else txs

def prepareProposal (behavior : ByzantineBehavior) (txs : List Bytes) : List Bytes :=
  let ext := leaderProposal p s height committed
  let (ext, innerTxs) := applyByzantineBehavior ext (leaderTxs ext.fsmState txs) behavior
  encodeExtendedProposal ext :: innerTxs

end Leader

def verifyZkProofFlag (zkProofRef : Bytes) (receipt : DA.Receipt) (hEngramVerified : UInt64) :
    Bool :=
  !zkProofRef.isEmpty && receipt.attestation && receipt.publishedBlockHeight > hEngramVerified

/-- Check 3b: a checkpoint above the committed anchor is confirmed against the
validator's own bitcoind, when an anchor tracker is wired. -/
def anchorConfirmed (s : Option Sensors) (checkpoint hBtcAnchored : UInt64) : Bool :=
  match s.bind Sensors.anchor with
  | some tracker =>
      if checkpoint > hBtcAnchored then tracker.verifyAnchor checkpoint == some true else true
  | none => true

/-- The checks of `ProcessProposal` on a decoded proposal, in the order of the
handler. -/
def processExtended (p : Params) (s : Option Sensors) (height : UInt64) (committed : Store)
    (ext : ExtendedProposal) (innerTxs : List Bytes) (round : UInt64) : Bool :=
  let st := refreshMetrics p height committed s
  -- 0. forced inclusion, enforced only below the round limit
  if round < p.maxCensorshipRounds &&
      isCensoring st.forcedTxQueueSlice st.ignoredRounds innerTxs.contains p.maxIgnoreRounds then
    false
  else
    let inp := st.currentFSMInput
    -- 1. and 1b. the FSM state and the health flag are recomputed
    if ext.fsmState ≠ calculateNextState st.currState inp p then false
    else if ext.healthy ≠ isHealthyCondition inp.metrics p then false
    -- 2. DA pipeline
    else if !DA.verifyReceipt ext.daReceipt ext.fsmState (isDAHealthy inp.metrics p)
        st.hEngramCurrent p.daThreshold round then false
    -- 3. and 3b. settlement
    else if !Anchor.verifyReceipt ext.btcReceipt ext.fsmState (isBTCHealthy inp.metrics p)
        st.hBtcCurrent st.hBtcAnchored round p.kDeepFinality then false
    else if !anchorConfirmed s ext.btcReceipt.checkpointBlockHeight st.hBtcAnchored then false
    -- 4. circuit breaker
    else if withdrawLocked ext.fsmState && innerTxs.any containsWithdrawal then false
    -- 5. re-anchoring gate
    else if ext.fsmState = .recovering ∧ inp.safeBlocks = p.hysteresisWait then
      verifyZkProofFlag ext.zkProofRef ext.daReceipt st.hEngramVerified
    else ext.zkProofRef.isEmpty

structure ProcessRequest where
  txs : List Bytes
  round : UInt64

/-- `ProcessProposal`: true is ACCEPT. -/
def processProposal (external : External) (p : Params) (s : Option Sensors) (height : UInt64)
    (committed : Store) (req : ProcessRequest) : Bool :=
  match req.txs with
  | [] => false
  | tx :: innerTxs =>
      match decodeExtendedProposal external tx with
      | .proposal ext => processExtended p s height committed ext innerTxs req.round
      | _ => false

/-- Check 5 as a condition on the proposal. -/
def ReanchoringGate (p : Params) (st : Store) (ext : ExtendedProposal) : Prop :=
  if ext.fsmState = .recovering ∧ st.safeBlocks = p.hysteresisWait then
    ext.zkProofRef ≠ [] ∧ ext.daReceipt.attestation = true ∧
      st.hEngramVerified < ext.daReceipt.publishedBlockHeight
  else ext.zkProofRef = []

private theorem reject_iff (c : Prop) [Decidable c] (rest : Bool) :
    (if c then false else rest) = true ↔ ¬ c ∧ rest = true := by
  by_cases rejected : c <;> simp [rejected]

private theorem gate_iff (p : Params) (st : Store) (ext : ExtendedProposal) :
    (if ext.fsmState = .recovering ∧ st.safeBlocks = p.hysteresisWait then
        verifyZkProofFlag ext.zkProofRef ext.daReceipt st.hEngramVerified
      else ext.zkProofRef.isEmpty) = true ↔ ReanchoringGate p st ext := by
  unfold ReanchoringGate verifyZkProofFlag
  split <;> simp [and_assoc]

theorem processExtended_iff (p : Params) (s : Option Sensors) (height : UInt64)
    (committed : Store) (ext : ExtendedProposal) (innerTxs : List Bytes) (round : UInt64) :
    processExtended p s height committed ext innerTxs round = true ↔
      let st := refreshMetrics p height committed s
      let metrics := st.currentFSMInput.metrics
      ¬ (round < p.maxCensorshipRounds ∧ isCensoring st.forcedTxQueueSlice st.ignoredRounds
          innerTxs.contains p.maxIgnoreRounds = true) ∧
        ext.fsmState = calculateNextState st.currState st.currentFSMInput p ∧
        ext.healthy = isHealthyCondition metrics p ∧
        DA.verifyReceipt ext.daReceipt ext.fsmState (isDAHealthy metrics p) st.hEngramCurrent
          p.daThreshold round = true ∧
        Anchor.verifyReceipt ext.btcReceipt ext.fsmState (isBTCHealthy metrics p) st.hBtcCurrent
          st.hBtcAnchored round p.kDeepFinality = true ∧
        anchorConfirmed s ext.btcReceipt.checkpointBlockHeight st.hBtcAnchored = true ∧
        (withdrawLocked ext.fsmState = true → ∀ tx ∈ innerTxs, containsWithdrawal tx = false) ∧
        ReanchoringGate p st ext := by
  unfold processExtended
  simp only [reject_iff]
  refine and_congr (by simp) (and_congr (by simp) (and_congr (by simp) (and_congr (by simp)
    (and_congr (by simp) (and_congr (by simp) (and_congr (by simp) (gate_iff p _ ext)))))))

end Engram.Node
