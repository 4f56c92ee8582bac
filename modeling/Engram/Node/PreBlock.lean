import Engram.Node.ProposalHandlers

/-!
The pre-blocker: evidence recording, forced-transaction tracking and the commit
of the agreed FSM transition. Nothing here reads a live sensor.
-/

set_option autoImplicit false
set_option relaxedAutoImplicit false

namespace Engram.Node

open Engram.Types Engram.Keeper Engram.Library

structure Misbehavior where
  kind : Int
  validatorAddress : Bytes
  validatorPower : Int
  height : Int
  time : Int

def misbehaviorTypeName (kind : Int) : String :=
  if kind = 1 then "DuplicateVote" else if kind = 2 then "LightClientAttack" else "Unknown"

def recordDetectedEvidence (height : UInt64) (st : Store) (misbehavior : List Misbehavior) :
    Store :=
  misbehavior.foldl (fun st m =>
    { st with
      lastDetectedEvidence := some {
        kind := misbehaviorTypeName m.kind
        validatorAddress := m.validatorAddress
        validatorPower := m.validatorPower
        offenseHeight := m.height
        offenseTime := m.time
        detectedAtHeight := height.toNat }
      detectedEvidenceCount := st.detectedEvidenceCount + 1 }) st

/-- One queued transaction after the block: dequeued when included, otherwise
its counter is written. -/
def trackForcedTx (included : Bytes → Bool) (st : Store) (entry : Bytes × UInt64) : Store :=
  if included entry.1 then
    { st with
      forcedTxQueue := st.forcedTxQueue.remove entry.1
      txIgnoredRounds := st.txIgnoredRounds.remove entry.1 }
  else { st with txIgnoredRounds := st.txIgnoredRounds.set entry.1 entry.2 }

/-- `updateForcedTxTracking`. Every transaction of the block counts as included,
the extended proposal among them. -/
def updateForcedTxTracking (p : Params) (st : Store) (txs : List Bytes) : Store :=
  (nextIgnoredRounds st.forcedTxQueueSlice st.ignoredRounds txs.contains
    p.maxIgnoreRounds).foldl (trackForcedTx txs.contains) st

def claimsProof (ext : ExtendedProposal) : Bool :=
  ext.fsmState == .recovering && !ext.zkProofRef.isEmpty

def reanchors (st : Store) (ext : ExtendedProposal) : Bool :=
  st.currState == .recovering && ext.fsmState == .anchored

/-- `CommitFSMTransition`. Every item is computed from the store before the
block; in the handler no write is read back by a later one. -/
def commitFSMTransition (p : Params) (height : UInt64) (appHash : Bytes) (st : Store)
    (ext : ExtendedProposal) : Store :=
  let currState := st.currState
  { st with
    -- step 3: the agreed state, the counters and the agreed heights
    fsmState := some ext.fsmState
    safeBlocks := nextSafeBlocks currState ext.fsmState st.safeBlocks ext.healthy p
    suspiciousDuration := nextSuspiciousDuration currState ext.fsmState st.suspiciousDuration p
    unhealthyStreak := nextUnhealthyStreak currState ext.fsmState st.unhealthyStreak ext.healthy
    suspiciousSafeBlocks :=
      nextSuspiciousSafeBlocks currState ext.fsmState st.suspiciousSafeBlocks ext.healthy p
    failedRecoveryAttempts :=
      nextFailedRecoveryAttempts currState ext.fsmState st.failedRecoveryAttempts p
    hBtcAnchored := ext.btcReceipt.checkpointBlockHeight
    hEngramVerified := ext.daReceipt.publishedBlockHeight
    -- step 4: a claimed proof is marked submitted at the committed tip
    hBtcSubmitted := if claimsProof ext then st.hBtcCurrent else st.hBtcSubmitted
    reanchoringProofValid := if claimsProof ext then false else st.reanchoringProofValid
    -- step 5: re-anchoring overwrites the observed heights and two failure flags
    hBtcCurrent :=
      if reanchors st ext then ext.btcReceipt.checkpointBlockHeight else st.hBtcCurrent
    hEngramCurrent :=
      if reanchors st ext then ext.daReceipt.publishedBlockHeight else st.hEngramCurrent
    metrics :=
      if reanchors st ext then
        some { st.metrics.getD {} with isDasFailed := false, isAttestationFailed := false }
      else st.metrics
    realProofSubmittedHeight :=
      if currState = .recovering ∧ ext.fsmState ≠ .recovering then 0
      else st.realProofSubmittedHeight
    -- step 6: headers are tracked while locked and dropped when the lock ends
    lastAnchoredRoot :=
      if withdrawLocked ext.fsmState && !withdrawLocked currState then
        some (reduceToField appHash)
      else st.lastAnchoredRoot
    headerHistory :=
      if withdrawLocked ext.fsmState then
        st.headerHistory.set height ⟨ext.fsmState, true, reduceToField appHash⟩
      else if withdrawLocked currState then st.pruneHeaderHistory.headerHistory
      else st.headerHistory }

def preBlocker (external : External) (p : Params) (height : UInt64) (appHash : Bytes)
    (st : Store) (misbehavior : List Misbehavior) (txs : List Bytes) : Store :=
  let st := recordDetectedEvidence height st misbehavior
  let st := updateForcedTxTracking p st txs
  match txs with
  | [] => st
  | tx :: _ =>
      match decodeExtendedProposal external tx with
      | .proposal ext => commitFSMTransition p height appHash st ext
      | _ => st

/-- Evidence and forced-transaction bookkeeping touch nothing the FSM reads. -/
def Bookkeeping (st st' : Store) : Prop :=
  ∃ queue ignored count evidence, st' = { st with
    forcedTxQueue := queue, txIgnoredRounds := ignored,
    detectedEvidenceCount := count, lastDetectedEvidence := evidence }

theorem Bookkeeping.currState {st st' : Store} (kept : Bookkeeping st st') :
    st'.currState = st.currState := by
  obtain ⟨_, _, _, _, rfl⟩ := kept
  rfl

theorem Bookkeeping.recovery {st st' : Store} (kept : Bookkeeping st st') :
    st'.headerHistory = st.headerHistory ∧ st'.lastAnchoredRoot = st.lastAnchoredRoot ∧
      st'.realProofSubmittedHeight = st.realProofSubmittedHeight := by
  obtain ⟨_, _, _, _, rfl⟩ := kept
  exact ⟨rfl, rfl, rfl⟩

theorem Bookkeeping.refl (st : Store) : Bookkeeping st st := ⟨_, _, _, _, rfl⟩

theorem Bookkeeping.trans {a b c : Store} (ab : Bookkeeping a b) (bc : Bookkeeping b c) :
    Bookkeeping a c := by
  obtain ⟨_, _, _, _, rfl⟩ := ab
  obtain ⟨queue, ignored, count, evidence, rfl⟩ := bc
  exact ⟨queue, ignored, count, evidence, rfl⟩

theorem Bookkeeping.foldl {α : Type} {f : Store → α → Store}
    (step : ∀ st a, Bookkeeping st (f st a)) (st : Store) (l : List α) :
    Bookkeeping st (l.foldl f st) := by
  induction l generalizing st with
  | nil => exact .refl st
  | cons a l ih => exact (step st a).trans (ih (f st a))

theorem recordDetectedEvidence_bookkeeping (height : UInt64) (st : Store)
    (misbehavior : List Misbehavior) :
    Bookkeeping st (recordDetectedEvidence height st misbehavior) :=
  .foldl (fun _ _ => ⟨_, _, _, _, rfl⟩) st misbehavior

theorem updateForcedTxTracking_bookkeeping (p : Params) (st : Store) (txs : List Bytes) :
    Bookkeeping st (updateForcedTxTracking p st txs) := by
  refine .foldl (fun st entry => ?_) st _
  unfold trackForcedTx
  split <;> exact ⟨_, _, _, _, rfl⟩

theorem recordDetectedEvidence_forced (height : UInt64) (st : Store)
    (misbehavior : List Misbehavior) :
    (recordDetectedEvidence height st misbehavior).forcedTxQueue = st.forcedTxQueue ∧
      (recordDetectedEvidence height st misbehavior).txIgnoredRounds = st.txIgnoredRounds := by
  unfold recordDetectedEvidence
  induction misbehavior generalizing st with
  | nil => exact ⟨rfl, rfl⟩
  | cons m rest ih => exact ih _

private theorem foldl_trackForcedTx (included : Bytes → Bool) (count : Bytes → UInt64)
    (queue : List Bytes) (st : Store) (tx : Bytes) :
    let st' := (queue.map (fun tx => (tx, count tx))).foldl (trackForcedTx included) st
    st'.forcedTxQueue.get? tx =
        (if tx ∈ queue ∧ included tx = true then none else st.forcedTxQueue.get? tx) ∧
      st'.txIgnoredRounds.get? tx =
        if tx ∈ queue then if included tx = true then none else some (count tx)
        else st.txIgnoredRounds.get? tx := by
  induction queue generalizing st with
  | nil => simp
  | cons first rest ih =>
      simp only [List.map_cons, List.foldl_cons]
      obtain ⟨queued, ignored⟩ := ih (trackForcedTx included st (first, count first))
      rw [queued, ignored]
      unfold trackForcedTx
      by_cases same : tx = first
      · subst same
        cases included tx <;> simp
      · cases included first <;> simp [same]

private theorem updateForcedTxTracking_get? (p : Params) (st : Store) (txs : List Bytes)
    (tx : Bytes) : (updateForcedTxTracking p st txs).forcedTxQueue.get? tx =
        (if tx ∈ txs then none else st.forcedTxQueue.get? tx) ∧
      (updateForcedTxTracking p st txs).txIgnoredRounds.get? tx =
        if tx ∈ st.forcedTxQueueSlice then
          if tx ∈ txs then none
          else some (if st.ignoredRounds tx + 1 > p.maxIgnoreRounds + 1 then p.maxIgnoreRounds + 1
            else st.ignoredRounds tx + 1)
        else st.txIgnoredRounds.get? tx := by
  let count : Bytes → UInt64 := fun tx =>
    if txs.contains tx = true then 0
    else if st.ignoredRounds tx + 1 > p.maxIgnoreRounds + 1 then p.maxIgnoreRounds + 1
    else st.ignoredRounds tx + 1
  have rounds : nextIgnoredRounds st.forcedTxQueueSlice st.ignoredRounds txs.contains
      p.maxIgnoreRounds = st.forcedTxQueueSlice.map (fun tx => (tx, count tx)) := by
    apply List.map_congr_left
    intro tx _
    simp only [count]
    split <;> rfl
  obtain ⟨queued, ignored⟩ := foldl_trackForcedTx txs.contains count st.forcedTxQueueSlice st tx
  rw [updateForcedTxTracking, rounds]
  refine ⟨queued.trans ?_, ignored.trans ?_⟩
  · by_cases listed : tx ∈ st.forcedTxQueueSlice
    · simp [listed]
    · have absent : st.forcedTxQueue.get? tx = none := by
        rw [← Option.not_isSome_iff_eq_none, ← OrderedMap.mem_keys_iff]
        exact listed
      simp [absent]
  · by_cases inside : tx ∈ txs <;> simp [count, inside]

/-- The pre-blocker leaves the two maps as the tracking step does, whatever the
block carries. -/
theorem preBlocker_get? (external : External) (p : Params) (height : UInt64) (appHash : Bytes)
    (st : Store) (misbehavior : List Misbehavior) (txs : List Bytes) (tx : Bytes) :
    (preBlocker external p height appHash st misbehavior txs).forcedTxQueue.get? tx =
        (if tx ∈ txs then none else st.forcedTxQueue.get? tx) ∧
      (preBlocker external p height appHash st misbehavior txs).txIgnoredRounds.get? tx =
        if tx ∈ st.forcedTxQueueSlice then
          if tx ∈ txs then none
          else some (if st.ignoredRounds tx + 1 > p.maxIgnoreRounds + 1 then p.maxIgnoreRounds + 1
            else st.ignoredRounds tx + 1)
        else st.txIgnoredRounds.get? tx := by
  obtain ⟨queue, ignored⟩ := recordDetectedEvidence_forced height st misbehavior
  have tracked := updateForcedTxTracking_get? p (recordDetectedEvidence height st misbehavior)
    txs tx
  simp only [Store.forcedTxQueueSlice, Store.ignoredRounds, queue, ignored] at tracked ⊢
  unfold preBlocker
  simp only
  split
  · exact tracked
  · split <;> exact tracked

/-- The pre-blocker on a decodable block commits the proposal to a store that
differs from the committed one by bookkeeping only. -/
theorem preBlocker_proposal {external : External} (p : Params) (height : UInt64)
    (appHash : Bytes) (st : Store) (misbehavior : List Misbehavior) {tx : Bytes}
    (innerTxs : List Bytes) {ext : ExtendedProposal}
    (decoded : decodeExtendedProposal external tx = .proposal ext) :
    ∃ st', Bookkeeping st st' ∧
      preBlocker external p height appHash st misbehavior (tx :: innerTxs) =
        commitFSMTransition p height appHash st' ext := by
  refine ⟨_, (recordDetectedEvidence_bookkeeping height st misbehavior).trans
    (updateForcedTxTracking_bookkeeping p _ (tx :: innerTxs)), ?_⟩
  simp only [preBlocker, decoded]

end Engram.Node
