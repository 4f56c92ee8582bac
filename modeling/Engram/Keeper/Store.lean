import Engram.Keeper.CircuitBreaker
import Engram.Library.OrderedMap
import Engram.Types.Censorship

/-!
The persisted items of the keeper. An item whose readers all fall back to zero
or false when it was never written is kept as a plain value; the FSM state, the
metrics and the anchored root keep the difference, since their readers do.
-/

set_option autoImplicit false
set_option relaxedAutoImplicit false

namespace Engram.Keeper

open Engram.Types Engram.Library

structure EvidenceRecord where
  kind : String
  validatorAddress : Bytes
  validatorPower : Int
  offenseHeight : Int
  offenseTime : Int
  detectedAtHeight : Int
  deriving DecidableEq, Repr

structure Store where
  fsmState : Option FSMState := none
  safeBlocks : UInt64 := 0
  suspiciousDuration : UInt64 := 0
  unhealthyStreak : UInt64 := 0
  failedRecoveryAttempts : UInt64 := 0
  suspiciousSafeBlocks : UInt64 := 0
  reanchoringProofValid : Bool := false
  metrics : Option PeripheralMetrics := none
  hBtcCurrent : UInt64 := 0
  hBtcAnchored : UInt64 := 0
  hBtcSubmitted : UInt64 := 0
  hEngramCurrent : UInt64 := 0
  hEngramVerified : UInt64 := 0
  forcedTxQueue : OrderedMap Bytes Unit := .empty
  txIgnoredRounds : OrderedMap Bytes UInt64 := .empty
  headerHistory : OrderedMap UInt64 RecoveryHeader := .empty
  lastAnchoredRoot : Option Bytes := none
  realProofSubmittedHeight : UInt64 := 0
  recoveryProofDAHeights : OrderedMap UInt64 UInt64 := .empty
  detectedEvidenceCount : UInt64 := 0
  lastDetectedEvidence : Option EvidenceRecord := none

namespace Store

variable (st : Store)

def currState : FSMState := st.fsmState.getD .anchored

/-- `currentFSMInput`: the counters and the metrics the FSM step reads. -/
def currentFSMInput : FSMInput where
  metrics := st.metrics.getD {}
  safeBlocks := st.safeBlocks
  suspiciousDuration := st.suspiciousDuration
  suspiciousSafeBlocks := st.suspiciousSafeBlocks
  unhealthyStreak := st.unhealthyStreak
  failedRecoveryAttempts := st.failedRecoveryAttempts
  reanchoringProofValid := st.reanchoringProofValid

def forcedTxQueueSlice : List Bytes := st.forcedTxQueue.keys

def ignoredRounds (tx : Bytes) : UInt64 := (st.txIgnoredRounds.get? tx).getD 0

/-- The height of the first tracked header, in key order, with the given root. -/
def findHeaderByStateRoot (root : Bytes) : Option UInt64 :=
  (st.headerHistory.entries.find? (fun kv => kv.2.stateRoot == root)).map Prod.fst

/-- Remove the tracked headers at or below a height. -/
def pruneHeaderHistoryUpTo (height : UInt64) : Store :=
  { st with headerHistory :=
      st.headerHistory.removeKeys (fun h => h ≤ height) st.headerHistory.keys }

/-- Remove every tracked header. -/
def pruneHeaderHistory : Store :=
  { st with headerHistory := st.headerHistory.removeKeys (fun _ => true) st.headerHistory.keys }

/-- The tracked header with the greatest height; none when nothing is tracked. -/
def latestTrackedHeader : Option (UInt64 × RecoveryHeader) :=
  match st.headerHistory.entries with
  | [] => none
  | first :: rest => some (rest.foldl (fun best kv => if kv.1 > best.1 then kv else best) first)

end Store

theorem pruneHeaderHistory_entries (st : Store) :
    st.pruneHeaderHistory.headerHistory.entries = [] := by
  simp [Store.pruneHeaderHistory, OrderedMap.entries_removeKeys_keys]

theorem pruneHeaderHistoryUpTo_entries (st : Store) (height : UInt64) :
    (st.pruneHeaderHistoryUpTo height).headerHistory.entries =
      st.headerHistory.entries.filter (fun kv => !decide (kv.1 ≤ height)) :=
  OrderedMap.entries_removeKeys_keys _ _

end Engram.Keeper
