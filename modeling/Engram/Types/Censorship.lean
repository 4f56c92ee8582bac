import Engram.Types.RecoveryHeader

/-!
Forced-inclusion bookkeeping: whether a proposal censors a queued transaction,
and how the ignored-round counters move when a block is finalized.
-/

set_option autoImplicit false
set_option relaxedAutoImplicit false

namespace Engram.Types

def isCensoring (forcedTxQueue : List Bytes) (ignoredRounds : Bytes → UInt64)
    (includedInProposal : Bytes → Bool) (maxIgnoreRounds : UInt64) : Bool :=
  forcedTxQueue.any (fun tx => ignoredRounds tx ≥ maxIgnoreRounds && !includedInProposal tx)

def nextIgnoredRounds (forcedTxQueue : List Bytes) (current : Bytes → UInt64)
    (includedInBlock : Bytes → Bool) (maxIgnoreRounds : UInt64) : List (Bytes × UInt64) :=
  forcedTxQueue.map (fun tx =>
    if includedInBlock tx then (tx, 0)
    else
      let count := current tx + 1
      let cap := maxIgnoreRounds + 1
      (tx, if count > cap then cap else count))

theorem isCensoring_iff (queue : List Bytes) (ignored : Bytes → UInt64)
    (included : Bytes → Bool) (maxIgnoreRounds : UInt64) :
    isCensoring queue ignored included maxIgnoreRounds = true ↔
      ∃ tx ∈ queue, maxIgnoreRounds ≤ ignored tx ∧ included tx = false := by
  simp [isCensoring]

end Engram.Types
