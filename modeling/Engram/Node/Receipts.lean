import Engram.Types.Health

/-!
The DA and Bitcoin receipts of a proposal and the two freshness checks. Heights
are `uint64`, while the lower bound of each window is computed on `int64` and
clamped at zero.
-/

set_option autoImplicit false
set_option relaxedAutoImplicit false

namespace Engram.Node

open Engram.Types Engram.Library.Word64

namespace DA

structure Receipt where
  publishedBlockHeight : UInt64
  attestation : Bool
  deriving DecidableEq, Repr

def tolerance (round : UInt64) : UInt64 :=
  if round ≤ 1 then 0 else if round = 2 then 2 else 4

def verifyReceipt (receipt : Receipt) (fsmState : FSMState) (isDAHealthy : Bool)
    (hEngramCurrent daThreshold round : UInt64) : Bool :=
  let requiresCheck := fsmState == .anchored || fsmState == .recovering || isDAHealthy
  if !requiresCheck then true
  else if !receipt.attestation then false
  else if receipt.publishedBlockHeight > hEngramCurrent then false
  else
    let lowerBound :=
      clampSigned (hEngramCurrent.toInt64 - daThreshold.toInt64 - (tolerance round).toInt64)
    receipt.publishedBlockHeight ≥ lowerBound

end DA

namespace Anchor

structure BlockHash where
  tag : String
  height : UInt64
  deriving DecidableEq, Repr

/-- The canonical hash of a Bitcoin block is abstracted as its tagged height. -/
def expectedBlockHash (height : UInt64) : BlockHash := ⟨"BTC_BLOCK", height⟩

structure Receipt where
  checkpointBlockHeight : UInt64
  checkpointBlockHash : BlockHash
  deriving DecidableEq, Repr

def livenessMargin : UInt64 := 2

def tolerance (round kDeepFinality : UInt64) : UInt64 := kDeepFinality + livenessMargin + round

def verifySPVProof (receipt : Receipt) (hBTCCurrent hBTCAnchored : UInt64) : Bool :=
  if receipt.checkpointBlockHeight > hBTCCurrent then false
  else if receipt.checkpointBlockHeight < hBTCAnchored then false
  else receipt.checkpointBlockHash == expectedBlockHash receipt.checkpointBlockHeight

def verifyReceipt (receipt : Receipt) (fsmState : FSMState) (isBTCHealthy : Bool)
    (hBTCCurrent hBTCAnchored round kDeepFinality : UInt64) : Bool :=
  let requiresCheck := fsmState == .anchored || fsmState == .recovering || isBTCHealthy
  if !requiresCheck then true
  else
    let lowerBound :=
      clampSigned (hBTCCurrent.toInt64 - (tolerance round kDeepFinality).toInt64)
    if receipt.checkpointBlockHeight < lowerBound then false
    else verifySPVProof receipt hBTCCurrent hBTCAnchored

end Anchor

/-- Both checks apply to the same proposals: those that claim an anchored or
recovering state, and any other when the sensor itself is healthy. -/
def requiresCheck (fsmState : FSMState) (healthy : Bool) : Bool :=
  fsmState == .anchored || fsmState == .recovering || healthy

theorem DA.toNat_tolerance_le (round : UInt64) : (DA.tolerance round).toNat ≤ 4 := by
  unfold DA.tolerance
  split_ifs <;> decide

theorem Anchor.toNat_tolerance (round kDeepFinality : UInt64)
    (room : kDeepFinality.toNat + 2 + round.toNat < 2 ^ 64) :
    (Anchor.tolerance round kDeepFinality).toNat = kDeepFinality.toNat + 2 + round.toNat := by
  simp only [Anchor.tolerance, Anchor.livenessMargin, UInt64.toNat_add, UInt64.toNat_ofNat]
  omega

theorem DA.verifyReceipt_iff (receipt : DA.Receipt) (fsmState : FSMState) (healthy : Bool)
    (hEngramCurrent daThreshold round : UInt64) :
    DA.verifyReceipt receipt fsmState healthy hEngramCurrent daThreshold round = true ↔
      (requiresCheck fsmState healthy = true → receipt.attestation = true ∧
        receipt.publishedBlockHeight ≤ hEngramCurrent ∧
        clampSigned (hEngramCurrent.toInt64 - daThreshold.toInt64 -
          (DA.tolerance round).toInt64) ≤ receipt.publishedBlockHeight) := by
  unfold DA.verifyReceipt
  change (if !requiresCheck fsmState healthy then true else _) = true ↔ _
  cases requiresCheck fsmState healthy
  · simp
  · cases receipt.attestation
    · simp
    · by_cases future : receipt.publishedBlockHeight > hEngramCurrent
      · simp [future, not_le.mpr future]
      · simp [future, not_lt.mp future]

theorem Anchor.verifyReceipt_iff (receipt : Anchor.Receipt) (fsmState : FSMState)
    (healthy : Bool) (hBTCCurrent hBTCAnchored round kDeepFinality : UInt64) :
    Anchor.verifyReceipt receipt fsmState healthy hBTCCurrent hBTCAnchored round kDeepFinality =
        true ↔
      (requiresCheck fsmState healthy = true →
        clampSigned (hBTCCurrent.toInt64 - (Anchor.tolerance round kDeepFinality).toInt64) ≤
          receipt.checkpointBlockHeight ∧
        receipt.checkpointBlockHeight ≤ hBTCCurrent ∧
        hBTCAnchored ≤ receipt.checkpointBlockHeight ∧
        receipt.checkpointBlockHash = Anchor.expectedBlockHash receipt.checkpointBlockHeight) := by
  unfold Anchor.verifyReceipt Anchor.verifySPVProof
  change (if !requiresCheck fsmState healthy then true else _) = true ↔ _
  cases requiresCheck fsmState healthy
  · simp
  · simp only [Bool.not_true, Bool.false_eq_true, if_false, true_implies]
    split_ifs <;> grind

end Engram.Node
