import Engram.Types.Health
import Mathlib.Algebra.Order.Group.Nat
import Mathlib.Data.Int.Order.Basic

/-!
The operators of `EngramFSM.tla` over unbounded integers. The derived sensor
quantities of the module (the two gaps and the peer-set cardinalities) are the
readings here; a `CASE` is read as its first matching arm.
-/

set_option autoImplicit false
set_option relaxedAutoImplicit false

namespace Engram.Spec

open Engram.Types

structure Constants where
  suspiciousThreshold : ℕ
  sovereignThreshold : ℕ
  daThreshold : ℕ
  hysteresisWait : ℕ
  minPeers : ℕ
  minSubnetDiversity : ℕ
  minAnchorPeers : ℕ
  maxChurnRate : ℕ
  minAvgTenure : ℕ
  maxPeerLatency : ℕ
  maxSuspiciousTime : ℕ
  downHysteresisThreshold : ℕ
  maxDownHysteresisThreshold : ℕ
  suspiciousHysteresisWait : ℕ

structure Vars where
  state : FSMState
  btcGap : ℤ
  isBtcSpvFailed : Bool
  daGap : ℤ
  isDasFailed : Bool
  isAttestationFailed : Bool
  subnetDiversity : ℕ
  activeAnchors : ℕ
  cleanPeers : ℕ
  peerChurnRate : ℕ
  avgPeerTenure : ℕ
  peerLatency : ℕ
  safeBlocks : ℕ
  suspiciousDuration : ℕ
  suspiciousSafeBlocks : ℕ
  unhealthyStreak : ℕ
  failedRecoveryAttempts : ℕ
  reanchoringProofValid : Bool

section Operators

variable (k : Constants) (v : Vars)

def MinVal (a b : ℕ) : ℕ := if a < b then a else b

def EffectiveDownHysteresisThreshold : ℕ :=
  MinVal (k.downHysteresisThreshold * 2 ^ v.failedRecoveryAttempts) k.maxDownHysteresisThreshold

def IsP2PQualityHealthy : Prop :=
  v.subnetDiversity ≥ k.minSubnetDiversity ∧ v.activeAnchors ≥ k.minAnchorPeers ∧
    v.cleanPeers ≥ k.minPeers ∧ v.peerChurnRate ≤ k.maxChurnRate ∧
    v.avgPeerTenure ≥ k.minAvgTenure ∧ v.peerLatency ≤ k.maxPeerLatency

def IsDAHealthy : Prop :=
  v.daGap < k.daThreshold ∧ ¬ v.isDasFailed = true ∧ ¬ v.isAttestationFailed = true

def IsBTCGapSuspicious : Prop :=
  k.suspiciousThreshold ≤ v.btcGap ∧ v.btcGap < k.sovereignThreshold

def IsBTCGapSovereign : Prop := v.btcGap ≥ k.sovereignThreshold

def IsBTCHealthy : Prop :=
  ¬ IsBTCGapSuspicious k v ∧ ¬ IsBTCGapSovereign k v ∧ ¬ v.isBtcSpvFailed = true

def IsCriticalCondition : Prop :=
  IsBTCGapSovereign k v ∨ v.isBtcSpvFailed = true ∨ v.activeAnchors = 0 ∨
    v.suspiciousDuration ≥ k.maxSuspiciousTime

def IsWarningCondition : Prop :=
  IsBTCGapSuspicious k v ∨ ¬ IsDAHealthy k v ∨ ¬ IsP2PQualityHealthy k v

def IsHealthyCondition : Prop :=
  ¬ IsBTCGapSovereign k v ∧ ¬ IsBTCGapSuspicious k v ∧ ¬ v.isBtcSpvFailed = true ∧
    IsDAHealthy k v ∧ IsP2PQualityHealthy k v

instance : Decidable (IsP2PQualityHealthy k v) := inferInstanceAs (Decidable (_ ∧ _))
instance : Decidable (IsDAHealthy k v) := inferInstanceAs (Decidable (_ ∧ _))
instance : Decidable (IsBTCGapSuspicious k v) := inferInstanceAs (Decidable (_ ∧ _))
instance : Decidable (IsBTCGapSovereign k v) :=
  inferInstanceAs (Decidable (v.btcGap ≥ k.sovereignThreshold))
instance : Decidable (IsBTCHealthy k v) := inferInstanceAs (Decidable (_ ∧ _))
instance : Decidable (IsCriticalCondition k v) := inferInstanceAs (Decidable (_ ∨ _))
instance : Decidable (IsWarningCondition k v) := inferInstanceAs (Decidable (_ ∨ _))
instance : Decidable (IsHealthyCondition k v) := inferInstanceAs (Decidable (_ ∧ _))

/-- The rule engine, arm by arm in the order of the module. -/
def CalculateNextFSMState : FSMState :=
  if v.state = .anchored ∧ IsCriticalCondition k v then .sovereign
  else if v.state = .anchored ∧ IsWarningCondition k v ∧ ¬ IsCriticalCondition k v ∧
      v.unhealthyStreak + 1 ≥ k.downHysteresisThreshold then .suspicious
  else if v.state = .anchored ∧ IsWarningCondition k v ∧ ¬ IsCriticalCondition k v then .anchored
  else if v.state = .suspicious ∧ IsCriticalCondition k v then .sovereign
  else if v.state = .suspicious ∧ v.suspiciousDuration ≥ k.maxSuspiciousTime then .sovereign
  else if v.state = .suspicious ∧ IsHealthyCondition k v ∧
      v.suspiciousSafeBlocks + 1 ≥ k.suspiciousHysteresisWait then .anchored
  else if v.state = .suspicious ∧ IsHealthyCondition k v then .suspicious
  else if v.state = .sovereign ∧ IsHealthyCondition k v then .recovering
  else if v.state = .recovering ∧ IsCriticalCondition k v then .sovereign
  else if v.state = .recovering ∧ ¬ IsHealthyCondition k v ∧
      v.unhealthyStreak + 1 ≥ EffectiveDownHysteresisThreshold k v then .sovereign
  else if v.state = .recovering ∧ ¬ IsHealthyCondition k v then .recovering
  else if v.state = .recovering ∧ IsHealthyCondition k v ∧ v.safeBlocks = k.hysteresisWait ∧
      v.reanchoringProofValid = true then .anchored
  else if v.state = .recovering ∧ IsHealthyCondition k v then .recovering
  else v.state

/-- The primed counters of `ExecuteFSMTransition`. -/
structure Primed where
  state : FSMState
  suspiciousDuration : ℕ
  unhealthyStreak : ℕ
  failedRecoveryAttempts : ℕ
  safeBlocks : ℕ
  suspiciousSafeBlocks : ℕ
  deriving DecidableEq, Repr

def ExecuteFSMTransition (target : FSMState) : Primed where
  state := target
  suspiciousDuration :=
    if target = .suspicious then MinVal (v.suspiciousDuration + 1) (k.maxSuspiciousTime + 1)
    else 0
  unhealthyStreak :=
    if (v.state = .anchored ∧ target = .anchored ∧ IsWarningCondition k v ∧
          ¬ IsCriticalCondition k v) ∨
        (v.state = .recovering ∧ target = .recovering ∧ ¬ IsHealthyCondition k v ∧
          ¬ IsCriticalCondition k v) then v.unhealthyStreak + 1
    else 0
  failedRecoveryAttempts :=
    if v.state = .recovering ∧ target = .sovereign then
      if k.downHysteresisThreshold * 2 ^ v.failedRecoveryAttempts ≥ k.maxDownHysteresisThreshold
      then v.failedRecoveryAttempts
      else v.failedRecoveryAttempts + 1
    else if v.state = .recovering ∧ target = .anchored then 0
    else v.failedRecoveryAttempts
  safeBlocks :=
    if target = .recovering ∧ v.state = .recovering then
      if IsHealthyCondition k v then MinVal (v.safeBlocks + 1) k.hysteresisWait
      else if v.safeBlocks ≥ 1 then v.safeBlocks - 1 else 0
    else 0
  suspiciousSafeBlocks :=
    if target = .suspicious ∧ v.state = .suspicious then
      if IsHealthyCondition k v then
        MinVal (v.suspiciousSafeBlocks + 1) k.suspiciousHysteresisWait
      else if v.suspiciousSafeBlocks ≥ 1 then v.suspiciousSafeBlocks - 1 else 0
    else 0

/-! The rule engine, one state at a time. -/

variable {k v}

theorem next_of_anchored (state : v.state = .anchored) :
    CalculateNextFSMState k v =
      if IsCriticalCondition k v then .sovereign
      else if IsWarningCondition k v ∧ v.unhealthyStreak + 1 ≥ k.downHysteresisThreshold then
        .suspicious
      else .anchored := by
  unfold CalculateNextFSMState
  by_cases critical : IsCriticalCondition k v
  · simp [state, critical]
  · by_cases warning : IsWarningCondition k v <;> simp [state, critical, warning]

theorem next_of_suspicious (state : v.state = .suspicious) :
    CalculateNextFSMState k v =
      if IsCriticalCondition k v then .sovereign
      else if IsHealthyCondition k v ∧
          v.suspiciousSafeBlocks + 1 ≥ k.suspiciousHysteresisWait then .anchored
      else .suspicious := by
  unfold CalculateNextFSMState
  by_cases critical : IsCriticalCondition k v
  · simp [state, critical]
  · have patient : ¬ v.suspiciousDuration ≥ k.maxSuspiciousTime := by
      intro exhausted
      exact critical (.inr (.inr (.inr exhausted)))
    by_cases healthy : IsHealthyCondition k v <;> simp [state, critical, patient, healthy]

theorem next_of_sovereign (state : v.state = .sovereign) :
    CalculateNextFSMState k v = if IsHealthyCondition k v then .recovering else .sovereign := by
  unfold CalculateNextFSMState
  simp [state]

theorem next_of_recovering (state : v.state = .recovering) :
    CalculateNextFSMState k v =
      if IsCriticalCondition k v then .sovereign
      else if ¬ IsHealthyCondition k v then
        if v.unhealthyStreak + 1 ≥ EffectiveDownHysteresisThreshold k v then .sovereign
        else .recovering
      else if v.safeBlocks = k.hysteresisWait ∧ v.reanchoringProofValid = true then .anchored
      else .recovering := by
  unfold CalculateNextFSMState
  by_cases critical : IsCriticalCondition k v
  · simp [state, critical]
  · by_cases healthy : IsHealthyCondition k v <;> simp [state, critical, healthy]

end Operators

end Engram.Spec
