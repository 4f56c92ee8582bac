import Engram.Types.Params

/-!
The FSM state names, the per-block sensor snapshot and the health predicates
over it. A state is the text carried on the wire: the four named states are
constructors, and any other text is kept as it is.
-/

set_option autoImplicit false
set_option relaxedAutoImplicit false

namespace Engram.Types

def stateNames : List String := ["ANCHORED", "SUSPICIOUS", "SOVEREIGN", "RECOVERING"]

inductive FSMState where
  | anchored
  | suspicious
  | sovereign
  | recovering
  | other (name : String) (unnamed : name ∉ stateNames)
  deriving DecidableEq, Repr

def FSMState.toText : FSMState → String
  | .anchored => "ANCHORED"
  | .suspicious => "SUSPICIOUS"
  | .sovereign => "SOVEREIGN"
  | .recovering => "RECOVERING"
  | .other name _ => name

def FSMState.ofText (name : String) : FSMState :=
  if name = "ANCHORED" then .anchored
  else if name = "SUSPICIOUS" then .suspicious
  else if name = "SOVEREIGN" then .sovereign
  else if name = "RECOVERING" then .recovering
  else if unnamed : name ∉ stateNames then .other name unnamed
  else .anchored

theorem FSMState.ofText_toText (s : FSMState) : FSMState.ofText s.toText = s := by
  cases s with
  | other name unnamed =>
      have distinct := unnamed
      simp only [stateNames, List.mem_cons, List.not_mem_nil, or_false, not_or] at distinct
      obtain ⟨h1, h2, h3, h4⟩ := distinct
      simp only [FSMState.toText, FSMState.ofText, h1, h2, h3, h4, if_false]
      exact dif_pos unnamed
  | _ => rfl

/-- `WithdrawLocked == state \in {"SOVEREIGN", "RECOVERING"}`. -/
def withdrawLocked : FSMState → Bool
  | .sovereign | .recovering => true
  | _ => false

structure PeripheralMetrics where
  btcGap : UInt64 := 0
  isBtcSpvFailed : Bool := false
  daGap : UInt64 := 0
  isDasFailed : Bool := false
  isAttestationFailed : Bool := false
  subnetDiversity : UInt64 := 0
  activeAnchors : UInt64 := 0
  cleanPeers : UInt64 := 0
  peerChurnRate : UInt64 := 0
  avgPeerTenure : UInt64 := 0
  peerLatency : UInt64 := 0
  deriving DecidableEq, Repr

section Predicates

variable (m : PeripheralMetrics) (p : Params)

def isBTCGapSuspicious : Bool :=
  p.suspiciousThreshold ≤ m.btcGap && m.btcGap < p.sovereignThreshold

def isBTCGapSovereign : Bool := m.btcGap ≥ p.sovereignThreshold

def isBTCHealthy : Bool :=
  !isBTCGapSuspicious m p && !isBTCGapSovereign m p && !m.isBtcSpvFailed

def isDAHealthy : Bool :=
  m.daGap < p.daThreshold && !m.isDasFailed && !m.isAttestationFailed

def isP2PQualityHealthy : Bool :=
  m.subnetDiversity ≥ p.minSubnetDiversity &&
    m.activeAnchors ≥ p.minAnchorPeers &&
    m.cleanPeers ≥ p.minPeers &&
    m.peerChurnRate ≤ p.maxChurnRate &&
    m.avgPeerTenure ≥ p.minAvgTenure &&
    m.peerLatency ≤ p.maxPeerLatency

def isCriticalCondition (suspiciousDuration : UInt64) : Bool :=
  isBTCGapSovereign m p || m.isBtcSpvFailed || m.activeAnchors == 0 ||
    suspiciousDuration ≥ p.maxSuspiciousTime

def isWarningCondition : Bool :=
  isBTCGapSuspicious m p || !isDAHealthy m p || !isP2PQualityHealthy m p

def isHealthyCondition : Bool :=
  !isBTCGapSovereign m p && !isBTCGapSuspicious m p && !m.isBtcSpvFailed &&
    isDAHealthy m p && isP2PQualityHealthy m p

theorem warning_eq_not_healthy {suspiciousDuration : UInt64}
    (calm : isCriticalCondition m p suspiciousDuration = false) :
    isWarningCondition m p = !isHealthyCondition m p := by
  simp only [isCriticalCondition, Bool.or_eq_false_iff] at calm
  obtain ⟨⟨⟨gap, spv⟩, _⟩, _⟩ := calm
  simp only [isWarningCondition, isHealthyCondition, gap, spv]
  cases isBTCGapSuspicious m p <;> cases isDAHealthy m p <;>
    cases isP2PQualityHealthy m p <;> rfl

theorem btc_and_da_of_healthy (healthy : isHealthyCondition m p = true) :
    isBTCHealthy m p = true ∧ isDAHealthy m p = true := by
  simp only [isHealthyCondition, Bool.and_eq_true] at healthy
  obtain ⟨⟨⟨⟨sovereign, suspicious⟩, spv⟩, available⟩, _⟩ := healthy
  refine ⟨?_, available⟩
  simp only [isBTCHealthy, sovereign, suspicious, spv, Bool.and_self]

end Predicates

end Engram.Types
