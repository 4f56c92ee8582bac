import Engram.Library.Word64

/-!
Operational parameters of the circuit breaker, their defaults, and the validation
run on genesis. All fields are `uint64`, so the sum in the validation floor wraps.
-/

set_option autoImplicit false
set_option relaxedAutoImplicit false

namespace Engram.Types

structure Params where
  suspiciousThreshold : UInt64
  sovereignThreshold : UInt64
  daThreshold : UInt64
  hysteresisWait : UInt64
  minPeers : UInt64
  minSubnetDiversity : UInt64
  minAnchorPeers : UInt64
  maxChurnRate : UInt64
  minAvgTenure : UInt64
  maxPeerLatency : UInt64
  maxSuspiciousTime : UInt64
  maxIgnoreRounds : UInt64
  downHysteresisThreshold : UInt64
  maxDownHysteresisThreshold : UInt64
  suspiciousHysteresisWait : UInt64
  kDeepFinality : UInt64
  maxUnprovenTailBlocks : UInt64
  maxPeersPerSubnet : UInt64
  maxSuspiciousForcedTxQueue : UInt64
  maxCensorshipRounds : UInt64
  deriving DecidableEq, Repr

def defaultParams : Params where
  kDeepFinality := 2
  maxUnprovenTailBlocks := 8
  suspiciousThreshold := 5
  sovereignThreshold := 8
  daThreshold := 30
  hysteresisWait := 2
  downHysteresisThreshold := 2
  maxDownHysteresisThreshold := 8
  suspiciousHysteresisWait := 2
  maxSuspiciousTime := 24
  minPeers := 3
  minSubnetDiversity := 2
  minAnchorPeers := 2
  maxChurnRate := 5
  minAvgTenure := 300
  maxPeerLatency := 200
  maxIgnoreRounds := 1
  maxPeersPerSubnet := 8
  maxSuspiciousForcedTxQueue := 8
  maxCensorshipRounds := 100

/-- `Params.Validate`: the first violated constraint is reported. -/
def Params.validate (p : Params) : Except String Unit :=
  let floor := p.kDeepFinality + 1
  if p.kDeepFinality = 0 then
    .error "params: KDeepFinality must be >= 1 (0 confirmations defeats reorg safety)"
  else if p.suspiciousThreshold ≤ floor then
    .error s!"params: SuspiciousThreshold ({p.suspiciousThreshold}) must be > KDeepFinality+1 ({floor})"
  else if p.sovereignThreshold ≤ floor then
    .error s!"params: SovereignThreshold ({p.sovereignThreshold}) must be > KDeepFinality+1 ({floor})"
  else if p.sovereignThreshold ≤ p.suspiciousThreshold then
    .error s!"params: SovereignThreshold ({p.sovereignThreshold}) must be > SuspiciousThreshold ({p.suspiciousThreshold})"
  else if p.daThreshold = 0 then
    .error "params: DAThreshold must be >= 1"
  else if p.maxPeersPerSubnet = 0 then
    .error "params: MaxPeersPerSubnet must be >= 1 (0 rejects every peer, including honest validators)"
  else if p.maxDownHysteresisThreshold < p.downHysteresisThreshold then
    .error s!"params: MaxDownHysteresisThreshold ({p.maxDownHysteresisThreshold}) must be >= DownHysteresisThreshold ({p.downHysteresisThreshold})"
  else if p.maxCensorshipRounds ≤ p.maxIgnoreRounds then
    .error s!"params: MaxCensorshipRounds ({p.maxCensorshipRounds}) must be > MaxIgnoreRounds ({p.maxIgnoreRounds}), or the escape hatch fires before enforcement ever engages"
  else .ok ()

/-- Parameters the genesis validation lets through. -/
def Params.Valid (p : Params) : Prop := p.validate = .ok ()

instance (p : Params) : Decidable p.Valid :=
  match h : p.validate with
  | .ok () => isTrue h
  | .error _ => isFalse (fun ok => by rw [Params.Valid, h] at ok; cases ok)

theorem Params.valid_iff (p : Params) :
    p.Valid ↔ p.kDeepFinality ≠ 0 ∧ p.kDeepFinality + 1 < p.suspiciousThreshold ∧
      p.kDeepFinality + 1 < p.sovereignThreshold ∧
      p.suspiciousThreshold < p.sovereignThreshold ∧ p.daThreshold ≠ 0 ∧
      p.maxPeersPerSubnet ≠ 0 ∧
      p.downHysteresisThreshold ≤ p.maxDownHysteresisThreshold ∧
      p.maxIgnoreRounds < p.maxCensorshipRounds := by
  unfold Params.Valid Params.validate
  split_ifs <;> grind

example : defaultParams.Valid := by decide

def Params.fields (p : Params) : List UInt64 :=
  [p.suspiciousThreshold, p.sovereignThreshold, p.daThreshold, p.hysteresisWait, p.minPeers,
    p.minSubnetDiversity, p.minAnchorPeers, p.maxChurnRate, p.minAvgTenure, p.maxPeerLatency,
    p.maxSuspiciousTime, p.maxIgnoreRounds, p.downHysteresisThreshold,
    p.maxDownHysteresisThreshold, p.suspiciousHysteresisWait, p.kDeepFinality,
    p.maxUnprovenTailBlocks, p.maxPeersPerSubnet, p.maxSuspiciousForcedTxQueue,
    p.maxCensorshipRounds]

/-- Every field lies below `2 ^ 62`, so no sum of two fields or counters wraps. -/
def Params.Small (p : Params) : Prop := ∀ x ∈ p.fields, x.toNat < 2 ^ 62

instance (p : Params) : Decidable p.Small :=
  decidable_of_iff (p.fields.all (fun x => decide (x < 0x4000000000000000)) = true) (by
    simp only [List.all_eq_true, decide_eq_true_eq, Params.Small, UInt64.lt_iff_toNat_lt]
    rfl)

end Engram.Types
