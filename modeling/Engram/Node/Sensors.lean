import Engram.Keeper.Store

/-!
Live sensor readings and their snapshot into the store. A reading is what the
background observers answer during one ABCI call, after `MaybeSubmit` and
`MaybePublish` have run; those two calls never fail and write no store item.
-/

set_option autoImplicit false
set_option relaxedAutoImplicit false

namespace Engram.Node

open Engram.Types Engram.Keeper

/-- A live Bitcoin height observer: the fresh reachability probe and the answer
of `getblockcount`, none on an RPC error. -/
structure BTCHeightSource where
  reachable : Bool
  currentHeight : Option UInt64

structure BTCSensor where
  gap : UInt64
  source : Option BTCHeightSource

/-- A live availability observer, and the publisher behind it. -/
structure DAAvailabilitySource where
  verifiedHeight : Option UInt64
  failed : Bool
  probeHealthy : Bool

structure DASensor where
  available : Bool
  dasFailed : Bool
  attestationFailed : Bool
  source : Option DAAvailabilitySource

def DASensor.isHealthy (s : DASensor) : Bool :=
  s.available && !s.dasFailed && !s.attestationFailed

structure P2PSnapshot where
  activeAnchors : UInt64
  cleanPeers : UInt64
  subnetDiversity : UInt64
  churnRate : UInt64
  avgTenure : UInt64
  latency : UInt64

/-- The anchor tracker's own confirmations and its view of bitcoind: the chain
tip and, per height, whether the block carries the tag (none on an RPC error). -/
structure AnchorTracker where
  kDeepFinality : UInt64
  currentHeight : Option UInt64
  blockContainsTag : UInt64 → Option Bool
  confirmedAnchorHeight : Option UInt64

/-- `VerifyAnchor`, none on an RPC error. -/
def AnchorTracker.verifyAnchor (a : AnchorTracker) (height : UInt64) : Option Bool :=
  match a.currentHeight with
  | none => none
  | some current =>
      if current < height || current - height < a.kDeepFinality then some false
      else a.blockContainsTag height

structure Sensors where
  btc : BTCSensor
  da : DASensor
  p2p : P2PSnapshot
  anchor : Option AnchorTracker
  daPublisher : Option DAAvailabilitySource

/-- The Bitcoin height a call observes and records: none without a live source,
when the source is unreachable, or when the RPC fails. -/
def BTCSensor.observedHeight (btc : BTCSensor) : Option UInt64 :=
  btc.source.bind (fun src => if src.reachable then src.currentHeight else none)

/-- The agreed anchor fails the node's own re-verification. -/
def spvFailed (st : Store) : Option AnchorTracker → Bool
  | some tracker =>
      if st.hBtcAnchored > 0 then tracker.verifyAnchor st.hBtcAnchored != some true else false
  | none => false

/-- `btcGapMetric`: the gap and the SPV failure flag. An outage of a live source
reports the sovereign threshold. -/
def btcGapMetric (p : Params) (st : Store) (btc : BTCSensor) (anchor : Option AnchorTracker) :
    UInt64 × Bool :=
  match btc.source with
  | none => (btc.gap, false)
  | some _ =>
      match btc.observedHeight with
      | none => (p.sovereignThreshold, false)
      | some hCurrent =>
          (if hCurrent ≤ st.hBtcAnchored then 0 else hCurrent - st.hBtcAnchored,
            spvFailed st anchor)

/-- The confirmed-submission disjunct of the proof flag. -/
def heuristicValid (st : Store) : Bool :=
  st.hBtcAnchored ≥ st.hBtcSubmitted && st.hBtcSubmitted > 0

/-- The real-proof disjunct: a latched proof whose unproven tail is short. The
difference of heights is unsigned. -/
def realProofValid (p : Params) (st : Store) : Bool :=
  if st.realProofSubmittedHeight > 0 then
    match st.latestTrackedHeader with
    | some (tipHeight, _) => tipHeight - st.realProofSubmittedHeight ≤ p.maxUnprovenTailBlocks
    | none => false
  else false

/-- `refreshReanchoringProofValid`: the recomputed proof flag. -/
def refreshReanchoringProofValid (p : Params) (st : Store) : Bool :=
  st.currState == .recovering && (heuristicValid st || realProofValid p st)

/-- `daGapMetric`: the gap and the two failure flags. One flag of the live
source stands for both. -/
def daGapMetric (p : Params) (height : UInt64) (sensor : DASensor) : UInt64 × Bool × Bool :=
  match sensor.source with
  | none =>
      (if sensor.isHealthy then 0 else p.daThreshold, sensor.dasFailed, sensor.attestationFailed)
  | some src =>
      let failed := src.failed || !src.probeHealthy
      let hVerified := src.verifiedHeight.getD 0
      (if height ≤ hVerified then 0 else height - hVerified, failed, failed)

/-- The metrics one call writes at a block height. -/
def Sensors.snapshot (s : Sensors) (p : Params) (height : UInt64) (st : Store) :
    PeripheralMetrics :=
  let (btcGap, btcSpvFailed) := btcGapMetric p st s.btc s.anchor
  let (daGap, dasFailed, attestationFailed) := daGapMetric p height s.da
  { btcGap := btcGap
    isBtcSpvFailed := btcSpvFailed
    daGap := daGap
    isDasFailed := dasFailed
    isAttestationFailed := attestationFailed
    subnetDiversity := s.p2p.subnetDiversity
    activeAnchors := s.p2p.activeAnchors
    cleanPeers := s.p2p.cleanPeers
    peerChurnRate := s.p2p.churnRate
    avgPeerTenure := s.p2p.avgTenure
    peerLatency := s.p2p.latency }

/-- `RefreshMetrics` at a block height: the observed heights, the proof flag and
the metrics are written, in that order, and nothing else. No later write reads
an earlier one. Without sensors the store is untouched. -/
def refreshMetrics (p : Params) (height : UInt64) (st : Store) : Option Sensors → Store
  | none => st
  | some s =>
      { st with
        hBtcCurrent := s.btc.observedHeight.getD st.hBtcCurrent
        reanchoringProofValid := refreshReanchoringProofValid p st
        hEngramCurrent := if s.da.source.isSome then height else st.hEngramCurrent
        metrics := some (s.snapshot p height st) }

section Frame

variable (p : Params) (height : UInt64) (st : Store) (s : Option Sensors)

@[simp] theorem refreshMetrics_currState :
    (refreshMetrics p height st s).currState = st.currState := by cases s <;> rfl

@[simp] theorem refreshMetrics_safeBlocks :
    (refreshMetrics p height st s).safeBlocks = st.safeBlocks := by cases s <;> rfl

@[simp] theorem refreshMetrics_hBtcAnchored :
    (refreshMetrics p height st s).hBtcAnchored = st.hBtcAnchored := by cases s <;> rfl

@[simp] theorem refreshMetrics_hEngramVerified :
    (refreshMetrics p height st s).hEngramVerified = st.hEngramVerified := by cases s <;> rfl

@[simp] theorem refreshMetrics_forcedTxQueue :
    (refreshMetrics p height st s).forcedTxQueue = st.forcedTxQueue := by cases s <;> rfl

@[simp] theorem refreshMetrics_txIgnoredRounds :
    (refreshMetrics p height st s).txIgnoredRounds = st.txIgnoredRounds := by cases s <;> rfl

@[simp] theorem refreshMetrics_lastAnchoredRoot :
    (refreshMetrics p height st s).lastAnchoredRoot = st.lastAnchoredRoot := by cases s <;> rfl

end Frame

end Engram.Node
