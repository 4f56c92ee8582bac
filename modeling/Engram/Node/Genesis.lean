import Engram.Node.PreBlock

/-!
Genesis and the validator process. The parameters live in process memory: the
keeper is built with the defaults, and only `InitChain` overwrites them.
-/

set_option autoImplicit false
set_option relaxedAutoImplicit false

namespace Engram.Node

open Engram.Types Engram.Keeper

/-- The genesis wire form of the parameters. -/
structure GenesisParams where
  suspiciousThreshold : UInt64
  sovereignThreshold : UInt64
  daThreshold : UInt64
  hysteresisWait : UInt64
  minPeers : UInt64
  minSubnetDiversity : UInt64
  minAnchorPeers : UInt64
  maxChurnRate : UInt64
  minAvgTenure : UInt64
  maxPeerLatency : UInt64
  maxSuspiciousTime : UInt64
  maxIgnoreRounds : UInt64
  kDeepFinality : UInt64
  maxUnprovenTailBlocks : UInt64
  maxPeersPerSubnet : UInt64
  downHysteresisThreshold : UInt64
  maxDownHysteresisThreshold : UInt64
  suspiciousHysteresisWait : UInt64
  maxSuspiciousForcedTxQueue : UInt64
  maxCensorshipRounds : UInt64
  deriving DecidableEq, Repr

def toGenesisParams (p : Params) : GenesisParams where
  suspiciousThreshold := p.suspiciousThreshold
  sovereignThreshold := p.sovereignThreshold
  daThreshold := p.daThreshold
  hysteresisWait := p.hysteresisWait
  minPeers := p.minPeers
  minSubnetDiversity := p.minSubnetDiversity
  minAnchorPeers := p.minAnchorPeers
  maxChurnRate := p.maxChurnRate
  minAvgTenure := p.minAvgTenure
  maxPeerLatency := p.maxPeerLatency
  maxSuspiciousTime := p.maxSuspiciousTime
  maxIgnoreRounds := p.maxIgnoreRounds
  kDeepFinality := p.kDeepFinality
  maxUnprovenTailBlocks := p.maxUnprovenTailBlocks
  maxPeersPerSubnet := p.maxPeersPerSubnet
  downHysteresisThreshold := p.downHysteresisThreshold
  maxDownHysteresisThreshold := p.maxDownHysteresisThreshold
  suspiciousHysteresisWait := p.suspiciousHysteresisWait
  maxSuspiciousForcedTxQueue := p.maxSuspiciousForcedTxQueue
  maxCensorshipRounds := p.maxCensorshipRounds

/-- `GenesisParams.ToParams`; an absent message means the defaults. -/
def toParams : Option GenesisParams → Params
  | none => defaultParams
  | some gp =>
      { suspiciousThreshold := gp.suspiciousThreshold
        sovereignThreshold := gp.sovereignThreshold
        daThreshold := gp.daThreshold
        hysteresisWait := gp.hysteresisWait
        minPeers := gp.minPeers
        minSubnetDiversity := gp.minSubnetDiversity
        minAnchorPeers := gp.minAnchorPeers
        maxChurnRate := gp.maxChurnRate
        minAvgTenure := gp.minAvgTenure
        maxPeerLatency := gp.maxPeerLatency
        maxSuspiciousTime := gp.maxSuspiciousTime
        maxIgnoreRounds := gp.maxIgnoreRounds
        kDeepFinality := gp.kDeepFinality
        maxUnprovenTailBlocks := gp.maxUnprovenTailBlocks
        maxPeersPerSubnet := gp.maxPeersPerSubnet
        downHysteresisThreshold := gp.downHysteresisThreshold
        maxDownHysteresisThreshold := gp.maxDownHysteresisThreshold
        suspiciousHysteresisWait := gp.suspiciousHysteresisWait
        maxSuspiciousForcedTxQueue := gp.maxSuspiciousForcedTxQueue
        maxCensorshipRounds := gp.maxCensorshipRounds }

theorem toParams_toGenesisParams (p : Params) : toParams (some (toGenesisParams p)) = p := rfl

structure GenesisState where
  fsmState : FSMState
  safeBlocksCounter : UInt64
  suspiciousDuration : UInt64
  reanchoringProofValid : Bool
  initialMetrics : Option PeripheralMetrics
  params : Option GenesisParams
  unhealthyStreak : UInt64 := 0
  failedRecoveryAttempts : UInt64 := 0
  suspiciousSafeBlocks : UInt64 := 0

def defaultGenesisWithParams (p : Params) : GenesisState where
  fsmState := .anchored
  safeBlocksCounter := 0
  suspiciousDuration := 0
  reanchoringProofValid := false
  initialMetrics := some {}
  params := some (toGenesisParams p)

/-- A validator process: the parameters in memory and the persisted store. -/
structure Process where
  params : Params
  store : Store

/-- `NewEngramApp` over a store that already holds `store`. -/
def newEngramApp (store : Store) : Process := ⟨defaultParams, store⟩

/-- `newInitChainer` on a parsed genesis. -/
def initChainer (k : Process) (gs : GenesisState) : Except String Process :=
  let store := { k.store with
    fsmState := some gs.fsmState
    safeBlocks := gs.safeBlocksCounter
    suspiciousDuration := gs.suspiciousDuration
    reanchoringProofValid := gs.reanchoringProofValid
    metrics := match gs.initialMetrics with
      | some metrics => some metrics
      | none => k.store.metrics }
  let params := toParams gs.params
  match params.validate with
  | .error err => .error ("invalid genesis params: " ++ err)
  | .ok () => .ok ⟨params, store⟩

/-- The store a fresh chain starts from on the default genesis. -/
def genesisStore : Store := { fsmState := some .anchored, metrics := some {} }

/-- `InitChain` on the default genesis with any accepted parameters installs
those parameters and the default store. -/
theorem initChainer_default {p : Params} (valid : p.Valid) :
    initChainer (newEngramApp {}) (defaultGenesisWithParams p) = .ok ⟨p, genesisStore⟩ := by
  have params : toParams (defaultGenesisWithParams p).params = p := toParams_toGenesisParams p
  unfold initChainer
  simp only [params]
  rw [show p.validate = .ok () from valid]
  rfl

/-- Everything an accepted genesis installs: its parameters, which are valid, and
five items of the store. -/
theorem initChainer_cases {k genesis : Process} {gs : GenesisState}
    (accepted : initChainer k gs = .ok genesis) :
    (toParams gs.params).Valid ∧ ∃ metrics, genesis = ⟨toParams gs.params, { k.store with
      fsmState := some gs.fsmState
      safeBlocks := gs.safeBlocksCounter
      suspiciousDuration := gs.suspiciousDuration
      reanchoringProofValid := gs.reanchoringProofValid
      metrics := metrics }⟩ := by
  unfold initChainer at accepted
  simp only at accepted
  split at accepted
  · cases accepted
  · rename_i valid
    exact ⟨valid, _, (Except.ok.inj accepted).symm⟩

/-- The text an item of states that was never written reads as. -/
def unwrittenState : FSMState := .other "" (by decide)

/-- `AppModule.ExportGenesis`: an item that was never written is exported as the
zero value of its type. -/
def exportGenesis (k : Process) : GenesisState where
  fsmState := k.store.fsmState.getD unwrittenState
  safeBlocksCounter := k.store.safeBlocks
  suspiciousDuration := k.store.suspiciousDuration
  reanchoringProofValid := k.store.reanchoringProofValid
  initialMetrics := k.store.metrics
  params := some (toGenesisParams k.params)
  unhealthyStreak := k.store.unhealthyStreak
  failedRecoveryAttempts := k.store.failedRecoveryAttempts
  suspiciousSafeBlocks := k.store.suspiciousSafeBlocks

/-- `AppModule.InitGenesis`: every counter is written, the parameters are not. -/
def initGenesis (k : Process) (gs : GenesisState) : Process :=
  { k with store := { k.store with
      fsmState := some gs.fsmState
      safeBlocks := gs.safeBlocksCounter
      suspiciousDuration := gs.suspiciousDuration
      reanchoringProofValid := gs.reanchoringProofValid
      metrics := match gs.initialMetrics with
        | some metrics => some metrics
        | none => k.store.metrics
      unhealthyStreak := gs.unhealthyStreak
      failedRecoveryAttempts := gs.failedRecoveryAttempts
      suspiciousSafeBlocks := gs.suspiciousSafeBlocks } }

end Engram.Node
