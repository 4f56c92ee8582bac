import Engram.Library.Word64
import Engram.Library.OrderedMap
import Engram.Library.GuardedRun
import Engram.Library.Amortized
import Engram.Library.Temporal
import Engram.Library.LeakyCounter
import Engram.Library.LockedVoting
import Engram.Library.TriangularIndex
import Engram.Library.Leases
import Engram.Library.Wire
import Engram.Library.HexText
import Engram.Types.Params
import Engram.Types.Health
import Engram.Types.RecoveryHeader
import Engram.Types.Censorship
import Engram.Keeper.CircuitBreaker
import Engram.Keeper.Store
import Engram.Keeper.MsgServer
import Engram.Keeper.Backoff
import Engram.Fsm.Core
import Engram.Fsm.Counters
import Engram.Fsm.Hysteresis
import Engram.Fsm.Oscillations
import Engram.Fsm.Recovery
import Engram.Node.Sensors
import Engram.Node.Receipts
import Engram.Node.FreshnessWindows
import Engram.Node.BlockTag
import Engram.Node.AnchorTracker
import Engram.Node.SharedWallet
import Engram.Node.PeerHealth
import Engram.Node.PeerFilter
import Engram.Node.Proposal
import Engram.Node.ProposalHandlers
import Engram.Node.PreBlock
import Engram.Node.Genesis
import Engram.Node.Chain
import Engram.Node.Publisher
import Engram.Node.Availability
import Engram.Circuit.Reanchoring
import Engram.Circuit.Witness
import Engram.Circuit.RollingProofs
import Engram.Circuit.PhiRecovery
import Engram.Circuit.Aggregator
import Engram.Spec.EngramFSM
import Engram.Spec.FsmStep
import Engram.Chain.Step
import Engram.Spec.ProposalValidity
import Engram.Chain.History
import Engram.Chain.Reanchoring
import Engram.Chain.HeaderHistory
import Engram.Chain.ProofCoverage
import Engram.Chain.HonestProver
import Engram.Chain.ProofLatch
import Engram.Chain.ProofFreshness
import Engram.Chain.LeaderAgreement
import Engram.Chain.RestartTransparency
import Engram.Chain.AnchorMonotonicity
import Engram.Chain.WithdrawalLock
import Engram.Chain.ByzantineLeader
import Engram.Chain.ProposalText
import Engram.Chain.DataAvailabilityTrust
import Engram.Chain.DataAvailabilityOutage
import Engram.Chain.GenesisRoundTrip
import Engram.Chain.BeginBlocker
import Engram.Chain.StateQuery
import Engram.Chain.ForcedInclusion
import Engram.Spec.Server.State
import Engram.Spec.Server.Actions
import Engram.Spec.FsmCoverage
import Engram.Spec.FsmLiveness
import Engram.Spec.CommitHook
import Engram.Spec.Server.Voting
import Engram.Spec.Server.Locking
import Engram.Spec.Server.Agreement
import Engram.Spec.Server.Accountability
import Engram.Spec.Server.Firewall
import Engram.Spec.Server.ProposerTime
import Engram.Spec.EngramConsensus
import Engram.Spec.ConsensusInvariants
import Engram.Spec.ConsensusLiveness
import Engram.Spec.Server.RefinementMapping
import Engram.Spec.Server.Pacemaker
import Engram.Spec.Server.Refinement
import Engram.Spec.Server.RefinementExact
import Engram.Spec.Server.Certificates
import Engram.Spec.Server.SensorInvariants
import Engram.Spec.Server.SensorSafety
import Engram.Spec.Server.MasterInvariants
import Engram.Spec.Server.EclipseForgery
import Engram.App.Ante
import Engram.Cmd.PairwiseLinks
import Engram.Cmd.TestnetPeers
