import Engram.Spec.Server.Agreement
import Engram.Spec.EngramConsensus
import Mathlib.Order.ConditionallyCompleteLattice.Finset

/-!
The refinement mapping of `EngramServerRefinement.tla`, from the server's state to the
abstract consensus, with one unit of stake for every node.
-/

set_option autoImplicit false
set_option relaxedAutoImplicit false

namespace Engram.Spec.Server

open Engram.Types Engram.Library

variable {Node : Type} [DecidableEq Node]

structure RefinementConstants (Node : Type) [DecidableEq Node] extends ServerConstants Node where
  kDeepFinality : ℕ
  method : Finset Value

section Mapping

variable (k : RefinementConstants Node) (s : State Node)

/-- The instance of the abstract constants, with homogeneous stake. -/
def abstractConstants : Consensus.Constants Node Value where
  nodes := k.system.nodes
  nonempty := ⟨_, Finset.mem_union_left _ k.system.exists_mem_honest.choose_spec⟩
  method := {m | m ∈ k.method}
  stake _ := 1
  resetTime := k.timeoutDuration
  totalStake := k.system.nodes.card
  kDeepFinality := k.kDeepFinality

/-- `Q_abstract`: a chosen set of `2T + 1` nodes. -/
noncomputable def abstractQuorum : Finset Node :=
  Consensus.chooseNodes fun q => q ⊆ k.system.nodes ∧ q.card ≥ k.threshold2

noncomputable def eCache (qc : QuorumCert Node) : Consensus.Cache Node Value :=
  ⟨.e, qc.round + 1, qc.caller, none, abstractQuorum k, qc.btcAnchored + k.kDeepFinality⟩

def mCache (qc : QuorumCert Node) : Consensus.Cache Node Value :=
  ⟨.m, qc.round + 1, qc.caller, qc.method, {qc.caller}, qc.btcAnchored + k.kDeepFinality⟩

noncomputable def tCache (tc : TimeoutCert Node) : Consensus.Cache Node Value :=
  ⟨.t, tc.round + 1, tc.caller, none, abstractQuorum k, tc.btcAnchored + k.kDeepFinality⟩

noncomputable def cCache (r : ℕ) (b : Proposal) : Consensus.Cache Node Value :=
  ⟨.c, r + 1, k.proposer r, none, abstractQuorum k,
    b.btcReceipt.checkpointBlockHeight + k.kDeepFinality⟩

def mappedECaches : Set (Consensus.Cache Node Value) :=
  {c | ∃ qc ∈ s.quorumCerts, qc.type = .eQC ∧ c = eCache k qc}

def mappedMCaches : Set (Consensus.Cache Node Value) :=
  {c | ∃ qc ∈ s.quorumCerts, qc.type = .mQC ∧ c = mCache k qc}

def mappedTCaches : Set (Consensus.Cache Node Value) :=
  {c | ∃ tc ∈ s.timeoutCerts, c = tCache k tc}

def mappedCCaches : Set (Consensus.Cache Node Value) :=
  {c | ∃ r ≤ k.maxRound, ∃ m ∈ s.msgsPrecommit r, ∃ b ∈ m.id,
    Core.QuorumFor k.toServerConstants s.msgsPrecommit r b ∧ c = cCache k r b}

def mappedTree : Set (Consensus.Cache Node Value) :=
  mappedECaches k s ∪ mappedMCaches k s ∪ mappedCCaches k s ∪ mappedTCaches k s

/-- The abstract specification distinguishes only anchored and sovereign. -/
def mappedFsmState : FSMState :=
  if s.env.state = .anchored ∨ s.env.state = .suspicious then .anchored else .sovereign

def participatedRounds : Set ℕ :=
  {0} ∪ {t | ∃ qc ∈ s.quorumCerts, qc.type = .eQC ∧ t = qc.round + 1} ∪
    {t | ∃ c ∈ mappedCCaches k s, t = c.certRound + 1}

noncomputable def mappedLocalTimes (n : Node) : ℕ :=
  if n ∈ abstractQuorum k then sSup (participatedRounds k s) else 0

def currentTimers : Set ℕ :=
  {t | ∃ p ∈ k.honestNodes, s.round p = currentMaxRound k.toServerConstants s ∧
    t = s.localRemTime p}

noncomputable def minRemTime : ℕ := sInf (currentTimers k s)

noncomputable def mapped : Consensus.State Node Value where
  tree := mappedTree k s
  localTimes := mappedLocalTimes k s
  round := currentMaxRound k.toServerConstants s + 1
  remTime := minRemTime k s
  fsmState := mappedFsmState s
  hBtcCurrent := s.env.hBtcCurrent + k.kDeepFinality
  hBtcAnchored := s.env.hBtcAnchored + k.kDeepFinality

/-- A step maps to an abstract step or leaves every mapped variable unchanged. -/
def RefinesStep (k : RefinementConstants Node) (m : Move (State Node) (Action Node)) : Prop :=
  Consensus.Next (abstractConstants k) (mapped k m.source) (mapped k m.target) ∨
    mapped k m.target = mapped k m.source

end Mapping

section Quorum

variable {k : RefinementConstants Node}

private theorem abstractQuorum_spec : abstractQuorum k ⊆ k.system.nodes ∧
    (abstractQuorum k).card ≥ k.threshold2 := by
  apply Classical.epsilon_spec (p := fun q => q ⊆ k.system.nodes ∧ q.card ≥ k.threshold2)
  refine ⟨k.system.nodes, Finset.Subset.refl _, ?_⟩
  have size : k.system.nodes.card = 3 * k.system.tolerance + 1 := k.system.size
  unfold ServerConstants.threshold2
  omega

theorem exists_mem_abstractQuorum : ∃ n, n ∈ abstractQuorum k := by
  have large := (abstractQuorum_spec (k := k)).2
  have positive : 0 < (abstractQuorum k).card := by
    unfold ServerConstants.threshold2 at large
    omega
  exact Finset.card_pos.mp positive

theorem chosenQuorum_eq : Consensus.chosenQuorum (abstractConstants k) = abstractQuorum k := by
  unfold Consensus.chosenQuorum abstractQuorum
  congr 1
  funext q
  have size : k.system.nodes.card = 3 * k.system.tolerance + 1 := k.system.size
  have sum : Consensus.SumStake (abstractConstants k) q = q.card := by
    simp [Consensus.SumStake, abstractConstants]
  simp only [Consensus.IsSQuorum, sum, eq_iff_iff, ServerConstants.threshold2]
  change (q ⊆ k.system.nodes ∧ q ⊆ k.system.nodes ∧ q.card * 3 > k.system.nodes.card * 2) ↔ _
  rw [size]
  constructor
  · rintro ⟨within, -, large⟩
    exact ⟨within, by omega⟩
  · rintro ⟨within, large⟩
    exact ⟨within, within, by omega⟩

end Quorum

section MaxRound

variable {k : ServerConstants Node} {s : State Node}

theorem round_le_currentMaxRound {p : Node} (honest : p ∈ k.honestNodes) :
    s.round p ≤ currentMaxRound k s := by
  unfold currentMaxRound
  exact Finset.le_sup honest

theorem exists_round_eq_max (k : ServerConstants Node) (s : State Node) :
    ∃ p ∈ k.honestNodes, s.round p = currentMaxRound k s := by
  obtain ⟨p, honest, reached⟩ := Finset.exists_mem_eq_sup k.honestNodes
    k.system.exists_mem_honest s.round
  exact ⟨p, honest, reached.symm⟩

end MaxRound

end Engram.Spec.Server
