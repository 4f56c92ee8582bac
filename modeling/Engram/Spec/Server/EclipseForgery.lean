import Engram.Spec.Server.Accountability
import Engram.Spec.Server.MasterInvariants
import Engram.Spec.Server.ProposerTime

/-!
`EngramServer_EclipseForgedProposal.tla`: the server with one more Byzantine action, a
leader on an eclipsed network that proposes under a false FSM state. An honest node
compares the proposal with the state machine at its own prevote, not at the broadcast.
-/

set_option autoImplicit false
set_option relaxedAutoImplicit false

namespace Engram.Spec.Server

open Engram.Types Engram.Library

variable {Node : Type} [DecidableEq Node]

section Attack

variable (k : ServerConstants Node) (s : State Node)

def ForgedFSMStateChoices : Finset FSMState :=
  {.anchored, .suspicious, .sovereign, .recovering} \
    {CalculateNextFSMState k.toConstants s.env.vars}

def forgedProposal (r : ℕ) (tx : Value) (forged : FSMState) : Proposal where
  value := tx
  timestamp := s.realTime
  round := r
  fsmState := forged
  daReceipt := ⟨s.env.hEngramVerified, !s.env.isAttestationFailed⟩
  btcReceipt := ⟨s.env.hBtcCurrent, ExpectedBlockHash s.env.hBtcCurrent⟩
  zkProofRef := false
  healthy := decide (IsHealthyCondition k.toConstants s.env.vars)

def ByzantineForgedFSMState (r : ℕ) (tx : Value) (forged : FSMState) : Option (State Node) :=
  if r ≤ k.maxRound ∧ k.proposer r ∈ k.byzantineNodes ∧ s.msgsPropose r = ∅ ∧
      ¬ IsP2PQualityHealthy k.toConstants s.env.vars ∧ forged ∈ ForgedFSMStateChoices k s ∧
      tx ∈ s.forcedTxQueue then
    some (BroadcastProposal s (k.proposer r) r (forgedProposal k s r tx forged) none)
  else none

/-- The disjuncts of `ServerNextWithEclipseAttack`. -/
inductive EclipseAction (Node : Type) where
  | server (a : Action Node)
  | byzantineForgedFSMState (r : ℕ) (tx : Value) (forged : FSMState)

def ServerNextWithEclipseAttack : EclipseAction Node → Option (State Node)
  | .server a => ServerNext k s a
  | .byzantineForgedFSMState r tx forged => ByzantineForgedFSMState k s r tx forged

def EclipseRun (past : List (Move (State Node) (EclipseAction Node))) (now : State Node) : Prop :=
  ∃ start, ServerInit k start ∧ Run (ServerNextWithEclipseAttack k) start past now

def EclipseCast (m : Move (State Node) (EclipseAction Node)) (q : Node) (r : ℕ) (b : Proposal) :
    Prop :=
  m.source.round q = r ∧ ⟨q, r, some b⟩ ∉ m.source.msgsPrevote r ∧
    ⟨q, r, some b⟩ ∈ m.target.msgsPrevote r

end Attack

section Classification

variable {k : ServerConstants Node} {s s' : State Node} {a : EclipseAction Node}

private theorem byzantineForgedFSMState_some {r : ℕ} {tx : Value} {forged : FSMState}
    (taken : ServerNextWithEclipseAttack k s (.byzantineForgedFSMState r tx forged) = some s') :
    k.proposer r ∈ k.byzantineNodes ∧ s.msgsPropose r = ∅ ∧
      CalculateNextFSMState k.toConstants s.env.vars ≠ forged ∧
      s' = BroadcastProposal s (k.proposer r) r (forgedProposal k s r tx forged) none := by
  obtain ⟨⟨-, byzantine, empty, -, choice, -⟩, rfl⟩ := guarded_eq_some taken
  refine ⟨byzantine, empty, ?_, rfl⟩
  intro same
  exact (Finset.mem_sdiff.mp choice).2 (Finset.mem_singleton.mpr same.symm)

private theorem eclipse_core (taken : ServerNextWithEclipseAttack k s a = some s') :
    CoreStep k Proposal.value (IsValidProposal k s.env) s.core s'.core := by
  cases a with
  | server a => exact core_step (honoursLock_value k s a) taken
  | byzantineForgedFSMState r tx forged =>
      obtain ⟨byzantine, empty, -, rfl⟩ := byzantineForgedFSMState_some taken
      refine .propose ⟨k.proposer r, r, forgedProposal k s r tx forged, none⟩
        (Finset.mem_union_right _ byzantine) rfl ?_ ?_
      · intro m member
        rw [show s.core.msgsPropose r = ∅ from empty] at member
        cases member
      · intro honest
        exact absurd byzantine (QuorumSystem.not_faulty honest)

private theorem eclipse_timed (taken : ServerNextWithEclipseAttack k s a = some s') :
    TimedStep k s.timed s'.timed := by
  cases a with
  | server a => exact timed_step taken
  | byzantineForgedFSMState r tx forged =>
      obtain ⟨byzantine, -, -, rfl⟩ := byzantineForgedFSMState_some taken
      exact .withhold r _ byzantine rfl rfl

end Classification

section Sourced

variable {k : ServerConstants Node} {t t' : Timed Node} {b : Proposal}

def Opened (t : Timed Node) (b : Proposal) : Prop := (t.msgsPropose b.round).Nonempty

/-- Every proposal in use was built for a round in which somebody has proposed. -/
structure Sourced (t : Timed Node) : Prop where
  proposed : ∀ r, ∀ m ∈ t.msgsPropose r, Opened t m.proposal
  remembered : ∀ p, ∀ b ∈ t.validValue p, Opened t b
  received : ∀ p, ∀ m ∈ t.received p, Opened t m.proposal
  prevoted : ∀ r, ∀ m ∈ t.msgsPrevote r, ∀ b ∈ m.id, Opened t b

theorem Sourced.propose (sourced : Sourced t) {r : ℕ} {msg : ProposalMsg Node}
    (source : Opened t msg.proposal ∨ msg.proposal.round = r) :
    Sourced { t with
      msgsPropose := Function.update t.msgsPropose r (insert msg (t.msgsPropose r)) } := by
  have kept : ∀ b, Opened t b → Opened { t with
      msgsPropose := Function.update t.msgsPropose r (insert msg (t.msgsPropose r)) } b := by
    rintro b ⟨m, member⟩
    exact ⟨m, (mem_update_insert _ _ _ _ _).mpr (.inl member)⟩
  refine ⟨?_, fun p b member => kept b (sourced.remembered p b member),
    fun p m member => kept _ (sourced.received p m member),
    fun r m member b voted => kept b (sourced.prevoted r m member b voted)⟩
  intro r' m member
  rcases (mem_update_insert _ _ _ _ _).mp member with old | ⟨-, rfl⟩
  · exact kept _ (sourced.proposed r' m old)
  · rcases source with opened | own
    · exact kept _ opened
    · exact ⟨m, (mem_update_insert _ _ _ _ _).mpr (.inr ⟨own, rfl⟩)⟩

theorem Sourced.step (sourced : Sourced t) (step : TimedStep k t t') : Sourced t' := by
  cases step with
  | silent => exact sourced
  | tick => exact { sourced with }
  | enter p r honest forward => exact { sourced with }
  | propose p b honest source =>
      refine sourced.propose ?_
      rcases source with remembered | ⟨-, -, round⟩
      · exact .inl (sourced.remembered p b remembered)
      · exact .inr round
  | withhold r b byzantine time round => exact sourced.propose (.inr round)
  | receive p msg honest proposed fresh timely =>
      refine { sourced with received := ?_ }
      intro q m member
      rcases (mem_received_insert _ _ _ _ _).mp member with old | ⟨-, rfl⟩
      · exact sourced.received q m old
      · exact sourced.proposed _ m proposed
  | prevote p id cast =>
      refine { sourced with prevoted := ?_ }
      intro r m member b voted
      rcases (mem_update_insert _ _ _ _ _).mp member with old | ⟨-, rfl⟩
      · exact sourced.prevoted r m old b voted
      · rcases cast b voted with ⟨msg, received, rfl⟩ | ⟨vr, quorum⟩
        · exact sourced.received p msg received
        · obtain ⟨vote, earlier, same⟩ := exists_vote_of_quorumFor quorum
          exact sourced.prevoted vr vote earlier b same
  | remember p msg proposed =>
      refine { sourced with remembered := ?_ }
      intro q b member
      rcases mem_remembered member with old | rfl
      · exact sourced.remembered q b old
      · exact sourced.proposed _ msg proposed
  | decide p msg undecided proposed => exact { sourced with }

end Sourced

section Runs

variable {k : ServerConstants Node} {start now : State Node}
  {past newer older : List (Move (State Node) (EclipseAction Node))}

theorem EclipseRun.invariant {I : State Node → Prop} (run : EclipseRun k past now)
    (base : ∀ clock, I (initialState k clock))
    (preserved : ∀ s a next, I s → ServerNextWithEclipseAttack k s a = some next → I next) :
    I now := by
  obtain ⟨start, ⟨clock, -, rfl⟩, steps⟩ := run
  exact Run.invariant steps (base clock) preserved

theorem EclipseRun.coreInvariant (run : EclipseRun k past now) :
    CoreInvariant k Proposal.value now.core :=
  run.invariant (I := fun s => CoreInvariant k Proposal.value s.core)
    (fun clock => CoreInvariant.initial k _ clock)
    fun _ _ _ before taken => before.step (eclipse_core taken)

private theorem EclipseRun.sourced (run : EclipseRun k past now) : Sourced now.timed := by
  refine run.invariant (I := fun s => Sourced s.timed) (fun clock => ⟨nofun, nofun, nofun, ?_⟩)
    fun _ _ _ before taken => before.step (eclipse_timed taken)
  intro r m member b voted
  rw [(mem_faultyVotes member).2.2] at voted
  cases voted

private theorem prevote_since (run : Run (ServerNextWithEclipseAttack k) start (newer ++ older) now)
    {q : Node} {r : ℕ} {b : Proposal} (voted : (⟨q, r, some b⟩ : Vote Node) ∈ now.msgsPrevote r) :
    (∃ mid, Run (ServerNextWithEclipseAttack k) start older mid ∧
      (⟨q, r, some b⟩ : Vote Node) ∈ mid.msgsPrevote r) ∨
    ∃ m ∈ newer, q ∈ k.honestNodes ∧ EclipseCast m q r b ∧
      IsValidProposal k m.source.env b := by
  induction newer generalizing now with
  | nil => exact .inl ⟨now, run, voted⟩
  | cons m newer ih =>
      cases run with
      | @extend _ earlier _ input before taken =>
          by_cases old : (⟨q, r, some b⟩ : Vote Node) ∈ earlier.msgsPrevote r
          · rcases ih before old with already | ⟨m, member, cast⟩
            · exact .inl already
            · exact .inr ⟨m, List.mem_cons_of_mem _ member, cast⟩
          · rcases (eclipse_core taken).prevote_cases voted with known | ⟨honest, -, current, -,
              checked, -⟩
            · exact absurd known old
            · exact .inr ⟨_, List.mem_cons_self, honest, ⟨current.symm, old, voted⟩,
                (checked b rfl).1⟩

private theorem forged_prevote {m : Move (State Node) (EclipseAction Node)}
    (run : EclipseRun k (newer ++ m :: older) now) {r : ℕ} {tx : Value} {forged : FSMState}
    (forges : m.input = .byzantineForgedFSMState r tx forged) {q : Node} {ρ : ℕ}
    (voted : (⟨q, ρ, some (forgedProposal k m.source r tx forged)⟩ : Vote Node) ∈
      now.msgsPrevote ρ) :
    ∃ m' ∈ newer, q ∈ k.honestNodes ∧
      EclipseCast m' q ρ (forgedProposal k m.source r tx forged) ∧
      IsValidProposal k m'.source.env (forgedProposal k m.source r tx forged) := by
  obtain ⟨start, initial, run⟩ := run
  rcases prevote_since run voted with ⟨mid, before, earlier⟩ | cast
  · -- Before the forgery nobody had proposed in its round, so nobody had voted for it.
    cases before with
    | @extend _ source _ _ before taken =>
        subst forges
        obtain ⟨-, empty, -, rfl⟩ := byzantineForgedFSMState_some taken
        have sourced : Sourced source.timed :=
          EclipseRun.sourced ⟨start, initial, before⟩
        have opened := sourced.prevoted ρ _ earlier _ rfl
        exact absurd empty opened.ne_empty
  · exact cast

private theorem EclipseRun.fsmWritten (run : EclipseRun k past now) : FsmWritten k now.core :=
  run.invariant (I := fun s => FsmWritten k s.core) (fun _ => .inl fun _ _ => rfl)
    fun _ _ _ before taken => before.step (eclipse_core taken)

theorem EclipseRun.precommitOnce (run : EclipseRun k past now) : PrecommitOnce k now.core := by
  have silent : ∀ clock, PrecommitOnce k (initialState k clock).core := by
    intro clock r m member m' _ honest
    exact absurd honest fun present =>
      QuorumSystem.not_faulty present (mem_faultyVotes member).1
  have both := run.invariant
    (I := fun s => CoreInvariant k Proposal.value s.core ∧ PrecommitOnce k s.core)
    (fun clock => ⟨CoreInvariant.initial k _ clock, silent clock⟩) fun _ _ _ before taken =>
      ⟨before.1.step (eclipse_core taken), before.2.step before.1.timeline (eclipse_core taken)⟩
  exact both.2

private theorem EclipseRun.prevoted_of_decided (run : EclipseRun k past now) {p : Node}
    {d : Decision} (decided : d ∈ now.decision p) :
    ∃ q ∈ k.honestNodes, (⟨q, d.round, some d.prop⟩ : Vote Node) ∈ now.msgsPrevote d.round := by
  have core := run.coreInvariant
  obtain ⟨-, -, quorum⟩ := core.decided p d decided
  obtain ⟨voters, isQuorum, voted⟩ :=
    core.lawful.prevoteQuorum_of_precommitQuorum (core.precommitQuorum quorum)
  obtain ⟨q, member, honest⟩ := isQuorum.exists_honest
  exact ⟨q, honest, voted q member⟩

/-- The attack does not touch agreement on values or accountability, every decision was valid
where an honest node prevoted for it, and a forged proposal is decided only after the state
machine has moved to the state it claims. `FSMStateConsistency`, which the driver of the
attack checks, only says that the decided states agree with each other; with as many
Byzantine nodes as tolerated they always do, forged or not. -/
theorem eclipse_forgery (run : EclipseRun k past now) :
    AgreementOnValue k now ∧ ¬ DoubleSigningEvidence k now ∧
    (∀ p ∈ k.honestNodes, ∀ d ∈ now.decision p, ∃ m ∈ past, ∃ q ∈ k.honestNodes,
      EclipseCast m q d.round d.prop ∧ IsValidProposal k m.source.env d.prop) ∧
    (∀ newer m older r tx forged, past = newer ++ m :: older →
      m.input = .byzantineForgedFSMState r tx forged →
      ∀ p ∈ k.honestNodes, ∀ d ∈ now.decision p, d.prop = forgedProposal k m.source r tx forged →
        CalculateNextFSMState k.toConstants m.source.env.vars ≠ forged ∧
        ∃ m' ∈ newer, ∃ q ∈ k.honestNodes, EclipseCast m' q d.round d.prop ∧
          CalculateNextFSMState k.toConstants m'.source.env.vars = forged) ∧
    (FSMStateConsistency k now ↔ FsmAgrees k now.core) ∧
    (k.byzantineNodes.card = k.system.tolerance → FSMStateConsistency k now) := by
  have core := run.coreInvariant
  have consistent : FSMStateConsistency k now ↔ FsmAgrees k now.core := run.fsmWritten.matches_iff
  refine ⟨fun p _ q _ d decided d' decided' => core.agreement decided decided',
    not_doubleSigning core run.precommitOnce, fun p _ d decided => ?_, ?_, consistent,
    fun full => consistent.mpr (core.fsmAgrees_of_full full)⟩
  · obtain ⟨q, honest, voted⟩ := run.prevoted_of_decided decided
    obtain ⟨start, initial, steps⟩ := run
    rw [← List.append_nil past] at steps
    rcases prevote_since steps voted with ⟨mid, before, earlier⟩ | ⟨m, member, -, cast, valid⟩
    · cases before with
      | initial =>
          obtain ⟨clock, -, rfl⟩ := initial
          cases (mem_faultyVotes earlier).2.2
    · exact ⟨m, member, q, honest, cast, valid⟩
  · rintro newer m older r tx forged rfl forges p _ d decided same
    obtain ⟨q, honest, voted⟩ := run.prevoted_of_decided decided
    rw [same] at voted
    obtain ⟨m', later, -, cast, -, claimed, -⟩ := forged_prevote run forges voted
    refine ⟨?_, m', later, q, honest, same ▸ cast, claimed.symm⟩
    obtain ⟨start, -, steps⟩ := run
    obtain ⟨-, taken⟩ := steps.cut
    rw [forges] at taken
    exact (byzantineForgedFSMState_some taken).2.2.1

end Runs

section Sample

/-- The round, the transaction and the state of a forgery. -/
def EclipseAction.forges {Node : Type} : EclipseAction Node → Option (ℕ × Value × FSMState)
  | .server _ => none
  | .byzantineForgedFSMState r tx forged => some (r, tx, forged)

def eclipsedConstants : ServerConstants (Fin 4) :=
  checkedConstants oneByzantine fun _ => forgedMsg.src

/-- Under a relay attack the leader claims SOVEREIGN; the hijack that follows makes it
true. -/
def forgedTrace : List (EclipseAction (Fin 4)) :=
  [.server (.updateEnvironment ⟨⟨false, false, false⟩, .normal false, .relayNodeAttack⟩),
    .byzantineForgedFSMState 0 .txNormal .sovereign,
    .server (.updateEnvironment ⟨⟨false, false, false⟩, .normal false, .bgpHijackingAttack⟩)] ++
  forgedRound.map .server

/-- A forged proposal is decided, and the driver's check holds. -/
theorem eclipse_forgery_decided :
    ∃ past now, EclipseRun eclipsedConstants past now ∧ FSMStateConsistency eclipsedConstants now ∧
      ∃ m ∈ past, ∃ m' ∈ past,
        now.decision 0 =
          some ⟨forgedProposal eclipsedConstants m.source 0 .txNormal .sovereign, 0⟩ ∧
        CalculateNextFSMState eclipsedConstants.toConstants m.source.env.vars ≠ .sovereign ∧
        CalculateNextFSMState eclipsedConstants.toConstants m'.source.env.vars = .sovereign := by
  obtain ⟨past, now, steps, passed⟩ := exists_run_of_replayPasses
    (ServerNextWithEclipseAttack eclipsedConstants) (initialState eclipsedConstants fun _ => 0)
    forgedTrace
    (fun moves s => decide (∃ m ∈ moves, m.input.forges = some (0, .txNormal, .sovereign) ∧
      s.decision 0 =
        some ⟨forgedProposal eclipsedConstants m.source 0 .txNormal .sovereign, 0⟩))
    (by decide +kernel)
  obtain ⟨m, member, forges, decided⟩ := of_decide_eq_true passed
  have run : EclipseRun eclipsedConstants past now := ⟨_, serverInit_zero _ _, steps⟩
  obtain ⟨newer, older, rfl⟩ := List.append_of_mem member
  have input : m.input = .byzantineForgedFSMState 0 .txNormal .sovereign := by
    cases action : m.input with
    | server a =>
        rw [action] at forges
        cases forges
    | byzantineForgedFSMState r tx forged =>
        rw [action] at forges
        obtain ⟨rfl, rfl, rfl⟩ := Option.some.inj forges
        rfl
  obtain ⟨-, -, -, contained, -, consistent⟩ := eclipse_forgery run
  obtain ⟨differs, m', later, -, -, -, claimed⟩ :=
    contained newer m older 0 .txNormal .sovereign rfl input 0 (by decide) _ decided rfl
  exact ⟨_, now, run, consistent (by decide), m, member, m', List.mem_append_left _ later,
    decided, differs, claimed⟩

end Sample

end Engram.Spec.Server
