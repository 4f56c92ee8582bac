import Engram.Spec.Server.Firewall
import Mathlib.Data.Finset.Fold

/-!
The timing invariants of `EngramTendermint.tla`: the ghost variables `begin_round` and
`end_consensus` over a run, and the timestamps that can be decided.
-/

set_option autoImplicit false
set_option relaxedAutoImplicit false

namespace Engram.Spec.Server

open Engram.Types Engram.Library

variable {Node : Type} [DecidableEq Node]

section Ghosts

variable (k : ServerConstants Node)

/-- `begin_round` after a step: `Min2` with the clocks of the nodes that entered the round. -/
def nextBeginRound (begins : ℕ → ℕ) (s s' : State Node) (r : ℕ) : ℕ :=
  (k.honestNodes.filter fun p => s.round p < r ∧ s'.round p = r).fold min (begins r) s.localClock

/-- `begin_round` over a run. -/
def beginRound (start : State Node) : List (Move (State Node) (Action Node)) → ℕ → ℕ
  | [], r =>
      if r = 0 then k.honestNodes.inf' k.system.exists_mem_honest start.localClock
      else k.maxTimestamp
  | m :: older, r => nextBeginRound k (beginRound start older) m.source m.target r

omit [DecidableEq Node] in
/-- `end_consensus` over a run; the nil timestamp is `none`. -/
def endConsensus (p : Node) : List (Move (State Node) (Action Node)) → Option ℕ
  | [] => none
  | m :: older =>
      if m.source.decision p = none ∧ m.target.decision p ≠ none then some (m.source.localClock p)
      else endConsensus p older

end Ghosts

/-! The variables that carry timestamps, and what a step does to them. -/

structure Timed (Node : Type) where
  realTime : ℕ
  localClock : Node → ℕ
  round : Node → ℕ
  decision : Node → Option Decision
  validValue : Node → Option Proposal
  validRound : Node → Option ℕ
  msgsPropose : ℕ → Finset (ProposalMsg Node)
  msgsPrevote : ℕ → Finset (Vote Node)
  received : Node → Finset (ProposalMsg Node)

def State.timed (s : State Node) : Timed Node where
  realTime := s.realTime
  localClock := s.localClock
  round := s.round
  decision := s.decision
  validValue := s.validValue
  validRound := s.validRound
  msgsPropose := s.msgsPropose
  msgsPrevote := s.msgsPrevote
  received := s.receivedTimelyProposal

inductive TimedStep (k : ServerConstants Node) (t : Timed Node) : Timed Node → Prop
  | silent : TimedStep k t t
  | tick : TimedStep k t { t with
      realTime := t.realTime + 1
      localClock := fun q => t.localClock q + 1 }
  | enter (p : Node) (r : ℕ) (honest : p ∈ k.honestNodes) (forward : t.round p < r) :
      TimedStep k t { t with round := Function.update t.round p r }
  | propose (p : Node) (b : Proposal) (honest : p ∈ k.honestNodes)
      (source : t.validValue p = some b ∨ t.validValue p = none ∧
        b.timestamp = t.localClock p ∧ b.round = t.round p) :
      TimedStep k t { t with
        msgsPropose := Function.update t.msgsPropose (t.round p)
          (insert ⟨p, t.round p, b, t.validRound p⟩ (t.msgsPropose (t.round p))) }
  | withhold (r : ℕ) (b : Proposal) (byzantine : k.proposer r ∈ k.byzantineNodes)
      (time : b.timestamp = t.realTime) (round : b.round = r) :
      TimedStep k t { t with
        msgsPropose := Function.update t.msgsPropose r
          (insert ⟨k.proposer r, r, b, none⟩ (t.msgsPropose r)) }
  | receive (p : Node) (msg : ProposalMsg Node) (honest : p ∈ k.honestNodes)
      (proposed : msg ∈ t.msgsPropose (t.round p)) (fresh : msg.validRound = none)
      (timely : IsTimely k (t.localClock p) msg.proposal.timestamp) :
      TimedStep k t { t with
        received := Function.update t.received p (insert msg (t.received p)) }
  | prevote (p : Node) (id : Option Proposal)
      (cast : ∀ b ∈ id, (∃ msg ∈ t.received p, msg.proposal = b) ∨
        ∃ vr, Core.QuorumFor k t.msgsPrevote vr b) :
      TimedStep k t { t with
        msgsPrevote := Function.update t.msgsPrevote (t.round p)
          (insert ⟨p, t.round p, id⟩ (t.msgsPrevote (t.round p))) }
  | remember (p : Node) (msg : ProposalMsg Node) (proposed : msg ∈ t.msgsPropose (t.round p)) :
      TimedStep k t { t with
        validValue := Function.update t.validValue p (some msg.proposal)
        validRound := Function.update t.validRound p (some (t.round p)) }
  | decide (p : Node) (msg : ProposalMsg Node) (undecided : t.decision p = none)
      (proposed : msg ∈ t.msgsPropose (t.round p)) :
      TimedStep k t { t with
        decision := Function.update t.decision p (some ⟨msg.proposal, t.round p⟩) }

section Classification

variable {k : ServerConstants Node} {s next : State Node} {p : Node}

private theorem startRound_timed {r : ℕ} (honest : p ∈ k.honestNodes) (forward : s.round p < r)
    (taken : StartRound k s p r = some next) : TimedStep k s.timed next.timed := by
  obtain ⟨-, -, rfl⟩ := startRound_some taken
  exact .enter p r honest forward

private theorem handler_timed {handler : ProposeHandler} {msg : ProposalMsg Node}
    (honest : p ∈ k.honestNodes) (taken : handler.run k s p msg = some next) :
    TimedStep k s.timed next.timed := by
  obtain ⟨-, ⟨id, rfl, quorum, cast⟩ | ⟨-, -, -, -, started⟩⟩ := handler_cases taken
  · refine .prevote p id fun b voted => ?_
    obtain ⟨rfl, -⟩ := cast b voted
    cases handler with
    | uponProposalInPropose =>
        obtain ⟨guard, -⟩ := Option.ite_none_right_eq_some.mp taken
        exact .inl ⟨msg, guard.1, rfl⟩
    | uponProposalInProposeAndPrevote =>
        simp only [ProposeHandler.run, UponProposalInProposeAndPrevote] at taken
        split at taken
        · cases taken
        · rename_i vr reproposed
          exact .inr ⟨vr, (quorum vr reproposed).2⟩
  · obtain ⟨-, -, rfl⟩ := startRound_some started
    exact .enter p _ honest (Nat.lt_succ_self _)

private theorem messageProcessing_timed {m : MessageAction Node} (honest : p ∈ k.honestNodes)
    (taken : ServerMessageProcessing k s p m = some next) :
    TimedStep k s.timed next.timed := by
  cases m with
  | receiveProposal msg =>
      obtain ⟨⟨proposed, -, fresh, -, -⟩, rfl⟩ := guarded_eq_some taken
      by_cases timely : IsTimely k (s.localClock p) msg.proposal.timestamp
      · have received :=
          TimedStep.receive (k := k) (t := s.timed) p msg honest proposed fresh timely
        simpa only [State.timed, if_pos timely] using received
      · simpa only [State.timed, if_neg timely] using TimedStep.silent (k := k) (t := s.timed)
  | uponProposalInPropose msg =>
      have ran : ProposeHandler.uponProposalInPropose.run k s p msg = some next := taken
      exact handler_timed honest ran
  | uponProposalInProposeAndPrevote msg =>
      have ran : ProposeHandler.uponProposalInProposeAndPrevote.run k s p msg = some next := taken
      exact handler_timed honest ran
  | uponQuorumOfPrevotesAny =>
      obtain ⟨-, rfl⟩ := guarded_eq_some taken
      exact .silent
  | uponProposalInPrevoteOrCommitAndPrevote msg =>
      obtain ⟨proposed, -, ⟨-, rfl⟩ | ⟨-, rfl⟩⟩ := uponPrevoteQuorum_some taken
      · exact .silent
      · exact .remember p msg proposed
  | uponQuorumOfPrecommitsAny =>
      exact startRound_timed honest (Nat.lt_succ_self _) (uponPrecommitQuorum_some taken)
  | onTimeoutPropose =>
      obtain ⟨-, rfl⟩ := guarded_eq_some taken
      exact .prevote p none nofun
  | onQuorumOfNilPrevotes =>
      obtain ⟨-, rfl⟩ := guarded_eq_some taken
      exact .silent
  | onRoundCatchup r =>
      obtain ⟨guard, started⟩ := Option.ite_none_right_eq_some.mp taken
      exact startRound_timed honest guard.2.1 started
  | uponfPlusOneTimeoutsAny r =>
      obtain ⟨guard, started⟩ := Option.ite_none_right_eq_some.mp taken
      exact startRound_timed honest guard.2.1 started
  | onLocalTimerExpire =>
      obtain ⟨-, rfl⟩ := guarded_eq_some taken
      exact .silent
  | serverInsertProposal v proofFound =>
      obtain ⟨-, -, -, -, -, rfl⟩ := serverInsertProposal_some taken
      refine .propose p (leaderProposal k s p v proofFound) honest ?_
      unfold leaderProposal
      cases remembered : s.validValue p with
      | none => exact .inr ⟨remembered, rfl, rfl⟩
      | some b => exact .inl remembered
  | serverProposerVotes handler msg own =>
      obtain ⟨handled, ran, certified⟩ := serverProposerVotes_some taken
      have voted : TimedStep k s.timed handled.timed := handler_timed honest ran
      rcases certified with ⟨-, -, -, rfl⟩ | ⟨-, rfl⟩
      · exact voted
      · exact voted
  | serverUponProposalInPrecommitNoDecision msg =>
      obtain ⟨proposed, undecided, -, rfl⟩ := serverDecision_some taken
      exact .decide p msg undecided proposed
  | serverUponTimeoutCert =>
      obtain ⟨-, rfl⟩ := guarded_eq_some taken
      exact .silent

theorem timed_step {a : Action Node} (taken : ServerNext k s a = some next) :
    TimedStep k s.timed next.timed := by
  cases a with
  | advanceRealTime =>
      obtain ⟨-, rfl⟩ := advanceRealTime_some taken
      exact .tick
  | updateEnvironment u =>
      obtain rfl := Option.some.inj taken
      exact .silent
  | messageProcessing p m =>
      obtain ⟨guard, processed⟩ := Option.ite_none_right_eq_some.mp taken
      exact messageProcessing_timed guard.2 processed
  | byzantinePull r =>
      obtain ⟨-, rfl⟩ := guarded_eq_some taken
      exact .silent
  | byzantineDataWithholding r tx =>
      obtain ⟨byzantine, -, -, -, -, rfl⟩ := serverDataWithholding_some taken
      exact .withhold r _ byzantine rfl rfl
  | honestTimeout r caller =>
      obtain ⟨-, rfl⟩ := guarded_eq_some taken
      exact .silent
  | honestRoundSkip p =>
      obtain ⟨guard, rfl⟩ := guarded_eq_some taken
      exact .enter p _ guard.1 (Nat.lt_succ_self _)

end Classification

theorem mem_received_insert {α : Type} [DecidableEq α] (f : Node → Finset α) (p q : Node)
    (x y : α) : y ∈ Function.update f p (insert x (f p)) q ↔ y ∈ f q ∨ (q = p ∧ y = x) := by
  by_cases same : q = p
  · subst same
    simp [or_comm]
  · simp [same]

theorem mem_remembered {α : Type} {f : Node → Option α} {p q : Node} {x y : α}
    (member : y ∈ Function.update f p (some x) q) : y ∈ f q ∨ y = x := by
  rw [Function.update_apply] at member
  split at member
  · exact .inr (Option.some.inj member).symm
  · exact .inl member

theorem exists_vote_of_quorumFor {k : ServerConstants Node} {votes : ℕ → Finset (Vote Node)}
    {r : ℕ} {b : Proposal} (quorum : Core.QuorumFor k votes r b) :
    ∃ vote ∈ votes r, vote.id = some b := by
  have positive : 0 < (votesFor (votes r) (some b)).card :=
    Nat.lt_of_lt_of_le (Nat.succ_pos _) quorum
  obtain ⟨vote, present⟩ := Finset.card_pos.mp positive
  exact ⟨vote, Finset.mem_filter.mp present⟩

section Invariant

variable {k : ServerConstants Node} {begins begins' : ℕ → ℕ} {t t' : Timed Node}

/-- A timestamp no honest clock is more than the precision behind, and not before the round in
which an honest proposer took it. -/
def TakenInTime (k : ServerConstants Node) (begins : ℕ → ℕ) (t : Timed Node) (b : Proposal) :
    Prop :=
  (∀ q ∈ k.honestNodes, b.timestamp ≤ t.localClock q + k.precision) ∧
    (k.proposer b.round ∈ k.honestNodes → begins b.round ≤ b.timestamp)

/-- The round of a proposal began at most the precision and the delay after its timestamp. -/
def ReceivedInTime (k : ServerConstants Node) (begins : ℕ → ℕ) (b : Proposal) : Prop :=
  begins b.round ≤ b.timestamp + k.precision + k.delay

structure TimeInvariant (k : ServerConstants Node) (begins : ℕ → ℕ) (t : Timed Node) : Prop where
  realTime : ∀ p ∈ k.honestNodes, t.realTime ≤ t.localClock p
  precision : ∀ p ∈ k.honestNodes, ∀ q ∈ k.honestNodes,
    t.localClock p ≤ t.localClock q + k.precision
  entered : ∀ p ∈ k.honestNodes, begins (t.round p) ≤ t.localClock p
  proposed : ∀ r, ∀ m ∈ t.msgsPropose r, TakenInTime k begins t m.proposal ∧
    (m.validRound = none → m.proposal.round = r)
  remembered : ∀ p, ∀ b ∈ t.validValue p, TakenInTime k begins t b
  reproposed : ∀ p, t.validRound p = none → t.validValue p = none
  received : ∀ p, ∀ m ∈ t.received p, ReceivedInTime k begins m.proposal
  prevoted : ∀ r, ∀ m ∈ t.msgsPrevote r, ∀ b ∈ m.id, ReceivedInTime k begins b

private theorem TakenInTime.mono {b : Proposal} (taken : TakenInTime k begins t b)
    (earlier : ∀ r, begins' r ≤ begins r)
    (later : ∀ q ∈ k.honestNodes, t.localClock q ≤ t'.localClock q) :
    TakenInTime k begins' t' b := by
  refine ⟨fun q honest => ?_, fun honest => (earlier _).trans (taken.2 honest)⟩
  have bounded := taken.1 q honest
  have forward := later q honest
  omega

private theorem ReceivedInTime.mono {b : Proposal} (received : ReceivedInTime k begins b)
    (earlier : ∀ r, begins' r ≤ begins r) : ReceivedInTime k begins' b :=
  (earlier _).trans received

private theorem TimeInvariant.mono (invariant : TimeInvariant k begins t)
    (earlier : ∀ r, begins' r ≤ begins r) : TimeInvariant k begins' t where
  realTime := invariant.realTime
  precision := invariant.precision
  entered p honest := (earlier _).trans (invariant.entered p honest)
  proposed r m member := ⟨(invariant.proposed r m member).1.mono earlier fun _ _ => le_rfl,
    (invariant.proposed r m member).2⟩
  remembered p b member := (invariant.remembered p b member).mono earlier fun _ _ => le_rfl
  reproposed := invariant.reproposed
  received p m member := (invariant.received p m member).mono earlier
  prevoted r m member b voted := (invariant.prevoted r m member b voted).mono earlier

theorem TimeInvariant.propose (invariant : TimeInvariant k begins t) {r : ℕ}
    {msg : ProposalMsg Node} (inTime : TakenInTime k begins t msg.proposal)
    (round : msg.validRound = none → msg.proposal.round = r) :
    TimeInvariant k begins { t with
      msgsPropose := Function.update t.msgsPropose r (insert msg (t.msgsPropose r)) } :=
  { invariant with
    proposed := fun r' m member => by
      rcases (mem_update_insert _ _ _ _ _).mp member with old | ⟨rfl, rfl⟩
      · exact invariant.proposed r' m old
      · exact ⟨inTime, round⟩
    remembered := invariant.remembered }

theorem TimeInvariant.source (invariant : TimeInvariant k begins t) {p : Node} {b : Proposal}
    (honest : p ∈ k.honestNodes) (source : t.validValue p = some b ∨ t.validValue p = none ∧
      b.timestamp = t.localClock p ∧ b.round = t.round p) :
    TakenInTime k begins t b ∧ (t.validRound p = none → b.round = t.round p) := by
  rcases source with remembered | ⟨-, time, round⟩
  · refine ⟨invariant.remembered p b remembered, fun nilRound => ?_⟩
    rw [invariant.reproposed p nilRound] at remembered
    cases remembered
  · refine ⟨⟨fun q other => ?_, fun _ => ?_⟩, fun _ => round⟩
    · rw [time]
      exact invariant.precision p honest q other
    · rw [time, round]
      exact invariant.entered p honest

theorem TimeInvariant.tick (invariant : TimeInvariant k begins t) :
    TimeInvariant k begins { t with
      realTime := t.realTime + 1
      localClock := fun q => t.localClock q + 1 } := by
  have later : ∀ q ∈ k.honestNodes, t.localClock q ≤ t.localClock q + 1 :=
    fun _ _ => Nat.le_succ _
  refine { invariant with
    realTime := ?_
    precision := ?_
    entered := ?_
    proposed := ?_
    remembered := ?_ }
  · intro p honest
    exact Nat.succ_le_succ (invariant.realTime p honest)
  · intro p honest q other
    have close := invariant.precision p honest q other
    show t.localClock p + 1 ≤ t.localClock q + 1 + k.precision
    omega
  · intro p honest
    exact Nat.le_succ_of_le (invariant.entered p honest)
  · intro r m member
    exact ⟨(invariant.proposed r m member).1.mono (fun _ => le_rfl) later,
      (invariant.proposed r m member).2⟩
  · intro p b member
    exact (invariant.remembered p b member).mono (fun _ => le_rfl) later

theorem TimeInvariant.enter (invariant : TimeInvariant k begins t) {p : Node} {r : ℕ}
    (began : p ∈ k.honestNodes → begins r ≤ t.localClock p) :
    TimeInvariant k begins { t with round := Function.update t.round p r } := by
  refine { invariant with
    entered := ?_
    proposed := invariant.proposed
    remembered := invariant.remembered }
  intro q honest
  by_cases same : q = p
  · subst same
    simp only [Function.update_self]
    exact began honest
  · show begins (Function.update t.round p r q) ≤ t.localClock q
    rw [Function.update_of_ne same]
    exact invariant.entered q honest

theorem TimeInvariant.receive (invariant : TimeInvariant k begins t) {p : Node}
    {msg : ProposalMsg Node} (honest : p ∈ k.honestNodes)
    (proposed : msg ∈ t.msgsPropose (t.round p)) (fresh : msg.validRound = none)
    (timely : IsTimely k (t.localClock p) msg.proposal.timestamp) :
    TimeInvariant k begins { t with
      received := Function.update t.received p (insert msg (t.received p)) } := by
  refine { invariant with
    received := ?_
    proposed := invariant.proposed
    remembered := invariant.remembered }
  intro q m member
  rcases (mem_received_insert _ _ _ _ _).mp member with old | ⟨rfl, rfl⟩
  · exact invariant.received q m old
  · have round := (invariant.proposed _ m proposed).2 fresh
    have began := invariant.entered q honest
    have late := timely.2
    unfold ReceivedInTime
    rw [round]
    omega

theorem TimeInvariant.prevote (invariant : TimeInvariant k begins t) {p : Node}
    {id : Option Proposal} (cast : ∀ b ∈ id, (∃ msg ∈ t.received p, msg.proposal = b) ∨
      ∃ vr, Core.QuorumFor k t.msgsPrevote vr b) :
    TimeInvariant k begins { t with
      msgsPrevote := Function.update t.msgsPrevote (t.round p)
        (insert ⟨p, t.round p, id⟩ (t.msgsPrevote (t.round p))) } := by
  refine { invariant with
    prevoted := ?_
    proposed := invariant.proposed
    remembered := invariant.remembered }
  intro r m member b voted
  rcases (mem_update_insert _ _ _ _ _).mp member with old | ⟨-, rfl⟩
  · exact invariant.prevoted r m old b voted
  · rcases cast b voted with ⟨msg, received, rfl⟩ | ⟨vr, quorum⟩
    · exact invariant.received p msg received
    · obtain ⟨vote, earlier, same⟩ := exists_vote_of_quorumFor quorum
      exact invariant.prevoted vr vote earlier b same

theorem TimeInvariant.remember (invariant : TimeInvariant k begins t) {p : Node}
    {msg : ProposalMsg Node} (proposed : msg ∈ t.msgsPropose (t.round p)) :
    TimeInvariant k begins { t with
      validValue := Function.update t.validValue p (some msg.proposal)
      validRound := Function.update t.validRound p (some (t.round p)) } := by
  refine { invariant with
    remembered := ?_
    reproposed := ?_
    proposed := invariant.proposed }
  · intro q b member
    rcases mem_remembered member with old | rfl
    · exact invariant.remembered q b old
    · exact (invariant.proposed _ msg proposed).1
  · intro q nilRound
    by_cases same : q = p
    · subst same
      simp only [Function.update_self, reduceCtorEq] at nilRound
    · simp only [Function.update_of_ne same] at nilRound ⊢
      exact invariant.reproposed q nilRound

theorem TimeInvariant.step (invariant : TimeInvariant k begins t) (step : TimedStep k t t')
    (earlier : ∀ r, begins' r ≤ begins r)
    (enters : ∀ p ∈ k.honestNodes, t.round p < t'.round p → begins' (t'.round p) ≤ t.localClock p) :
    TimeInvariant k begins' t' := by
  have kept := invariant.mono earlier
  cases step with
  | silent => exact kept
  | tick => exact kept.tick
  | enter p r _ forward =>
      refine kept.enter fun honest => ?_
      have entering := enters p honest
      simp only [Function.update_self] at entering
      exact entering forward
  | propose p b honest source =>
      obtain ⟨inTime, round⟩ := kept.source honest source
      exact kept.propose inTime round
  | withhold r b byzantine time round =>
      refine kept.propose ⟨fun q other => ?_, fun honest => ?_⟩ fun _ => round
      · have behind := invariant.realTime q other
        show b.timestamp ≤ t.localClock q + k.precision
        omega
      · rw [show k.proposer b.round = k.proposer r by rw [round]] at honest
        exact absurd byzantine (QuorumSystem.not_faulty honest)
  | receive p msg honest proposed fresh timely =>
      exact kept.receive honest proposed fresh timely
  | prevote p id cast => exact kept.prevote cast
  | remember p msg proposed => exact kept.remember proposed
  | decide p msg undecided proposed =>
      exact { kept with proposed := kept.proposed, remembered := kept.remembered }

end Invariant

section Runs

variable {k : ServerConstants Node} {start now : State Node}
  {past : List (Move (State Node) (Action Node))}

private theorem nextBeginRound_le (begins : ℕ → ℕ) (s s' : State Node) (r : ℕ) :
    nextBeginRound k begins s s' r ≤ begins r :=
  (Finset.fold_min_le _).mpr (.inl le_rfl)

private theorem nextBeginRound_entered (begins : ℕ → ℕ) {s s' : State Node} {p : Node}
    (honest : p ∈ k.honestNodes) (forward : s.round p < s'.round p) :
    nextBeginRound k begins s s' (s'.round p) ≤ s.localClock p :=
  (Finset.fold_min_le _).mpr
    (.inr ⟨p, Finset.mem_filter.mpr ⟨honest, forward, rfl⟩, le_rfl⟩)

theorem TimeInvariant.initial (initial : ServerInit k start) :
    TimeInvariant k (beginRound k start []) start.timed := by
  obtain ⟨clock, within, rfl⟩ := initial
  refine ⟨fun _ _ => Nat.zero_le _, fun p honest q other => ?_, fun p honest => ?_, nofun, nofun,
    fun _ _ => rfl, nofun, fun r m member b voted => ?_⟩
  · have low := (within q other).1
    have high := (within p honest).2
    show clock p ≤ clock q + k.precision
    omega
  · exact Finset.inf'_le _ honest
  · rw [(mem_faultyVotes member).2.2] at voted
    cases voted

private theorem run_timeInvariant (initial : ServerInit k start)
    (run : Run (ServerNext k) start past now) :
    TimeInvariant k (beginRound k start past) now.timed := by
  induction run with
  | initial => exact .initial initial
  | extend _ taken ih =>
      exact ih.step (timed_step taken) (nextBeginRound_le _ _ _)
        fun p honest forward => nextBeginRound_entered _ honest forward

private theorem run_endConsensus (initial : ServerInit k start)
    (run : Run (ServerNext k) start past now) {p : Node} (honest : p ∈ k.honestNodes)
    {d : Decision} (decided : d ∈ now.decision p) :
    ∃ clock, endConsensus p past = some clock ∧ d.prop.timestamp ≤ clock + k.precision := by
  induction run with
  | initial =>
      obtain ⟨clock, -, rfl⟩ := initial
      cases decided
  | @extend past s s' a before taken ih =>
      by_cases already : s.decision p = none
      · have some_now : s'.decision p ≠ none := by
          rw [decided]
          exact Option.some_ne_none d
        refine ⟨s.localClock p, if_pos ⟨already, some_now⟩, ?_⟩
        have step := core_step (honoursLock_value k s a) taken
        rcases step.decision_cases p with same | ⟨-, msg, proposed, -, grown⟩
        · exact absurd (same.trans already) some_now
        · have invariant := run_timeInvariant initial before
          have carried : s'.core.decision p = some ⟨msg.proposal, s.round p⟩ := by
            rw [grown]
            exact Function.update_self _ _ _
          obtain rfl := Option.some.inj (decided.symm.trans carried)
          exact (invariant.proposed _ msg proposed).1.1 p honest
      · have step := core_step (honoursLock_value k s a) taken
        have kept : s'.decision p = s.decision p := by
          rcases step.decision_cases p with same | ⟨undecided, -⟩
          · exact same
          · exact absurd undecided already
        obtain ⟨clock, ended, bounded⟩ := ih (kept ▸ decided)
        exact ⟨clock, (if_neg fun both => already both.1).trans ended, bounded⟩

/-- `ConsensusTimeValid` and `ConsensusSafeValidHonestNode` in every reachable state, for every
size: a decided timestamp lies between the begin of its round, less the precision and the delay,
and the decider's clock at its decision, plus the precision; and an honest proposer's is not
before the begin of its round. -/
theorem consensus_time (initial : ServerInit k start) (run : Run (ServerNext k) start past now) :
    ∀ p ∈ k.honestNodes, ∀ d ∈ now.decision p,
      (beginRound k start past d.prop.round ≤ d.prop.timestamp + k.precision + k.delay ∧
        ∃ clock, endConsensus p past = some clock ∧ d.prop.timestamp ≤ clock + k.precision) ∧
      (k.proposer d.prop.round ∈ k.honestNodes →
        beginRound k start past d.prop.round ≤ d.prop.timestamp) := by
  intro p honest d decided
  have time := run_timeInvariant initial run
  have whole : ServerRun k past now := ⟨start, initial, run⟩
  have core := whole.coreInvariant fun m _ => honoursLock_value k m.source m.input
  obtain ⟨-, ⟨msg, proposed, carried⟩, quorum⟩ := core.decided p d decided
  refine ⟨⟨?_, run_endConsensus initial run honest decided⟩, fun proposer => ?_⟩
  · have prevotes := core.lawful.prevoteQuorum_of_precommitQuorum (core.precommitQuorum quorum)
    obtain ⟨voters, isQuorum, voted⟩ := prevotes
    obtain ⟨q, member, -⟩ := isQuorum.exists_honest
    exact time.prevoted _ _ (voted q member) _ rfl
  · have inTime := (time.proposed _ msg proposed).1
    rw [carried] at inTime
    exact inTime.2 proposer

/-- Node `0` decides the proposal it made in round `0`. -/
theorem consensus_time_decided :
    ∃ start past now, ServerInit (checkedConstants oneByzantine fun _ => 0) start ∧
      Run (ServerNext (checkedConstants oneByzantine fun _ => 0)) start past now ∧
      now.decision 0 = some ⟨healthyProposal, 0⟩ ∧
      beginRound (checkedConstants oneByzantine fun _ => 0) start past 0 ≤
        healthyProposal.timestamp := by
  obtain ⟨past, now, ⟨start, initial, run⟩, passed⟩ := exists_serverRun decidingTrace
    (fun _ s => decide (s.decision 0 = some ⟨healthyProposal, 0⟩))
    (by decide +kernel : replayPasses
      (ServerNext (checkedConstants oneByzantine fun _ => 0)) _ decidingTrace _ = true)
  have decided := of_decide_eq_true passed
  exact ⟨start, past, now, initial, run, decided,
    (consensus_time initial run 0 (by decide) _ decided).2 (by decide)⟩

end Runs

end Engram.Spec.Server
