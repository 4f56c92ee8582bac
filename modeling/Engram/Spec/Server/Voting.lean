import Engram.Spec.Server.Actions

/-!
The voting core of `ServerSpec`: rounds, steps, locks, decisions, the proposal and vote
messages, and the FSM variable that decisions write. Every action of the server is one
of seven core steps, and the invariants of the protocol are proved over those.
-/

set_option autoImplicit false
set_option relaxedAutoImplicit false

namespace Engram.Spec.Server

open Engram.Types Engram.Library

variable {Node : Type} [DecidableEq Node]

theorem mem_update_insert {α : Type} [DecidableEq α] (f : ℕ → Finset α) (r r' : ℕ)
    (x y : α) : y ∈ Function.update f r (insert x (f r)) r' ↔ y ∈ f r' ∨ (r' = r ∧ y = x) := by
  by_cases same : r' = r
  · subst same
    simp [or_comm]
  · simp [same]

structure Core (Node : Type) where
  round : Node → ℕ
  step : Node → Phase
  decision : Node → Option Decision
  lockedValue : Node → Option Value
  lockedRound : Node → Option ℕ
  msgsPropose : ℕ → Finset (ProposalMsg Node)
  msgsPrevote : ℕ → Finset (Vote Node)
  msgsPrecommit : ℕ → Finset (Vote Node)
  fsm : FSMState

def State.core (s : State Node) : Core Node where
  round := s.round
  step := s.step
  decision := s.decision
  lockedValue := s.lockedValue
  lockedRound := s.lockedRound
  msgsPropose := s.msgsPropose
  msgsPrevote := s.msgsPrevote
  msgsPrecommit := s.msgsPrecommit
  fsm := s.env.state

namespace Core

variable (c : Core Node) (p : Node)

def addProposal (msg : ProposalMsg Node) : Core Node :=
  { c with
    msgsPropose := Function.update c.msgsPropose msg.round
      (insert msg (c.msgsPropose msg.round)) }

def addPrevote (id : Option Proposal) : Core Node :=
  { c with
    msgsPrevote := Function.update c.msgsPrevote (c.round p)
      (insert ⟨p, c.round p, id⟩ (c.msgsPrevote (c.round p)))
    step := Function.update c.step p .prevote }

def addPrecommit (id : Option Proposal) : Core Node :=
  { c with
    msgsPrecommit := Function.update c.msgsPrecommit (c.round p)
      (insert ⟨p, c.round p, id⟩ (c.msgsPrecommit (c.round p)))
    step := Function.update c.step p .precommit }

def addLock (prop : Proposal) : Core Node :=
  { c.addPrecommit p (some prop) with
    lockedValue := Function.update c.lockedValue p (some prop.value)
    lockedRound := Function.update c.lockedRound p (some (c.round p)) }

def enter (r : ℕ) : Core Node :=
  { c with
    round := Function.update c.round p r
    step := Function.update c.step p .propose }

def decide (prop : Proposal) : Core Node :=
  { c with
    decision := Function.update c.decision p (some ⟨prop, c.round p⟩)
    step := Function.update c.step p .decided
    fsm := prop.fsmState }

variable (k : ServerConstants Node)

def QuorumFor (votes : ℕ → Finset (Vote Node)) (r : ℕ) (b : Proposal) : Prop :=
  k.threshold2 ≤ (votesFor (votes r) (some b)).card

/-- Every proposal of the locked round with the ballot's value has the ballot's key. -/
def SameKeyAsLock {κ : Type} (key : Proposal → κ) (b : Proposal) : Prop :=
  ∀ ρ ∈ c.lockedRound p, ∀ m ∈ c.msgsPropose ρ, m.proposal.value = b.value →
    key m.proposal = key b

/-- The lock rule under which a node prevotes for a ballot. -/
def PrevoteAllowed {κ : Type} (key : Proposal → κ) (b : Proposal) : Prop :=
  c.lockedRound p = none ∨
  (c.lockedValue p = some b.value ∧ c.SameKeyAsLock p key b) ∨
  ∃ vr, vr < c.round p ∧ (∀ ρ ∈ c.lockedRound p, ρ ≤ vr) ∧ QuorumFor k c.msgsPrevote vr b

end Core

/-- The steps of the voting core, for the proposals a validity check accepts. -/
inductive CoreStep {κ : Type} (k : ServerConstants Node) (key : Proposal → κ)
    (accepts : Proposal → Prop) (c : Core Node) : Core Node → Prop
  | idle : CoreStep k key accepts c c
  | propose (msg : ProposalMsg Node) (known : msg.src ∈ k.system.nodes)
      (leader : msg.src = k.proposer msg.round)
      (fresh : ∀ m ∈ c.msgsPropose msg.round, m.src ≠ msg.src)
      (current : msg.src ∈ k.honestNodes → msg.round = c.round msg.src) :
      CoreStep k key accepts c (c.addProposal msg)
  | prevote (p : Node) (id : Option Proposal) (honest : p ∈ k.honestNodes)
      (atPropose : c.step p = .propose) (valid : ∀ b ∈ id, accepts b)
      (allowed : ∀ b ∈ id, c.PrevoteAllowed p k key b) :
      CoreStep k key accepts c (c.addPrevote p id)
  | precommitNil (p : Node) (honest : p ∈ k.honestNodes) (atPrevote : c.step p = .prevote) :
      CoreStep k key accepts c (c.addPrecommit p none)
  | lock (p : Node) (msg : ProposalMsg Node) (honest : p ∈ k.honestNodes)
      (atPrevote : c.step p = .prevote) (proposed : msg ∈ c.msgsPropose (c.round p))
      (quorum : Core.QuorumFor k c.msgsPrevote (c.round p) msg.proposal) :
      CoreStep k key accepts c (c.addLock p msg.proposal)
  | enter (p : Node) (r : ℕ) (forward : c.round p < r) (undecided : c.step p ≠ .decided) :
      CoreStep k key accepts c (c.enter p r)
  | decide (p : Node) (msg : ProposalMsg Node) (honest : p ∈ k.honestNodes)
      (undecided : c.decision p = none)
      (proposed : msg ∈ c.msgsPropose (c.round p))
      (quorum : Core.QuorumFor k c.msgsPrecommit (c.round p) msg.proposal) :
      CoreStep k key accepts c (c.decide p msg.proposal)

section Inversion

variable {k : ServerConstants Node} {s next : State Node} {p : Node}

theorem startRound_some {r : ℕ} (taken : StartRound k s p r = some next) :
    s.step p ≠ .decided ∧ r ≤ k.maxRound ∧
      next = { enterRound k s p r with txIgnoredRounds := UpdateIgnoredRounds k s p } := by
  unfold StartRound at taken
  split at taken
  · rename_i guard
    exact ⟨guard.2, guard.1, (Option.some.inj taken).symm⟩
  · cases taken

/-- The lock rule of the handler that casts a prevote. -/
def ProposeHandler.LockRule (s : State Node) (p : Node) (msg : ProposalMsg Node) :
    ProposeHandler → Prop
  | .uponProposalInPropose =>
      s.lockedRound p = none ∨ s.lockedValue p = some msg.proposal.value
  | .uponProposalInProposeAndPrevote => ∃ vr ∈ msg.validRound,
      lockedAtMost s p vr ∨ s.lockedValue p = some msg.proposal.value

/-- A propose handler casts one prevote, or reports censorship and starts the next
round. -/
theorem handler_cases {handler : ProposeHandler} {msg : ProposalMsg Node}
    (taken : handler.run k s p msg = some next) :
    s.step p = .propose ∧
    ((∃ id, next = setStep (BroadcastPrevote s p (s.round p) id) p .prevote ∧
        (∀ vr ∈ msg.validRound, vr < s.round p ∧
          Core.QuorumFor k s.msgsPrevote vr msg.proposal) ∧
        ∀ b ∈ id, b = msg.proposal ∧ IsValidProposal k s.env b ∧ handler.LockRule s p msg ∧
          (handler = .uponProposalInPropose → ¬ IsCensoring k s p b)) ∨
      (handler = .uponProposalInPropose ∧ IsCensoring k s p msg.proposal ∧
        msg ∈ s.receivedTimelyProposal p ∧ msg.round = s.round p ∧
        StartRound k (BroadcastTimeout s p (s.round p + 1)) p (s.round p + 1) = some next)) := by
  cases handler with
  | uponProposalInPropose =>
      simp only [ProposeHandler.run, UponProposalInPropose] at taken
      split at taken
      · rename_i guard
        obtain ⟨received, sameRound, -, nilRound, atPropose⟩ := guard
        refine ⟨atPropose, ?_⟩
        split at taken
        · rename_i censoring
          split at taken
          · exact .inr ⟨rfl, censoring, received, sameRound, taken⟩
          · cases taken
        · rename_i notCensoring
          refine .inl ⟨_, (Option.some.inj taken).symm, ?_, ?_⟩
          · intro vr member
            rw [nilRound] at member
            cases member
          · intro b cast
            split at cast
            · rename_i valid
              obtain rfl := Option.some.inj cast
              exact ⟨rfl, valid.1, valid.2, fun _ => notCensoring⟩
            · cases cast
      · cases taken
  | uponProposalInProposeAndPrevote =>
      simp only [ProposeHandler.run, UponProposalInProposeAndPrevote] at taken
      split at taken
      · cases taken
      · rename_i vr reproposed
        split at taken
        · rename_i guard
          obtain ⟨-, -, earlier, atPropose, quorum⟩ := guard
          refine ⟨atPropose, .inl ⟨_, (Option.some.inj taken).symm, ?_, ?_⟩⟩
          · intro vr' member
            rw [reproposed] at member
            obtain rfl := Option.some.inj member
            exact ⟨earlier, quorum⟩
          · intro b cast
            split at cast
            · rename_i valid
              obtain rfl := Option.some.inj cast
              refine ⟨rfl, valid.1, ⟨vr, reproposed, valid.2⟩, ?_⟩
              intro other
              cases other
            · cases cast
        · cases taken

/-- On a prevote quorum a node in its prevote step locks, and one that has precommitted
remembers the proposal. -/
theorem uponPrevoteQuorum_some {msg : ProposalMsg Node}
    (taken : UponProposalInPrevoteOrCommitAndPrevote k s p msg = some next) :
    msg ∈ s.msgsPropose (s.round p) ∧
    Core.QuorumFor k s.msgsPrevote (s.round p) msg.proposal ∧
    ((s.step p = .prevote ∧ next =
        { setStep (BroadcastPrecommit s p (s.round p) (some msg.proposal)) p .precommit with
          lockedValue := Function.update s.lockedValue p (some msg.proposal.value)
          lockedRound := Function.update s.lockedRound p (some (s.round p)) }) ∨
      (s.step p ≠ .prevote ∧ next =
        { s with
          validValue := Function.update s.validValue p (some msg.proposal)
          validRound := Function.update s.validRound p (some (s.round p)) })) := by
  obtain ⟨guard, outcome⟩ := Option.ite_none_right_eq_some.mp taken
  refine ⟨guard.1, guard.2.2.2, ?_⟩
  split at outcome
  · rename_i atPrevote
    exact .inl ⟨atPrevote, (Option.some.inj outcome).symm⟩
  · rename_i precommitted
    exact .inr ⟨precommitted, (Option.some.inj outcome).symm⟩

theorem uponPrecommitQuorum_some
    (taken : ServerMessageProcessing k s p .uponQuorumOfPrecommitsAny = some next) :
    StartRound k s p (s.round p + 1) = some next := by
  obtain ⟨-, waited⟩ := Option.ite_none_left_eq_some.mp taken
  exact (Option.ite_none_right_eq_some.mp waited).2

theorem advanceRealTime_some (taken : ServerNext k s .advanceRealTime = some next) :
    (¬ ∃ qc ∈ s.quorumCerts, qc.round = currentMaxRound k s) ∧
      next = { s with
        realTime := s.realTime + 1
        localClock := fun q => s.localClock q + 1
        localRemTime := fun q =>
          if s.localRemTime q > 0 ∧ ¬ ∃ m ∈ s.receivedTimelyProposal q, m.round = s.round q then
            s.localRemTime q - 1
          else s.localRemTime q } := by
  obtain ⟨unblocked, ticks⟩ := Option.ite_none_left_eq_some.mp taken
  exact ⟨unblocked, (guarded_eq_some ticks).2⟩

theorem serverInsertProposal_some {v : Value} {proofFound : Bool}
    (taken : ServerInsertProposal k s p v proofFound = some next) :
    ¬ GlobalDecisionExists k s ∧ p = k.proposer (s.round p) ∧ s.step p = .propose ∧
    (∀ m ∈ s.msgsPropose (s.round p), m.src ≠ p) ∧
    IsValidProposal k s.env (leaderProposal k s p v proofFound) ∧
    next = { BroadcastProposal s p (s.round p) (leaderProposal k s p v proofFound)
      (s.validRound p) with quorumCerts := insert (eQC s (s.round p) p) s.quorumCerts } := by
  unfold ServerInsertProposal InsertProposal at taken
  split at taken
  · rename_i open'
    split at taken
    · rename_i guard
      exact ⟨open'.1, guard.1, guard.2.1, guard.2.2.1, guard.2.2.2, (Option.some.inj taken).symm⟩
    · cases taken
  · cases taken

/-- Hook 2 is the handler's step, with an `M_QC` when the leader votes on its own
proposal. -/
theorem serverProposerVotes_some {handler : ProposeHandler} {msg own : ProposalMsg Node}
    (taken : ServerProposerVotes k s p handler msg own = some next) :
    ∃ handled, handler.run k s p msg = some handled ∧
      ((p = k.proposer (s.round p) ∧ own ∈ s.msgsPropose (s.round p) ∧ own.src = p ∧
          next = { handled with
            quorumCerts := insert (mQC s (s.round p) p own.proposal.value) s.quorumCerts }) ∨
        (¬ (p = k.proposer (s.round p) ∧ ∃ m ∈ s.msgsPropose (s.round p), m.src = p) ∧
          next = handled)) := by
  unfold ServerProposerVotes at taken
  split at taken
  · rename_i leads
    split at taken
    · rename_i chosen
      obtain ⟨handled, ran, rfl⟩ := Option.map_eq_some_iff.mp taken
      exact ⟨handled, ran, .inl ⟨leads.1, chosen.1, chosen.2, rfl⟩⟩
    · cases taken
  · rename_i follows
    exact ⟨next, taken, .inr ⟨follows, rfl⟩⟩

theorem serverDecision_some {msg : ProposalMsg Node}
    (taken : ServerUponProposalInPrecommitNoDecision k s p msg = some next) :
    msg ∈ s.msgsPropose (s.round p) ∧ s.decision p = none ∧
    Core.QuorumFor k s.msgsPrecommit (s.round p) msg.proposal ∧
    next = { setStep s p .decided with
      decision := Function.update s.decision p (some ⟨msg.proposal, s.round p⟩)
      env := syncDecision k s.env msg.proposal } := by
  unfold ServerUponProposalInPrecommitNoDecision UponProposalInPrecommitNoDecision at taken
  split at taken
  · rename_i guard
    exact ⟨guard.1, guard.2.2.1, guard.2.2.2.2, (Option.some.inj taken).symm⟩
  · cases taken

theorem serverDataWithholding_some {r : ℕ} {tx : Value}
    (taken : ServerByzantineDataWithholding k s r tx = some next) :
    k.proposer r ∈ k.byzantineNodes ∧ s.msgsPropose r = ∅ ∧
    (∃ q ∈ s.quorumCerts, q.type = .eQC ∧ q.round = r ∧ q.caller = k.proposer r) ∧
    (∀ q ∈ k.honestNodes, s.round q ≤ r) ∧ tx ∈ s.forcedTxQueue ∧
    next = { BroadcastProposal s (k.proposer r) r (withheldProposal k s r tx) none with
      quorumCerts := insert (mQC s r (k.proposer r) tx) s.quorumCerts } := by
  unfold ServerByzantineDataWithholding ByzantineDataWithholding at taken
  split at taken
  · rename_i pulled
    split at taken
    · rename_i guard
      exact ⟨guard.2.1, guard.2.2.1, pulled.1, pulled.2, guard.2.2.2,
        (Option.some.inj taken).symm⟩
    · cases taken
  · cases taken

end Inversion

section Classification

variable {κ : Type} {k : ServerConstants Node} {key : Proposal → κ} {s next : State Node} {p : Node}

/-- The propose handler and the message a node evaluates, when it evaluates one. -/
def MessageAction.evaluates : MessageAction Node → Option (ProposeHandler × ProposalMsg Node)
  | .uponProposalInPropose msg => some (.uponProposalInPropose, msg)
  | .uponProposalInProposeAndPrevote msg => some (.uponProposalInProposeAndPrevote, msg)
  | .serverProposerVotes handler msg _ => some (handler, msg)
  | _ => none

/-- A node that evaluates a proposal prevotes, unless its first look at it finds censorship. -/
def Prevotes (k : ServerConstants Node) (s : State Node) (p : Node) (handler : ProposeHandler)
    (msg : ProposalMsg Node) : Prop :=
  handler = .uponProposalInPropose → ¬ IsCensoring k s p msg.proposal

/-- A valid proposal that is prevoted because of the locked value alone has the key of the
lock. -/
def VoteHonoursLock (k : ServerConstants Node) (key : Proposal → κ) (s : State Node) (p : Node)
    (handler : ProposeHandler) (msg : ProposalMsg Node) : Prop :=
  Prevotes k s p handler msg → IsValidProposal k s.env msg.proposal →
    s.lockedValue p = some msg.proposal.value →
    (∀ vr ∈ msg.validRound, ¬ lockedAtMost s p vr) → s.core.SameKeyAsLock p key msg.proposal

def HonoursLock (k : ServerConstants Node) (key : Proposal → κ) (s : State Node) :
    Action Node → Prop
  | .messageProcessing p m => ∀ e ∈ m.evaluates, VoteHonoursLock k key s p e.1 e.2
  | _ => True

instance (handler : ProposeHandler) (msg : ProposalMsg Node) :
    Decidable (Prevotes k s p handler msg) :=
  inferInstanceAs (Decidable (_ → _))
instance [DecidableEq κ] (c : Core Node) (b : Proposal) : Decidable (c.SameKeyAsLock p key b) :=
  inferInstanceAs (Decidable (∀ ρ ∈ c.lockedRound p, ∀ m ∈ c.msgsPropose ρ, _))
instance [DecidableEq κ] (handler : ProposeHandler) (msg : ProposalMsg Node) :
    Decidable (VoteHonoursLock k key s p handler msg) :=
  inferInstanceAs (Decidable (_ → _ → _ → _ → _))
instance [DecidableEq κ] (a : Action Node) : Decidable (HonoursLock k key s a) :=
  match a with
  | .messageProcessing p m =>
      inferInstanceAs (Decidable (∀ e ∈ m.evaluates, VoteHonoursLock k key s p e.1 e.2))
  | .advanceRealTime => .isTrue trivial
  | .updateEnvironment _ => .isTrue trivial
  | .byzantinePull _ => .isTrue trivial
  | .byzantineDataWithholding _ _ => .isTrue trivial
  | .honestTimeout _ _ => .isTrue trivial
  | .honestRoundSkip _ => .isTrue trivial

theorem honoursLock_value (k : ServerConstants Node) (s : State Node) (a : Action Node) :
    HonoursLock k Proposal.value s a := by
  cases a with
  | messageProcessing p m =>
      intro e _ _ _ _ _ ρ _ m' _ same
      exact same
  | _ => trivial

private theorem startRound_core {accepts : Proposal → Prop} {r : ℕ} (forward : s.round p < r)
    (taken : StartRound k s p r = some next) : CoreStep k key accepts s.core next.core := by
  obtain ⟨undecided, -, rfl⟩ := startRound_some taken
  exact .enter p r forward undecided

private theorem handler_core (handler : ProposeHandler) {msg : ProposalMsg Node}
    (honest : p ∈ k.honestNodes) (honours : VoteHonoursLock k key s p handler msg)
    (taken : handler.run k s p msg = some next) :
    CoreStep k key (IsValidProposal k s.env) s.core next.core := by
  obtain ⟨atPropose, prevoted | censored⟩ := handler_cases taken
  · obtain ⟨id, rfl, quorum, cast⟩ := prevoted
    refine .prevote p id honest atPropose (fun b voted => (cast b voted).2.1) ?_
    intro b voted
    obtain ⟨rfl, valid, rule, clear⟩ := cast b voted
    by_cases unlocked : ∃ vr ∈ msg.validRound, lockedAtMost s p vr
    · obtain ⟨vr, reproposed, below⟩ := unlocked
      obtain ⟨earlier, voters⟩ := quorum vr reproposed
      exact .inr (.inr ⟨vr, earlier, below, voters⟩)
    · push Not at unlocked
      have byValue : s.lockedRound p = none ∨ s.lockedValue p = some msg.proposal.value := by
        cases handler with
        | uponProposalInPropose => exact rule
        | uponProposalInProposeAndPrevote =>
            obtain ⟨vr, reproposed, below | sameValue⟩ := rule
            · exact absurd below (unlocked vr reproposed)
            · exact .inr sameValue
      rcases byValue with nilRound | sameValue
      · exact .inl nilRound
      · exact .inr (.inl ⟨sameValue, honours clear valid sameValue unlocked⟩)
  · obtain ⟨-, -, -, -, started⟩ := censored
    have entered : CoreStep k key (IsValidProposal k s.env)
        (BroadcastTimeout s p (s.round p + 1)).core next.core :=
      startRound_core (Nat.lt_succ_self _) started
    exact entered

private theorem messageProcessing_core {m : MessageAction Node} (honest : p ∈ k.honestNodes)
    (honours : HonoursLock k key s (.messageProcessing p m))
    (taken : ServerMessageProcessing k s p m = some next) :
    CoreStep k key (IsValidProposal k s.env) s.core next.core := by
  cases m with
  | receiveProposal msg =>
      obtain ⟨-, rfl⟩ := guarded_eq_some taken
      exact .idle
  | uponProposalInPropose msg =>
      exact handler_core .uponProposalInPropose honest (honours _ rfl) taken
  | uponProposalInProposeAndPrevote msg =>
      exact handler_core .uponProposalInProposeAndPrevote honest (honours _ rfl) taken
  | uponQuorumOfPrevotesAny =>
      obtain ⟨guard, rfl⟩ := guarded_eq_some taken
      exact .precommitNil p honest guard.1
  | uponProposalInPrevoteOrCommitAndPrevote msg =>
      obtain ⟨proposed, quorum, ⟨atPrevote, rfl⟩ | ⟨-, rfl⟩⟩ := uponPrevoteQuorum_some taken
      · exact .lock p msg honest atPrevote proposed quorum
      · exact .idle
  | uponQuorumOfPrecommitsAny =>
      exact startRound_core (Nat.lt_succ_self _) (uponPrecommitQuorum_some taken)
  | onTimeoutPropose =>
      obtain ⟨guard, rfl⟩ := guarded_eq_some taken
      refine .prevote p none honest guard.1 ?_ ?_
      · intro b cast
        cases cast
      · intro b cast
        cases cast
  | onQuorumOfNilPrevotes =>
      obtain ⟨guard, rfl⟩ := guarded_eq_some taken
      exact .precommitNil p honest guard.1
  | onRoundCatchup r =>
      obtain ⟨guard, started⟩ := Option.ite_none_right_eq_some.mp taken
      exact startRound_core guard.2.1 started
  | uponfPlusOneTimeoutsAny r =>
      obtain ⟨guard, started⟩ := Option.ite_none_right_eq_some.mp taken
      exact startRound_core guard.2.1 started
  | onLocalTimerExpire =>
      obtain ⟨-, rfl⟩ := guarded_eq_some taken
      exact .idle
  | serverInsertProposal v proofFound =>
      obtain ⟨-, leader, -, fresh, -, rfl⟩ := serverInsertProposal_some taken
      exact .propose ⟨p, s.round p, _, s.validRound p⟩ (Finset.mem_union_left _ honest) leader
        fresh (fun _ => rfl)
  | serverProposerVotes handler msg own =>
      obtain ⟨handled, ran, certified⟩ := serverProposerVotes_some taken
      have voted := handler_core handler honest (honours _ rfl) ran
      rcases certified with ⟨-, -, -, rfl⟩ | ⟨-, rfl⟩
      · exact voted
      · exact voted
  | serverUponProposalInPrecommitNoDecision msg =>
      obtain ⟨proposed, undecided, quorum, rfl⟩ := serverDecision_some taken
      exact .decide p msg honest undecided proposed quorum
  | serverUponTimeoutCert =>
      obtain ⟨-, rfl⟩ := guarded_eq_some taken
      exact .idle

theorem updateSensors_state (k : ServerConstants Node) (e : Environment) (u : SensorUpdate) :
    (UpdateSensors k e u).state = e.state := by
  obtain ⟨btc, da, p2p⟩ := u
  cases da <;> cases p2p <;> rfl

theorem core_step {a : Action Node} (honours : HonoursLock k key s a)
    (taken : ServerNext k s a = some next) :
    CoreStep k key (IsValidProposal k s.env) s.core next.core := by
  cases a with
  | advanceRealTime =>
      obtain ⟨-, rfl⟩ := advanceRealTime_some taken
      exact .idle
  | updateEnvironment u =>
      obtain rfl := Option.some.inj taken
      have same : State.core { s with env := UpdateSensors k s.env u } = s.core := by
        simp only [State.core, updateSensors_state]
      rw [same]
      exact .idle
  | messageProcessing p m =>
      obtain ⟨guard, processed⟩ := Option.ite_none_right_eq_some.mp taken
      exact messageProcessing_core guard.2 honours processed
  | byzantinePull r =>
      obtain ⟨-, rfl⟩ := guarded_eq_some taken
      exact .idle
  | byzantineDataWithholding r tx =>
      obtain ⟨byzantine, empty, -, -, -, rfl⟩ := serverDataWithholding_some taken
      refine .propose ⟨k.proposer r, r, _, none⟩ (Finset.mem_union_right _ byzantine) rfl ?_ ?_
      · intro m member
        have present : m ∈ s.msgsPropose r := member
        rw [empty] at present
        cases present
      · intro honest
        exact absurd byzantine (QuorumSystem.not_faulty honest)
  | honestTimeout r caller =>
      obtain ⟨-, rfl⟩ := guarded_eq_some taken
      exact .idle
  | honestRoundSkip p =>
      obtain ⟨guard, rfl⟩ := guarded_eq_some taken
      exact .enter p _ (Nat.lt_succ_self _) guard.2.2.1

end Classification

end Engram.Spec.Server
