import Engram.Spec.Server.RefinementMapping

/-!
The pacemaker of `ServerSpec`: the certificates, timers and round entries that the
refinement mapping reads. A step conforms when its certificates are for the maximal
round, no precommit quorum forms, and the maximal round is left only on an expired
timer or a timeout certificate.
-/

set_option autoImplicit false
set_option relaxedAutoImplicit false

namespace Engram.Spec.Server

open Engram.Types Engram.Library

variable {Node : Type} [DecidableEq Node]

section Conformance

variable (k : RefinementConstants Node) (s : State Node)

def maxRoundOf : ℕ := currentMaxRound k.toServerConstants s

def TimerRanOut : Prop :=
  ∃ q ∈ k.honestNodes, s.round q = maxRoundOf k s ∧ s.localRemTime q = 0

def MayLeave : Prop := TimerRanOut k s ∨ ∃ tqc ∈ s.timeoutCerts, tqc.round = maxRoundOf k s

def Leads (p : Node) : Prop :=
  p = k.proposer (s.round p) ∧ ∃ m ∈ s.msgsPropose (s.round p), m.src = p

/-- Evaluating the message reports censorship, which starts the next round. -/
def Censors (p : Node) (handler : ProposeHandler) (msg : ProposalMsg Node) : Prop :=
  handler = .uponProposalInPropose ∧ IsCensoring k.toServerConstants s p msg.proposal

def MessageConforms (p : Node) : MessageAction Node → Prop
  | .uponProposalInPropose msg => Censors k s p .uponProposalInPropose msg →
      s.round p = maxRoundOf k s → MayLeave k s
  | .uponProposalInPrevoteOrCommitAndPrevote msg => s.step p = .prevote →
      (votesFor (s.msgsPrecommit (s.round p)) (some msg.proposal)).card + 1 < k.threshold2
  | .uponQuorumOfPrecommitsAny => s.round p = maxRoundOf k s → MayLeave k s
  | .serverInsertProposal _ _ => s.round p = maxRoundOf k s
  | .serverProposerVotes handler msg own =>
      (Leads k s p → s.round p = maxRoundOf k s ∧ own.proposal.value ∈ k.method ∧
        ¬ Censors k s p handler msg) ∧
      (¬ Leads k s p → Censors k s p handler msg → s.round p = maxRoundOf k s → MayLeave k s)
  | .serverUponTimeoutCert => s.round p = maxRoundOf k s
  | _ => True

/-- The condition under which a step maps to the abstract consensus. -/
def Conforms : Action Node → Prop
  | .messageProcessing p m => MessageConforms k s p m
  | .byzantinePull r => r = maxRoundOf k s
  | .byzantineDataWithholding _ tx => tx ∈ k.method
  | .honestTimeout r _ => r = maxRoundOf k s
  | _ => True

instance : Decidable (TimerRanOut k s) := inferInstanceAs (Decidable (∃ q ∈ k.honestNodes, _))
instance : Decidable (MayLeave k s) :=
  inferInstanceAs (Decidable (_ ∨ ∃ tqc ∈ s.timeoutCerts, _))
instance (p : Node) : Decidable (Leads k s p) :=
  inferInstanceAs (Decidable (_ ∧ ∃ m ∈ s.msgsPropose (s.round p), _))
instance (p : Node) (handler : ProposeHandler) (msg : ProposalMsg Node) :
    Decidable (Censors k s p handler msg) := inferInstanceAs (Decidable (_ ∧ _))
instance (p : Node) (m : MessageAction Node) : Decidable (MessageConforms k s p m) :=
  match m with
  | .uponProposalInPropose _ => inferInstanceAs (Decidable (_ → _ → _))
  | .uponProposalInPrevoteOrCommitAndPrevote _ => inferInstanceAs (Decidable (_ → _ < _))
  | .uponQuorumOfPrecommitsAny => inferInstanceAs (Decidable (_ → _))
  | .serverInsertProposal _ _ => inferInstanceAs (Decidable (_ = _))
  | .serverProposerVotes _ _ _ =>
      inferInstanceAs (Decidable ((_ → _ ∧ _ ∧ ¬ _) ∧ (¬ _ → _ → _ → _)))
  | .serverUponTimeoutCert => inferInstanceAs (Decidable (_ = _))
  | .receiveProposal _ | .uponProposalInProposeAndPrevote _ | .uponQuorumOfPrevotesAny
  | .onTimeoutPropose | .onQuorumOfNilPrevotes | .onRoundCatchup _
  | .uponfPlusOneTimeoutsAny _ | .onLocalTimerExpire
  | .serverUponProposalInPrecommitNoDecision _ => .isTrue trivial
instance (a : Action Node) : Decidable (Conforms k s a) :=
  match a with
  | .messageProcessing p m => inferInstanceAs (Decidable (MessageConforms k s p m))
  | .byzantinePull _ => inferInstanceAs (Decidable (_ = _))
  | .byzantineDataWithholding _ _ => inferInstanceAs (Decidable (_ ∈ k.method))
  | .honestTimeout _ _ => inferInstanceAs (Decidable (_ = _))
  | .advanceRealTime | .updateEnvironment _ | .honestRoundSkip _ => .isTrue trivial

end Conformance

structure PacemakerInvariant (k : RefinementConstants Node) (s : State Node) : Prop where
  core : CoreInvariant k.toServerConstants Proposal.value s.core
  timer_le : ∀ p ∈ k.honestNodes, s.localRemTime p ≤ k.timeoutDuration
  round_le : ∀ p ∈ k.honestNodes, s.round p ≤ k.maxRound
  received : ∀ p, ∀ m ∈ s.receivedTimelyProposal p, m ∈ s.msgsPropose m.round
  timeout_sender : ∀ r, ∀ t ∈ s.msgsTimeout r, t.src ∈ k.system.nodes ∧
    (t.src ∈ k.honestNodes →
      r ≤ s.round t.src ∨ (r = s.round t.src + 1 ∧ s.localRemTime t.src = 0))
  proposed_cert : ∀ r, ∀ m ∈ s.msgsPropose r,
    ∃ q ∈ s.quorumCerts, q.type = .eQC ∧ q.round = r ∧ q.caller = k.proposer r
  eQC_leader : ∀ q ∈ s.quorumCerts, q.type = .eQC → q.caller = k.proposer q.round ∧
    q.round ≤ maxRoundOf k s ∧ (q.caller ∈ k.honestNodes → ∃ m, m ∈ s.msgsPropose q.round)
  mQC_voted : ∀ q ∈ s.quorumCerts, q.type = .mQC → (∃ m, m ∈ s.msgsPropose q.round) ∧
    (q.caller ∈ k.honestNodes → 4 * q.round + 1 ≤ s.core.stage q.caller)
  no_commit : ∀ r b, ¬ Core.QuorumFor k.toServerConstants s.msgsPrecommit r b
  anchored_le : s.env.hBtcAnchored ≤ s.env.hBtcSubmitted
  submitted_le : s.env.hBtcSubmitted ≤ s.env.hBtcCurrent

/-- The variables the pacemaker reads besides the votes. -/
structure Shell (Node : Type) where
  round : Node → ℕ
  localRemTime : Node → ℕ
  msgsPropose : ℕ → Finset (ProposalMsg Node)
  msgsTimeout : ℕ → Finset (TimeoutMsg Node)
  quorumCerts : Finset (QuorumCert Node)
  timeoutCerts : Finset (TimeoutCert Node)
  env : Environment

def State.shell (s : State Node) : Shell Node where
  round := s.round
  localRemTime := s.localRemTime
  msgsPropose := s.msgsPropose
  msgsTimeout := s.msgsTimeout
  quorumCerts := s.quorumCerts
  timeoutCerts := s.timeoutCerts
  env := s.env

section Effects

variable (k : RefinementConstants Node) (s : State Node)

def tickedTimers : Node → ℕ := fun q =>
  if s.localRemTime q > 0 ∧ ¬ ∃ m ∈ s.receivedTimelyProposal q, m.round = s.round q then
    s.localRemTime q - 1
  else s.localRemTime q

def ReceivedFrom (s' : State Node) : Prop :=
  ∀ q, ∀ m ∈ s'.receivedTimelyProposal q,
    m ∈ s.receivedTimelyProposal q ∨ m ∈ s.msgsPropose m.round

def CommitsKept (s' : State Node) : Prop :=
  ∀ r b, votesFor (s'.msgsPrecommit r) (some b) = votesFor (s.msgsPrecommit r) (some b)

inductive Effect (s' : State Node) : Prop
  | quiet (same : s'.shell = s.shell) (buffered : ReceivedFrom s s') (kept : CommitsKept s s')
  | lock (p : Node) (b : Proposal) (same : s'.shell = s.shell) (buffered : ReceivedFrom s s')
      (few : (votesFor (s.msgsPrecommit (s.round p)) (some b)).card + 1 < k.threshold2)
      (cast : s'.msgsPrecommit = Function.update s.msgsPrecommit (s.round p)
        (insert ⟨p, s.round p, some b⟩ (s.msgsPrecommit (s.round p))))
  | tick (unblocked : ∀ qc ∈ s.quorumCerts, qc.round ≠ maxRoundOf k s)
      (ticked : s'.shell = { s.shell with localRemTime := tickedTimers s })
      (buffered : ReceivedFrom s s') (kept : CommitsKept s s')
  | environment (u : SensorUpdate)
      (updated : s'.shell = { s.shell with env := UpdateSensors k.toServerConstants s.env u })
      (buffered : ReceivedFrom s s') (kept : CommitsKept s s')
  | enter (p : Node) (r : ℕ) (honest : p ∈ k.honestNodes) (forward : s.round p < r)
      (bound : r ≤ k.maxRound)
      (reach : r ≤ maxRoundOf k s ∨ (r = maxRoundOf k s + 1 ∧ MayLeave k s))
      (timeouts : ∀ r', ∀ t ∈ s'.msgsTimeout r', t ∈ s.msgsTimeout r' ∨ (r' = r ∧ t.src = p))
      (entered : s'.shell = { s.shell with
        round := Function.update s.round p r
        localRemTime := Function.update s.localRemTime p k.timeoutDuration
        msgsTimeout := s'.msgsTimeout })
      (buffered : ReceivedFrom s s') (kept : CommitsKept s s')
  | timer (p : Node) (honest : p ∈ k.honestNodes) (expired : s.localRemTime p = 0)
      (sent : s'.shell = { s.shell with
        msgsTimeout := Function.update s.msgsTimeout (s.round p + 1)
          (insert ⟨p, s.round p + 1⟩ (s.msgsTimeout (s.round p + 1))) })
      (buffered : ReceivedFrom s s') (kept : CommitsKept s s')
  | pull (caller : Node) (known : caller ∈ k.system.nodes)
      (leader : caller = k.proposer (maxRoundOf k s))
      (fresh : ∀ qc ∈ s.quorumCerts, qc.type = .eQC → qc.round ≠ maxRoundOf k s)
      (proposals : ∀ r m, m ∈ s'.msgsPropose r → m ∈ s.msgsPropose r ∨ r = maxRoundOf k s)
      (grows : ∀ r m, m ∈ s.msgsPropose r → m ∈ s'.msgsPropose r)
      (proposed : caller ∈ k.honestNodes → ∃ m, m ∈ s'.msgsPropose (maxRoundOf k s))
      (certified : s'.shell = { s.shell with
        msgsPropose := s'.msgsPropose
        quorumCerts := insert (eQC s (maxRoundOf k s) caller) s.quorumCerts })
      (buffered : ReceivedFrom s s') (kept : CommitsKept s s')
  | invoke (caller : Node) (value : Value) (known : caller ∈ k.system.nodes)
      (method : value ∈ k.method)
      (elected : ∃ qc ∈ s.quorumCerts, qc.type = .eQC ∧ qc.caller = caller ∧
        qc.round = maxRoundOf k s ∧ caller = k.proposer (maxRoundOf k s))
      (proposals : ∀ r m, m ∈ s'.msgsPropose r → m ∈ s.msgsPropose r ∨ r = maxRoundOf k s)
      (grows : ∀ r m, m ∈ s.msgsPropose r → m ∈ s'.msgsPropose r)
      (proposed : ∃ m, m ∈ s'.msgsPropose (maxRoundOf k s))
      (voted : caller ∈ k.honestNodes → 4 * maxRoundOf k s + 1 ≤ s'.core.stage caller)
      (certified : s'.shell = { s.shell with
        msgsPropose := s'.msgsPropose
        quorumCerts := insert (mQC s (maxRoundOf k s) caller value) s.quorumCerts })
      (buffered : ReceivedFrom s s') (kept : CommitsKept s s')
  | certify (caller : Node) (known : caller ∈ k.system.nodes)
      (fresh : ∀ tqc ∈ s.timeoutCerts, tqc.round ≠ maxRoundOf k s)
      (certified : s'.shell = { s.shell with
        timeoutCerts := insert (tQC s (maxRoundOf k s) caller) s.timeoutCerts })
      (buffered : ReceivedFrom s s') (kept : CommitsKept s s')

end Effects

section Reach

variable {k : RefinementConstants Node} {s : State Node}

theorem round_le_max {p : Node} (honest : p ∈ k.honestNodes) : s.round p ≤ maxRoundOf k s :=
  round_le_currentMaxRound honest

private theorem PacemakerInvariant.catchup_reach (invariant : PacemakerInvariant k s) {r : ℕ}
    (faster : (fasterNodes s r).card ≥ k.threshold1) : r ≤ maxRoundOf k s := by
  have formed := invariant.core.formed
  have timeline := invariant.core.timeline
  have sender : ∀ x ∈ fasterNodes s r, x ∈ k.system.nodes ∧
      (x ∈ k.honestNodes → 4 * r ≤ s.core.stage x) := by
    intro x member
    rcases Finset.mem_union.mp member with member | precommitted
    · rcases Finset.mem_union.mp member with proposed | prevoted
      · obtain ⟨m, present, rfl⟩ := Finset.mem_image.mp proposed
        exact ⟨(formed.propose_leader r m present).1, timeline.propose_past r m present⟩
      · obtain ⟨m, present, rfl⟩ := Finset.mem_image.mp prevoted
        refine ⟨(formed.prevote_sender r m present).2.1, fun honest => ?_⟩
        exact Nat.le_of_succ_le (timeline.prevote_past r m present honest)
    · obtain ⟨m, present, rfl⟩ := Finset.mem_image.mp precommitted
      refine ⟨(formed.precommit_sender r m present).2.1, fun honest => ?_⟩
      have past := timeline.precommit_past r m present honest
      omega
  obtain ⟨x, member, honest⟩ := k.system.exists_honest (fun x member => (sender x member).1) faster
  have reached := (sender x member).2 honest
  have bounded := (s.core.step x).index_le
  have top : s.core.round x ≤ maxRoundOf k s := round_le_max honest
  unfold Core.stage at reached
  omega

private theorem PacemakerInvariant.timeout_reach (invariant : PacemakerInvariant k s) {r : ℕ}
    (timers : ((s.msgsTimeout r).image TimeoutMsg.src).card ≥ k.threshold1) :
    r ≤ maxRoundOf k s ∨ (r = maxRoundOf k s + 1 ∧ MayLeave k s) := by
  have sender : ∀ x ∈ (s.msgsTimeout r).image TimeoutMsg.src, x ∈ k.system.nodes ∧
      (x ∈ k.honestNodes → r ≤ s.round x ∨ (r = s.round x + 1 ∧ s.localRemTime x = 0)) := by
    intro x member
    obtain ⟨t, present, rfl⟩ := Finset.mem_image.mp member
    exact invariant.timeout_sender r t present
  obtain ⟨x, member, honest⟩ := k.system.exists_honest (fun x member => (sender x member).1) timers
  have top : s.round x ≤ maxRoundOf k s := round_le_max honest
  rcases (sender x member).2 honest with reached | ⟨next, expired⟩
  · exact .inl (Nat.le_trans reached top)
  · rcases Nat.eq_or_lt_of_le top with atMax | below
    · exact .inr ⟨by rw [next, atMax], .inl ⟨x, honest, atMax, expired⟩⟩
    · exact .inl (by omega)

private theorem leave_reach {p : Node} (honest : p ∈ k.honestNodes)
    (may : s.round p = maxRoundOf k s → MayLeave k s) :
    s.round p + 1 ≤ maxRoundOf k s ∨ (s.round p + 1 = maxRoundOf k s + 1 ∧ MayLeave k s) := by
  rcases Nat.eq_or_lt_of_le (round_le_max honest) with atMax | below
  · exact .inr ⟨by rw [atMax], may atMax⟩
  · exact .inl below

theorem PacemakerInvariant.no_eQC (invariant : PacemakerInvariant k s) {p : Node}
    (honest : p ∈ k.honestNodes) (leader : p = k.proposer (s.round p))
    (fresh : ∀ m ∈ s.msgsPropose (s.round p), m.src ≠ p) :
    ∀ qc ∈ s.quorumCerts, qc.type = .eQC → qc.round ≠ s.round p := by
  intro qc member isE atRound
  obtain ⟨calledBy, -, proposed⟩ := invariant.eQC_leader qc member isE
  rw [atRound, ← leader] at calledBy
  obtain ⟨m, present⟩ := proposed (calledBy ▸ honest)
  rw [atRound] at present
  have sender := (invariant.core.formed.propose_leader _ m present).2.1
  exact fresh m present (sender.trans leader.symm)

end Reach

section Classification

variable {k : RefinementConstants Node} {s next : State Node} {p : Node}

omit [DecidableEq Node] in
theorem ReceivedFrom.refl (s : State Node) {s' : State Node}
    (same : s'.receivedTimelyProposal = s.receivedTimelyProposal) : ReceivedFrom s s' := by
  intro q m member
  rw [same] at member
  exact .inl member

omit [DecidableEq Node] in
theorem CommitsKept.refl (s : State Node) {s' : State Node}
    (same : s'.msgsPrecommit = s.msgsPrecommit) : CommitsKept s s' := by
  intro r b
  rw [same]

theorem CommitsKept.nil (s : State Node) (p : Node) :
    CommitsKept s (setStep (BroadcastPrecommit s p (s.round p) none) p .precommit) := by
  intro r b
  ext m
  have expanded := mem_update_insert s.msgsPrecommit (s.round p) r ⟨p, s.round p, none⟩ m
  simp only [votesFor, Finset.mem_filter]
  constructor
  · rintro ⟨member, voted⟩
    rcases expanded.mp member with old | ⟨-, rfl⟩
    · exact ⟨old, voted⟩
    · cases voted
  · rintro ⟨member, voted⟩
    exact ⟨expanded.mpr (.inl member), voted⟩

private theorem startRound_effect {r : ℕ} (honest : p ∈ k.honestNodes) (forward : s.round p < r)
    (reach : r ≤ maxRoundOf k s ∨ (r = maxRoundOf k s + 1 ∧ MayLeave k s))
    (taken : StartRound k.toServerConstants s p r = some next) : Effect k s next := by
  obtain ⟨-, bound, rfl⟩ := startRound_some taken
  exact .enter p r honest forward bound reach (fun _ _ => .inl) rfl (.refl s rfl) (.refl s rfl)

private theorem censored_effect (honest : p ∈ k.honestNodes)
    (reach : s.round p + 1 ≤ maxRoundOf k s ∨
      (s.round p + 1 = maxRoundOf k s + 1 ∧ MayLeave k s))
    (taken : StartRound k.toServerConstants (BroadcastTimeout s p (s.round p + 1)) p
      (s.round p + 1) = some next) : Effect k s next := by
  obtain ⟨-, bound, rfl⟩ := startRound_some taken
  refine .enter p _ honest (Nat.lt_succ_self _) bound reach ?_ rfl (.refl s rfl) (.refl s rfl)
  intro r' t member
  rcases (mem_update_insert _ _ _ _ _).mp member with old | ⟨same, rfl⟩
  · exact .inl old
  · exact .inr ⟨same, rfl⟩

private theorem handler_effect (handler : ProposeHandler) {msg : ProposalMsg Node}
    (honest : p ∈ k.honestNodes)
    (may : Censors k s p handler msg → s.round p = maxRoundOf k s → MayLeave k s)
    (taken : handler.run k.toServerConstants s p msg = some next) : Effect k s next := by
  obtain ⟨-, ⟨id, rfl, -, -⟩ | ⟨evaluates, censoring, -, -, started⟩⟩ := handler_cases taken
  · exact .quiet rfl (.refl s rfl) (.refl s rfl)
  · exact censored_effect honest (leave_reach honest (may ⟨evaluates, censoring⟩)) started

private theorem invoke_effect (invariant : PacemakerInvariant k s) {handler : ProposeHandler}
    {msg own : ProposalMsg Node} {handled : State Node} (honest : p ∈ k.honestNodes)
    (leader : p = k.proposer (s.round p)) (present : own ∈ s.msgsPropose (s.round p))
    (atMax : s.round p = maxRoundOf k s) (method : own.proposal.value ∈ k.method)
    (open' : ¬ Censors k s p handler msg)
    (ran : handler.run k.toServerConstants s p msg = some handled) :
    Effect k s { handled with
      quorumCerts := insert (mQC s (s.round p) p own.proposal.value) s.quorumCerts } := by
  obtain ⟨-, ⟨id, rfl, -, -⟩ | ⟨evaluates, censoring, -⟩⟩ := handler_cases ran
  · obtain ⟨qc, issued, isE, sameRound, calledBy⟩ := invariant.proposed_cert _ own present
    refine .invoke p own.proposal.value (Finset.mem_union_left _ honest) method ?_
      (fun _ _ => .inl) (fun _ _ member => member) ⟨own, atMax ▸ present⟩ ?_ ?_
      (.refl s rfl) (.refl s rfl)
    · exact ⟨qc, issued, isE, calledBy.trans leader.symm, sameRound.trans atMax, atMax ▸ leader⟩
    · intro _
      rw [← atMax]
      simp [Core.stage, State.core, setStep, BroadcastPrevote, Phase.index]
    · rw [← atMax]
      rfl
  · exact absurd ⟨evaluates, censoring⟩ open'

private theorem receive_effect (invariant : PacemakerInvariant k s) {msg : ProposalMsg Node}
    (taken : ReceiveProposal k.toServerConstants s p msg = some next) : Effect k s next := by
  unfold ReceiveProposal at taken
  split at taken
  · rename_i guard
    obtain rfl := Option.some.inj taken
    refine .quiet rfl ?_ (.refl s rfl)
    intro q m member
    simp only at member
    split at member
    · by_cases same : q = p
      · subst same
        rw [Function.update_self, Finset.mem_insert] at member
        rcases member with rfl | old
        · have sameRound := (invariant.core.formed.propose_leader _ m guard.1).2.2
          exact .inr (sameRound.symm ▸ guard.1)
        · exact .inl old
      · rw [Function.update_of_ne same] at member
        exact .inl member
    · exact .inl member
  · cases taken

private theorem insert_effect (invariant : PacemakerInvariant k s) {v : Value} {proofFound : Bool}
    (honest : p ∈ k.honestNodes) (atMax : s.round p = maxRoundOf k s)
    (taken : ServerInsertProposal k.toServerConstants s p v proofFound = some next) :
    Effect k s next := by
  obtain ⟨-, leader, -, fresh, -, rfl⟩ := serverInsertProposal_some taken
  have added := fun r m => mem_update_insert s.msgsPropose (s.round p) r
    ⟨p, s.round p, leaderProposal k.toServerConstants s p v proofFound, s.validRound p⟩ m
  refine .pull p (Finset.mem_union_left _ honest) (atMax ▸ leader) ?_ ?_ ?_ ?_ ?_
    (.refl s rfl) (.refl s rfl)
  · rw [← atMax]
    exact invariant.no_eQC honest leader fresh
  · intro r m member
    rcases (added r m).mp member with old | ⟨same, -⟩
    · exact .inl old
    · exact .inr (same.trans atMax)
  · intro r m member
    exact (added r m).mpr (.inl member)
  · intro _
    rw [← atMax]
    exact ⟨_, (added _ _).mpr (.inr ⟨rfl, rfl⟩)⟩
  · rw [← atMax]
    rfl

private theorem timeoutCert_effect (honest : p ∈ k.honestNodes) (atMax : s.round p = maxRoundOf k s)
    (taken : ServerUponTimeoutCert k.toServerConstants s p = some next) : Effect k s next := by
  unfold ServerUponTimeoutCert at taken
  split at taken
  · rename_i guard
    obtain rfl := Option.some.inj taken
    refine .certify p (Finset.mem_union_left _ honest) ?_ ?_ (.refl s rfl) (.refl s rfl)
    · intro tqc issued atRound
      exact guard.2 ⟨tqc, issued, atRound.trans atMax.symm⟩
    · rw [← atMax]
      rfl
  · cases taken

private theorem byzantinePull_effect (invariant : PacemakerInvariant k s) {r : ℕ}
    (atMax : r = maxRoundOf k s)
    (taken : ServerByzantinePull k.toServerConstants s r = some next) : Effect k s next := by
  unfold ServerByzantinePull at taken
  split at taken
  · rename_i guard
    obtain ⟨-, byzantine, -, fresh, -⟩ := guard
    obtain rfl := Option.some.inj taken
    subst atMax
    refine .pull _ (Finset.mem_union_right _ byzantine) rfl ?_ (fun _ _ => .inl)
      (fun _ _ member => member) ?_ rfl (.refl s rfl) (.refl s rfl)
    · intro qc issued isE atRound
      have calledBy := (invariant.eQC_leader qc issued isE).1
      exact fresh ⟨qc, issued, isE, atRound, by rw [calledBy, atRound]⟩
    · intro honest
      exact absurd byzantine (QuorumSystem.not_faulty honest)
  · cases taken

private theorem withhold_effect (invariant : PacemakerInvariant k s) {r : ℕ} {tx : Value}
    (method : tx ∈ k.method)
    (taken : ServerByzantineDataWithholding k.toServerConstants s r tx = some next) :
    Effect k s next := by
  obtain ⟨byzantine, -, ⟨qc, issued, isE, sameRound, calledBy⟩, behind, -, rfl⟩ :=
    serverDataWithholding_some taken
  have atMax : r = maxRoundOf k s := by
    apply Nat.le_antisymm
    · rw [← sameRound]
      exact (invariant.eQC_leader qc issued isE).2.1
    · obtain ⟨q, honest, reached⟩ := exists_round_eq_max k.toServerConstants s
      have below := behind q honest
      rw [reached] at below
      exact below
  subst atMax
  have added := fun r' m => mem_update_insert s.msgsPropose (maxRoundOf k s) r'
    ⟨k.proposer (maxRoundOf k s), maxRoundOf k s,
      withheldProposal k.toServerConstants s (maxRoundOf k s) tx, none⟩ m
  refine .invoke _ tx (Finset.mem_union_right _ byzantine) method
    ⟨qc, issued, isE, calledBy, sameRound, rfl⟩ ?_ ?_ ?_ ?_ rfl (.refl s rfl) (.refl s rfl)
  · intro r' m member
    rcases (added r' m).mp member with old | ⟨same, -⟩
    · exact .inl old
    · exact .inr same
  · intro r' m member
    exact (added r' m).mpr (.inl member)
  · exact ⟨_, (added _ _).mpr (.inr ⟨rfl, rfl⟩)⟩
  · intro honest
    exact absurd byzantine (QuorumSystem.not_faulty honest)

private theorem message_effect (invariant : PacemakerInvariant k s) {m : MessageAction Node}
    (honest : p ∈ k.honestNodes) (conforms : MessageConforms k s p m)
    (taken : ServerMessageProcessing k.toServerConstants s p m = some next) :
    Effect k s next := by
  cases m with
  | receiveProposal msg => exact receive_effect invariant taken
  | uponProposalInPropose msg =>
      exact handler_effect .uponProposalInPropose honest conforms taken
  | uponProposalInProposeAndPrevote msg =>
      refine handler_effect .uponProposalInProposeAndPrevote honest ?_ taken
      rintro ⟨evaluates, -⟩
      cases evaluates
  | uponQuorumOfPrevotesAny =>
      obtain ⟨-, rfl⟩ := guarded_eq_some taken
      exact .quiet rfl (.refl s rfl) (.nil s p)
  | uponProposalInPrevoteOrCommitAndPrevote msg =>
      obtain ⟨-, -, ⟨atPrevote, rfl⟩ | ⟨-, rfl⟩⟩ := uponPrevoteQuorum_some taken
      · exact .lock p msg.proposal rfl (.refl s rfl) (conforms atPrevote) rfl
      · exact .quiet rfl (.refl s rfl) (.refl s rfl)
  | uponQuorumOfPrecommitsAny =>
      exact startRound_effect honest (Nat.lt_succ_self _) (leave_reach honest conforms)
        (uponPrecommitQuorum_some taken)
  | onTimeoutPropose =>
      obtain ⟨-, rfl⟩ := guarded_eq_some taken
      exact .quiet rfl (.refl s rfl) (.refl s rfl)
  | onQuorumOfNilPrevotes =>
      obtain ⟨-, rfl⟩ := guarded_eq_some taken
      exact .quiet rfl (.refl s rfl) (.nil s p)
  | onRoundCatchup r =>
      obtain ⟨guard, started⟩ := Option.ite_none_right_eq_some.mp taken
      exact startRound_effect honest guard.2.1 (.inl (invariant.catchup_reach guard.2.2)) started
  | uponfPlusOneTimeoutsAny r =>
      obtain ⟨guard, started⟩ := Option.ite_none_right_eq_some.mp taken
      exact startRound_effect honest guard.2.1 (invariant.timeout_reach guard.2.2) started
  | onLocalTimerExpire =>
      obtain ⟨guard, rfl⟩ := guarded_eq_some taken
      exact .timer p honest guard.1 rfl (.refl s rfl) (.refl s rfl)
  | serverInsertProposal v proofFound => exact insert_effect invariant honest conforms taken
  | serverProposerVotes handler msg own =>
      obtain ⟨handled, ran, ⟨leader, present, source, rfl⟩ | ⟨follows, rfl⟩⟩ :=
        serverProposerVotes_some taken
      · obtain ⟨atMax, method, open'⟩ := conforms.1 ⟨leader, own, present, source⟩
        exact invoke_effect invariant honest leader present atMax method open' ran
      · exact handler_effect handler honest (conforms.2 follows) ran
  | serverUponProposalInPrecommitNoDecision msg =>
      obtain ⟨-, -, quorum, -⟩ := serverDecision_some taken
      exact absurd quorum (invariant.no_commit _ _)
  | serverUponTimeoutCert => exact timeoutCert_effect honest conforms taken

theorem effect_of_conforms (invariant : PacemakerInvariant k s) {a : Action Node}
    (conforms : Conforms k s a) (taken : ServerNext k.toServerConstants s a = some next) :
    Effect k s next := by
  cases a with
  | advanceRealTime =>
      obtain ⟨unblocked, rfl⟩ := advanceRealTime_some taken
      refine .tick ?_ rfl (.refl s rfl) (.refl s rfl)
      intro qc issued atMax
      exact unblocked ⟨qc, issued, atMax⟩
  | updateEnvironment u =>
      obtain rfl := Option.some.inj taken
      exact .environment u rfl (.refl s rfl) (.refl s rfl)
  | messageProcessing p m =>
      obtain ⟨guard, processed⟩ := Option.ite_none_right_eq_some.mp taken
      exact message_effect invariant guard.2 conforms processed
  | byzantinePull r => exact byzantinePull_effect invariant conforms taken
  | byzantineDataWithholding r tx => exact withhold_effect invariant conforms taken
  | honestTimeout r caller =>
      obtain ⟨guard, started⟩ := Option.ite_none_right_eq_some.mp taken
      obtain ⟨-, -, -, -, fresh, -, honest⟩ := guard
      obtain rfl := Option.some.inj started
      have atMax : r = maxRoundOf k s := conforms
      subst atMax
      refine .certify caller (Finset.mem_union_left _ honest) ?_ rfl (.refl s rfl) (.refl s rfl)
      intro tqc issued atRound
      exact fresh ⟨tqc, issued, atRound⟩
  | honestRoundSkip p =>
      obtain ⟨guard, started⟩ := Option.ite_none_right_eq_some.mp taken
      obtain ⟨honest, ⟨tqc, issued, atRound⟩, -, bound⟩ := guard
      obtain rfl := Option.some.inj started
      refine .enter p _ honest (Nat.lt_succ_self _) bound ?_ (fun _ _ => .inl) rfl
        (.refl s rfl) (.refl s rfl)
      exact leave_reach honest fun atMax => .inr ⟨tqc, issued, atRound.trans atMax⟩

end Classification

theorem updateSensors_heights (k : ServerConstants Node) (e : Environment) (u : SensorUpdate) :
    (UpdateSensors k e u).hBtcCurrent = grown e.hBtcCurrent u.btc.grows ∧
    (UpdateSensors k e u).hBtcSubmitted =
      (if u.btc.submits = true then grown e.hBtcCurrent u.btc.grows else e.hBtcSubmitted) ∧
    (UpdateSensors k e u).hBtcAnchored = (if u.btc.spvFails = true then e.hBtcAnchored
      else if u.btc.submits = true then grown e.hBtcCurrent u.btc.grows
      else e.hBtcSubmitted) := by
  obtain ⟨btc, da, p2p⟩ := u
  cases da <;> cases p2p <;> exact ⟨rfl, rfl, rfl⟩

private theorem card_votesFor_cast (votes : ℕ → Finset (Vote Node)) (p : Node) (r : ℕ)
    (b : Proposal) :
    (votesFor (Function.update votes r (insert ⟨p, r, some b⟩ (votes r)) r) (some b)).card ≤
      (votesFor (votes r) (some b)).card + 1 := by
  have spread : votesFor (Function.update votes r (insert ⟨p, r, some b⟩ (votes r)) r) (some b) ⊆
      insert ⟨p, r, some b⟩ (votesFor (votes r) (some b)) := by
    intro m member
    obtain ⟨present, voted⟩ := Finset.mem_filter.mp member
    rcases (mem_update_insert _ _ _ _ _).mp present with old | ⟨-, rfl⟩
    · exact Finset.mem_insert_of_mem (Finset.mem_filter.mpr ⟨old, voted⟩)
    · exact Finset.mem_insert_self _ _
  calc _ ≤ _ := Finset.card_le_card spread
    _ ≤ _ := Finset.card_insert_le _ _

private theorem votesFor_cast_other {votes : ℕ → Finset (Vote Node)} {p : Node} {r r' : ℕ}
    {b b' : Proposal} (other : ¬ (r = r' ∧ b = b')) :
    votesFor (Function.update votes r' (insert ⟨p, r', some b'⟩ (votes r')) r) (some b) ⊆
      votesFor (votes r) (some b) := by
  intro m member
  obtain ⟨present, voted⟩ := Finset.mem_filter.mp member
  rcases (mem_update_insert _ _ _ _ _).mp present with old | ⟨sameRound, rfl⟩
  · exact Finset.mem_filter.mpr ⟨old, voted⟩
  · exact absurd ⟨sameRound, (Option.some.inj voted).symm⟩ other

namespace Effect

variable {k : RefinementConstants Node} {s s' : State Node}

private theorem buffered (effect : Effect k s s') : ReceivedFrom s s' := by
  cases effect <;> assumption

private theorem quorumCerts_mono (effect : Effect k s s') {q : QuorumCert Node}
    (issued : q ∈ s.quorumCerts) : q ∈ s'.quorumCerts := by
  have kept : ∀ c : Shell Node, s'.shell = c → q ∈ c.quorumCerts → q ∈ s'.quorumCerts := by
    intro c shape member
    rw [← shape] at member
    exact member
  cases effect with
  | quiet same => exact kept _ same issued
  | lock _ _ same => exact kept _ same issued
  | tick _ ticked => exact kept _ ticked issued
  | environment _ updated => exact kept _ updated issued
  | enter _ _ _ _ _ _ _ entered => exact kept _ entered issued
  | timer _ _ _ sent => exact kept _ sent issued
  | pull _ _ _ _ _ _ _ certified => exact kept _ certified (Finset.mem_insert_of_mem issued)
  | invoke _ _ _ _ _ _ _ _ _ certified => exact kept _ certified (Finset.mem_insert_of_mem issued)
  | certify _ _ _ certified => exact kept _ certified issued

private theorem quorumCert_cases (effect : Effect k s s') {q : QuorumCert Node}
    (issued : q ∈ s'.quorumCerts) : q ∈ s.quorumCerts ∨
      (q.round = maxRoundOf k s ∧
        (q.type = .eQC ∧ q.caller = k.proposer q.round ∧
            (q.caller ∈ k.honestNodes → ∃ m, m ∈ s'.msgsPropose q.round) ∨
          q.type = .mQC ∧ (∃ m, m ∈ s'.msgsPropose q.round) ∧
            (q.caller ∈ k.honestNodes → 4 * q.round + 1 ≤ s'.core.stage q.caller))) := by
  have kept : ∀ c : Shell Node, s'.shell = c → q ∈ c.quorumCerts := by
    intro c shape
    rw [← shape]
    exact issued
  cases effect with
  | quiet same => exact .inl (kept _ same)
  | lock _ _ same => exact .inl (kept _ same)
  | tick _ ticked => exact .inl (kept _ ticked)
  | environment _ updated => exact .inl (kept _ updated)
  | enter _ _ _ _ _ _ _ entered => exact .inl (kept _ entered)
  | timer _ _ _ sent => exact .inl (kept _ sent)
  | pull caller _ leader _ _ _ proposed certified =>
      rcases Finset.mem_insert.mp (kept _ certified) with rfl | old
      · exact .inr ⟨rfl, .inl ⟨rfl, leader, proposed⟩⟩
      · exact .inl old
  | invoke caller value _ _ _ _ _ proposed voted certified =>
      rcases Finset.mem_insert.mp (kept _ certified) with rfl | old
      · exact .inr ⟨rfl, .inr ⟨rfl, proposed, voted⟩⟩
      · exact .inl old
  | certify _ _ _ certified => exact .inl (kept _ certified)

private theorem proposal_cases (effect : Effect k s s') {r : ℕ} {m : ProposalMsg Node}
    (member : m ∈ s'.msgsPropose r) : m ∈ s.msgsPropose r ∨
      ∃ q ∈ s'.quorumCerts, q.type = .eQC ∧ q.round = r ∧ q.caller = k.proposer r := by
  have kept : ∀ c : Shell Node, s'.shell = c → m ∈ c.msgsPropose r := by
    intro c shape
    rw [← shape]
    exact member
  cases effect with
  | quiet same => exact .inl (kept _ same)
  | lock _ _ same => exact .inl (kept _ same)
  | tick _ ticked => exact .inl (kept _ ticked)
  | environment _ updated => exact .inl (kept _ updated)
  | enter _ _ _ _ _ _ _ entered => exact .inl (kept _ entered)
  | timer _ _ _ sent => exact .inl (kept _ sent)
  | pull caller _ leader _ proposals _ _ certified =>
      rcases proposals r m member with old | rfl
      · exact .inl old
      · have issued : eQC s (maxRoundOf k s) caller ∈ s'.quorumCerts := by
          rw [show s'.quorumCerts = _ from congrArg Shell.quorumCerts certified]
          exact Finset.mem_insert_self _ _
        exact .inr ⟨_, issued, rfl, rfl, leader⟩
  | invoke caller value known method elected proposals grows proposed voted certified buffered
      kept' =>
      rcases proposals r m member with old | rfl
      · exact .inl old
      · obtain ⟨qc, issued, isE, calledBy, sameRound, leader⟩ := elected
        have whole : Effect k s s' := .invoke caller value known method
          ⟨qc, issued, isE, calledBy, sameRound, leader⟩ proposals grows proposed voted certified
          buffered kept'
        exact .inr ⟨qc, whole.quorumCerts_mono issued, isE, sameRound, calledBy.trans leader⟩
  | certify _ _ _ certified => exact .inl (kept _ certified)

theorem bounds (effect : Effect k s s') {q : Node}
    (timer : s.localRemTime q ≤ k.timeoutDuration) (round : s.round q ≤ k.maxRound) :
    s'.localRemTime q ≤ k.timeoutDuration ∧ s'.round q ≤ k.maxRound := by
  have kept : ∀ c : Shell Node, s'.shell = c → c.localRemTime q ≤ k.timeoutDuration →
      c.round q ≤ k.maxRound → s'.localRemTime q ≤ k.timeoutDuration ∧ s'.round q ≤ k.maxRound := by
    intro c shape timerBound roundBound
    rw [← shape] at timerBound roundBound
    exact ⟨timerBound, roundBound⟩
  cases effect with
  | quiet same => exact kept _ same timer round
  | lock _ _ same => exact kept _ same timer round
  | tick _ ticked =>
      refine kept _ ticked ?_ round
      simp only [tickedTimers]
      split <;> omega
  | environment _ updated => exact kept _ updated timer round
  | enter p r _ _ bound _ _ entered =>
      refine kept _ entered ?_ ?_
      · by_cases same : q = p
        · subst same
          simp
        · simp only [Function.update_of_ne same]
          exact timer
      · by_cases same : q = p
        · subst same
          simp only [Function.update_self]
          exact bound
        · simp only [Function.update_of_ne same]
          exact round
  | timer _ _ _ sent => exact kept _ sent timer round
  | pull _ _ _ _ _ _ _ certified => exact kept _ certified timer round
  | invoke _ _ _ _ _ _ _ _ _ certified => exact kept _ certified timer round
  | certify _ _ _ certified => exact kept _ certified timer round

/-- The sender of a timeout has reached its round or waits before it with an expired timer. -/
def SentInTime (k : RefinementConstants Node) (round localRemTime : Node → ℕ) (r : ℕ)
    (t : TimeoutMsg Node) : Prop :=
  t.src ∈ k.system.nodes ∧ (t.src ∈ k.honestNodes →
    r ≤ round t.src ∨ (r = round t.src + 1 ∧ localRemTime t.src = 0))

private theorem timeout_sent (effect : Effect k s s')
    (before : ∀ r, ∀ t ∈ s.msgsTimeout r, SentInTime k s.round s.localRemTime r t) {r : ℕ}
    {t : TimeoutMsg Node} (member : t ∈ s'.msgsTimeout r) :
    SentInTime k s'.round s'.localRemTime r t := by
  have kept : ∀ c : Shell Node, s'.shell = c → SentInTime k c.round c.localRemTime r t →
      SentInTime k s'.round s'.localRemTime r t := by
    intro c shape sent
    rw [← shape] at sent
    exact sent
  have present : ∀ c : Shell Node, s'.shell = c → t ∈ c.msgsTimeout r := by
    intro c shape
    rw [← shape]
    exact member
  cases effect with
  | quiet same => exact kept _ same (before r t (present _ same))
  | lock _ _ same => exact kept _ same (before r t (present _ same))
  | tick _ ticked =>
      obtain ⟨known, sent⟩ := before r t (present _ ticked)
      refine kept _ ticked ⟨known, fun honest => ?_⟩
      rcases sent honest with reached | ⟨next, expired⟩
      · exact .inl reached
      · refine .inr ⟨next, ?_⟩
        simp only [tickedTimers, expired]
        exact if_neg (fun positive => Nat.lt_irrefl 0 positive.1)
  | environment _ updated => exact kept _ updated (before r t (present _ updated))
  | enter p r' honest forward _ _ timeouts entered =>
      apply kept _ entered
      by_cases same : t.src = p
      · refine ⟨same ▸ Finset.mem_union_left _ honest, fun _ => .inl ?_⟩
        simp only [same, Function.update_self]
        rcases timeouts r t member with old | ⟨rfl, -⟩
        · rcases (before r t old).2 (same ▸ honest) with reached | ⟨next, -⟩
          · rw [same] at reached
            omega
          · rw [same] at next
            omega
        · exact Nat.le_refl _
      · rcases timeouts r t member with old | ⟨-, source⟩
        · simp only [SentInTime, Function.update_of_ne same]
          exact before r t old
        · exact absurd source same
  | timer p honest expired sent =>
      apply kept _ sent
      rcases (mem_update_insert _ _ _ _ _).mp (present _ sent) with old | ⟨rfl, rfl⟩
      · exact before r t old
      · exact ⟨Finset.mem_union_left _ honest, fun _ => .inr ⟨rfl, expired⟩⟩
  | pull _ _ _ _ _ _ _ certified => exact kept _ certified (before r t (present _ certified))
  | invoke _ _ _ _ _ _ _ _ _ certified =>
      exact kept _ certified (before r t (present _ certified))
  | certify _ _ _ certified => exact kept _ certified (before r t (present _ certified))

theorem no_commit (effect : Effect k s s')
    (before : ∀ r b, ¬ Core.QuorumFor k.toServerConstants s.msgsPrecommit r b) (r : ℕ)
    (b : Proposal) : ¬ Core.QuorumFor k.toServerConstants s'.msgsPrecommit r b := by
  have kept : CommitsKept s s' → ¬ Core.QuorumFor k.toServerConstants s'.msgsPrecommit r b := by
    intro commits quorum
    unfold Core.QuorumFor at quorum
    rw [commits r b] at quorum
    exact before r b quorum
  cases effect with
  | quiet _ _ commits => exact kept commits
  | lock p b' _ _ few cast =>
      intro quorum
      unfold Core.QuorumFor at quorum
      rw [cast] at quorum
      -- The lock adds one vote for its own ballot and none for the others.
      by_cases own : r = s.round p ∧ b = b'
      · obtain ⟨rfl, rfl⟩ := own
        have size := card_votesFor_cast s.msgsPrecommit p (s.round p) b
        omega
      · exact before r b (Nat.le_trans quorum (Finset.card_le_card (votesFor_cast_other own)))
  | tick _ _ _ commits => exact kept commits
  | environment _ _ _ commits => exact kept commits
  | enter _ _ _ _ _ _ _ _ _ commits => exact kept commits
  | timer _ _ _ _ _ commits => exact kept commits
  | pull _ _ _ _ _ _ _ _ _ commits => exact kept commits
  | invoke _ _ _ _ _ _ _ _ _ _ _ commits => exact kept commits
  | certify _ _ _ _ _ commits => exact kept commits

theorem heights (effect : Effect k s s') (anchored : s.env.hBtcAnchored ≤ s.env.hBtcSubmitted)
    (submitted : s.env.hBtcSubmitted ≤ s.env.hBtcCurrent) :
    s'.env.hBtcAnchored ≤ s'.env.hBtcSubmitted ∧ s'.env.hBtcSubmitted ≤ s'.env.hBtcCurrent := by
  have kept : ∀ c : Shell Node, s'.shell = c → c.env = s.env →
      s'.env.hBtcAnchored ≤ s'.env.hBtcSubmitted ∧
        s'.env.hBtcSubmitted ≤ s'.env.hBtcCurrent := by
    intro c shape same
    rw [show s'.env = s.env from (congrArg Shell.env shape).trans same]
    exact ⟨anchored, submitted⟩
  cases effect with
  | quiet same => exact kept _ same rfl
  | lock _ _ same => exact kept _ same rfl
  | tick _ ticked => exact kept _ ticked rfl
  | environment u updated =>
      rw [show s'.env = UpdateSensors k.toServerConstants s.env u from
        congrArg Shell.env updated]
      obtain ⟨current, submits, anchors⟩ := updateSensors_heights k.toServerConstants s.env u
      rw [anchors, submits, current]
      unfold grown
      split_ifs <;> constructor <;> omega
  | enter _ _ _ _ _ _ _ entered => exact kept _ entered rfl
  | timer _ _ _ sent => exact kept _ sent rfl
  | pull _ _ _ _ _ _ _ certified => exact kept _ certified rfl
  | invoke _ _ _ _ _ _ _ _ _ certified => exact kept _ certified rfl
  | certify _ _ _ certified => exact kept _ certified rfl

end Effect

section Run

variable {κ : Type} {k : RefinementConstants Node} {s s' : State Node}

private theorem CoreStep.round_mono {key : Proposal → κ} {accepts : Proposal → Prop}
    {c c' : Core Node}
    (step : CoreStep k.toServerConstants key accepts c c') (q : Node) : c.round q ≤ c'.round q := by
  have forward := step.stage_le q
  have bounded := (c'.step q).index_le
  unfold Core.stage at forward
  omega

private theorem maxRoundOf_mono (forward : ∀ q, s.round q ≤ s'.round q) :
    maxRoundOf k s ≤ maxRoundOf k s' := by
  unfold maxRoundOf currentMaxRound
  exact Finset.sup_mono_fun fun q _ => forward q

theorem PacemakerInvariant.step (invariant : PacemakerInvariant k s) {a : Action Node}
    (conforms : Conforms k s a) (taken : ServerNext k.toServerConstants s a = some s') :
    PacemakerInvariant k s' := by
  have step := core_step (honoursLock_value k.toServerConstants s a) taken
  have effect := effect_of_conforms invariant conforms taken
  have bounds : ∀ q ∈ k.honestNodes,
      s'.localRemTime q ≤ k.timeoutDuration ∧ s'.round q ≤ k.maxRound := fun q honest =>
    effect.bounds (invariant.timer_le q honest) (invariant.round_le q honest)
  have forward : maxRoundOf k s ≤ maxRoundOf k s' := maxRoundOf_mono step.round_mono
  have heights := effect.heights invariant.anchored_le invariant.submitted_le
  refine ⟨invariant.core.step step, fun q honest => (bounds q honest).1,
    fun q honest => (bounds q honest).2, ?_, fun r t member =>
      effect.timeout_sent invariant.timeout_sender member, ?_, ?_, ?_,
    effect.no_commit invariant.no_commit, heights.1, heights.2⟩
  · intro q m member
    rcases effect.buffered q m member with old | proposed
    · exact step.propose_mono (invariant.received q m old)
    · exact step.propose_mono proposed
  · intro r m member
    rcases effect.proposal_cases member with old | certified
    · obtain ⟨q, issued, facts⟩ := invariant.proposed_cert r m old
      exact ⟨q, effect.quorumCerts_mono issued, facts⟩
    · exact certified
  · intro q issued isE
    rcases effect.quorumCert_cases issued with old | ⟨atMax, ⟨-, leader, proposed⟩ | ⟨isM, -⟩⟩
    · obtain ⟨leader, behind, proposed⟩ := invariant.eQC_leader q old isE
      refine ⟨leader, Nat.le_trans behind forward, fun honest => ?_⟩
      obtain ⟨m, member⟩ := proposed honest
      exact ⟨m, step.propose_mono member⟩
    · exact ⟨leader, atMax ▸ forward, proposed⟩
    · rw [isE] at isM
      cases isM
  · intro q issued isM
    rcases effect.quorumCert_cases issued with old | ⟨-, ⟨isE, -⟩ | ⟨-, proposed, voted⟩⟩
    · obtain ⟨⟨m, member⟩, voted⟩ := invariant.mQC_voted q old isM
      exact ⟨⟨m, step.propose_mono member⟩,
        fun honest => Nat.le_trans (voted honest) (step.stage_le _)⟩
    · rw [isM] at isE
      cases isE
    · exact ⟨proposed, voted⟩

theorem PacemakerInvariant.initial (k : RefinementConstants Node) (clock : Node → ℕ) :
    PacemakerInvariant k (initialState k.toServerConstants clock) where
  core := CoreInvariant.initial _ _ clock
  timer_le _ _ := Nat.le_refl _
  round_le _ _ := Nat.zero_le _
  received p m member := by cases member
  timeout_sender r t member := by
    obtain ⟨f, faulty, rfl⟩ := Finset.mem_image.mp member
    exact ⟨Finset.mem_union_right _ faulty,
      fun honest => absurd faulty (QuorumSystem.not_faulty honest)⟩
  proposed_cert r m member := by cases member
  eQC_leader q issued := by cases issued
  mQC_voted q issued := by cases issued
  no_commit r b quorum := by
    have none : votesFor (FaultyVotes k.toServerConstants r) (some b) = ∅ := by
      apply Finset.filter_eq_empty_iff.mpr
      intro m member voted
      rw [(mem_faultyVotes member).2.2] at voted
      cases voted
    have large : k.threshold2 ≤ (votesFor (FaultyVotes k.toServerConstants r) (some b)).card :=
      quorum
    rw [none, Finset.card_empty, ServerConstants.threshold2] at large
    omega
  anchored_le := Nat.le_refl _
  submitted_le := Nat.le_refl _

theorem ServerRun.pacemakerInvariant {past : List (Move (State Node) (Action Node))}
    {now : State Node} (run : ServerRun k.toServerConstants past now)
    (conforms : ∀ m ∈ past, Conforms k m.source m.input) : PacemakerInvariant k now := by
  obtain ⟨start, ⟨clock, -, rfl⟩, run⟩ := run
  induction run with
  | initial => exact .initial k clock
  | extend _ taken ih =>
      have before := ih fun m member => conforms m (List.mem_cons_of_mem _ member)
      exact before.step (conforms _ (List.mem_cons_self ..)) taken

end Run

end Engram.Spec.Server
