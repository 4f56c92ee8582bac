import Engram.Spec.FsmCoverage
import Engram.Spec.Server.Firewall
import Engram.Spec.Server.Pacemaker

/-!
What a run does to the sensors. Only two steps write them: the environment's update and
the decision hook. The hook installs values fixed in a proposal, so the proposals that
can still be decided are part of the invariant.
-/

set_option autoImplicit false
set_option relaxedAutoImplicit false

namespace Engram.Spec.Server

open Engram.Types Engram.Library

variable {Node : Type} [DecidableEq Node]

def Known (s : State Node) (b : Proposal) : Prop :=
  (∃ r, ∃ m ∈ s.msgsPropose r, m.proposal = b) ∨ ∃ p, s.validValue p = some b

inductive Built (k : ServerConstants Node) (s : State Node) : Proposal → Prop
  | fresh (p : Node) (v : Value) (proofFound : Bool) (undecided : ¬ GlobalDecisionExists k s) :
      Built k s (freshProposal k s p v proofFound)
  | withheld (r : ℕ) (tx : Value) : Built k s (withheldProposal k s r tx)

def Action.senses : Action Node → Option SensorUpdate
  | .updateEnvironment u => some u
  | _ => none

def Action.decides : Action Node → Option (ProposalMsg Node)
  | .messageProcessing _ (.serverUponProposalInPrecommitNoDecision msg) => some msg
  | _ => none

def Action.writesSensors (a : Action Node) : Bool := a.senses.isSome || a.decides.isSome

omit [DecidableEq Node] in
theorem Action.silent_iff {a : Action Node} :
    a.writesSensors = false ↔ a.senses = none ∧ a.decides = none := by
  simp [Action.writesSensors]

/-- The effect of a step on the sensors, the clock, the rounds and the proposals. -/
inductive SensorStep (k : ServerConstants Node) (s : State Node) :
    Action Node → State Node → Prop
  | update (u : SensorUpdate) :
      SensorStep k s (.updateEnvironment u) { s with env := UpdateSensors k s.env u }
  | decide (p : Node) (msg : ProposalMsg Node)
      (proposed : msg ∈ s.msgsPropose (s.round p))
      (quorum : Core.QuorumFor k s.msgsPrecommit (s.round p) msg.proposal) :
      SensorStep k s (.messageProcessing p (.serverUponProposalInPrecommitNoDecision msg))
        { setStep s p .decided with
          decision := Function.update s.decision p (some ⟨msg.proposal, s.round p⟩)
          env := syncDecision k s.env msg.proposal }
  | other {a : Action Node} {s' : State Node} (silent : a.writesSensors = false)
      (env : s'.env = s.env) (clock : s.realTime ≤ s'.realTime)
      (rounds : ∀ q, s'.round q = s.round q ∨ s'.round q ≤ k.maxRound)
      (known : ∀ b, Known s' b → Known s b ∨ Built k s b) : SensorStep k s a s'

section Classification

variable {k : ServerConstants Node} {s s' : State Node} {a : Action Node} {p : Node}

theorem SensorStep.quiet (silent : a.writesSensors = false) (env : s'.env = s.env)
    (clock : s'.realTime = s.realTime) (rounds : s'.round = s.round)
    (propose : s'.msgsPropose = s.msgsPropose) (valid : s'.validValue = s.validValue) :
    SensorStep k s a s' := by
  refine .other silent env (Nat.le_of_eq clock.symm) (fun q => .inl (congrFun rounds q)) ?_
  intro b known
  rw [Known, propose, valid] at known
  exact .inl known

theorem SensorStep.enters {r : ℕ} (silent : a.writesSensors = false) (env : s'.env = s.env)
    (clock : s'.realTime = s.realTime) (rounds : s'.round = Function.update s.round p r)
    (bound : r ≤ k.maxRound) (propose : s'.msgsPropose = s.msgsPropose)
    (valid : s'.validValue = s.validValue) : SensorStep k s a s' := by
  refine .other silent env (Nat.le_of_eq clock.symm) ?_ ?_
  · intro q
    rw [rounds]
    by_cases same : q = p
    · subst same
      rw [Function.update_self]
      exact .inr bound
    · rw [Function.update_of_ne same]
      exact .inl rfl
  · intro b known
    rw [Known, propose, valid] at known
    exact .inl known

theorem SensorStep.starts {r : ℕ} (silent : a.writesSensors = false)
    (taken : StartRound k s p r = some s') : SensorStep k s a s' := by
  obtain ⟨-, bound, rfl⟩ := startRound_some taken
  exact .enters silent rfl rfl rfl bound rfl rfl

private theorem SensorStep.handles {handler : ProposeHandler} {msg : ProposalMsg Node}
    (silent : a.writesSensors = false) (taken : handler.run k s p msg = some s') :
    SensorStep k s a s' := by
  obtain ⟨-, ⟨id, rfl, -, -⟩ | ⟨-, -, -, -, started⟩⟩ := handler_cases taken
  · exact .quiet silent rfl rfl rfl rfl rfl
  · obtain ⟨-, bound, rfl⟩ := startRound_some started
    exact .enters silent rfl rfl rfl bound rfl rfl

private theorem SensorStep.proposes {r : ℕ} {msg : ProposalMsg Node}
    (silent : a.writesSensors = false)
    (env : s'.env = s.env) (clock : s'.realTime = s.realTime) (rounds : s'.round = s.round)
    (propose : s'.msgsPropose = Function.update s.msgsPropose r (insert msg (s.msgsPropose r)))
    (valid : s'.validValue = s.validValue)
    (source : Known s msg.proposal ∨ Built k s msg.proposal) : SensorStep k s a s' := by
  refine .other silent env (Nat.le_of_eq clock.symm) (fun q => .inl (congrFun rounds q)) ?_
  rintro b (⟨r', m, member, carried⟩ | ⟨q, remembered⟩)
  · rw [propose] at member
    rcases (mem_update_insert _ _ _ _ _).mp member with old | ⟨-, rfl⟩
    · exact .inl (.inl ⟨r', m, old, carried⟩)
    · rw [← carried]
      exact source
  · rw [valid] at remembered
    exact .inl (.inr ⟨q, remembered⟩)

private theorem messageProcessing_sensorStep {m : MessageAction Node}
    (taken : ServerMessageProcessing k s p m = some s') :
    SensorStep k s (.messageProcessing p m) s' := by
  cases m with
  | receiveProposal msg =>
      obtain ⟨-, rfl⟩ := guarded_eq_some taken
      exact .quiet rfl rfl rfl rfl rfl rfl
  | uponProposalInPropose msg =>
      have ran : ProposeHandler.uponProposalInPropose.run k s p msg = some s' := taken
      exact .handles rfl ran
  | uponProposalInProposeAndPrevote msg =>
      have ran : ProposeHandler.uponProposalInProposeAndPrevote.run k s p msg = some s' := taken
      exact .handles rfl ran
  | uponQuorumOfPrevotesAny =>
      obtain ⟨-, rfl⟩ := guarded_eq_some taken
      exact .quiet rfl rfl rfl rfl rfl rfl
  | uponProposalInPrevoteOrCommitAndPrevote msg =>
      obtain ⟨proposed, -, ⟨-, rfl⟩ | ⟨-, rfl⟩⟩ := uponPrevoteQuorum_some taken
      · exact .quiet rfl rfl rfl rfl rfl rfl
      · refine .other rfl rfl (Nat.le_refl _) (fun _ => .inl rfl) ?_
        rintro b (inFlight | ⟨q, remembered⟩)
        · exact .inl (.inl inFlight)
        · simp only [Function.update_apply] at remembered
          split at remembered
          · obtain rfl := Option.some.inj remembered
            exact .inl (.inl ⟨_, msg, proposed, rfl⟩)
          · exact .inl (.inr ⟨q, remembered⟩)
  | uponQuorumOfPrecommitsAny =>
      exact .starts rfl (uponPrecommitQuorum_some taken)
  | onTimeoutPropose =>
      obtain ⟨-, rfl⟩ := guarded_eq_some taken
      exact .quiet rfl rfl rfl rfl rfl rfl
  | onQuorumOfNilPrevotes =>
      obtain ⟨-, rfl⟩ := guarded_eq_some taken
      exact .quiet rfl rfl rfl rfl rfl rfl
  | onRoundCatchup r =>
      obtain ⟨-, started⟩ := Option.ite_none_right_eq_some.mp taken
      exact .starts rfl started
  | uponfPlusOneTimeoutsAny r =>
      obtain ⟨-, started⟩ := Option.ite_none_right_eq_some.mp taken
      exact .starts rfl started
  | onLocalTimerExpire =>
      obtain ⟨-, rfl⟩ := guarded_eq_some taken
      exact .quiet rfl rfl rfl rfl rfl rfl
  | serverInsertProposal v proofFound =>
      obtain ⟨undecided, -, -, -, -, rfl⟩ := serverInsertProposal_some taken
      refine .proposes rfl rfl rfl rfl rfl rfl ?_
      -- The leader repeats its valid value when it has one.
      change Known s (leaderProposal k s p v proofFound) ∨
        Built k s (leaderProposal k s p v proofFound)
      unfold leaderProposal
      cases remembered : s.validValue p with
      | none => exact .inr (.fresh p v proofFound undecided)
      | some b => exact .inl (.inr ⟨p, remembered⟩)
  | serverProposerVotes handler msg own =>
      obtain ⟨handled, ran, certified⟩ := serverProposerVotes_some taken
      have voted : SensorStep k s
          (.messageProcessing p (.serverProposerVotes handler msg own)) handled := .handles rfl ran
      rcases certified with ⟨-, -, -, rfl⟩ | ⟨-, rfl⟩
      · cases voted with
        | other silent env clock rounds known => exact .other silent env clock rounds known
      · exact voted
  | serverUponProposalInPrecommitNoDecision msg =>
      obtain ⟨proposed, -, quorum, rfl⟩ := serverDecision_some taken
      exact .decide p msg proposed quorum
  | serverUponTimeoutCert =>
      obtain ⟨-, rfl⟩ := guarded_eq_some taken
      exact .quiet rfl rfl rfl rfl rfl rfl

theorem sensorStep_of_next (taken : ServerNext k s a = some s') : SensorStep k s a s' := by
  cases a with
  | advanceRealTime =>
      obtain ⟨-, rfl⟩ := advanceRealTime_some taken
      exact .other rfl rfl (Nat.le_succ _) (fun _ => .inl rfl) (fun _ known => .inl known)
  | updateEnvironment u =>
      obtain rfl := Option.some.inj taken
      exact .update u
  | messageProcessing p m =>
      obtain ⟨-, processed⟩ := Option.ite_none_right_eq_some.mp taken
      exact messageProcessing_sensorStep processed
  | byzantinePull r =>
      obtain ⟨-, rfl⟩ := guarded_eq_some taken
      exact .quiet rfl rfl rfl rfl rfl rfl
  | byzantineDataWithholding r tx =>
      obtain ⟨-, -, -, -, -, rfl⟩ := serverDataWithholding_some taken
      exact .proposes rfl rfl rfl rfl rfl rfl (.inr (.withheld r tx))
  | honestTimeout r caller =>
      obtain ⟨-, rfl⟩ := guarded_eq_some taken
      exact .quiet rfl rfl rfl rfl rfl rfl
  | honestRoundSkip p =>
      obtain ⟨guard, rfl⟩ := guarded_eq_some taken
      exact .enters rfl rfl rfl rfl guard.2.2.2 rfl rfl

end Classification

section Invariant

/-- The states a decision can install. RECOVERING is none of them. -/
def Installed (state : FSMState) : Prop :=
  state = .anchored ∨ state = .suspicious ∨ state = .sovereign

/-- A proposal lies below the heights of the sensors, and one for RECOVERING is not
attested. -/
structure Behind (e : Environment) (b : Proposal) : Prop where
  checkpoint : b.btcReceipt.checkpointBlockHeight ≤ e.hBtcCurrent
  published : b.daReceipt.publishedBlockHeight ≤ e.hEngramCurrent
  target : Installed b.fsmState ∨ (b.fsmState = .recovering ∧ b.daReceipt.attestation = false)

/-- The sensors alone: the heights in order and the counters that never move. -/
structure Ordered (k : Constants) (e : Environment) : Prop where
  state : Installed e.state
  submitted : e.hBtcSubmitted ≤ e.hBtcCurrent
  anchored : e.hBtcAnchored ≤ e.hBtcCurrent
  verified : e.hEngramVerified ≤ e.hEngramCurrent
  safeBlocks : e.safeBlocks = 0
  failedRecoveryAttempts : e.failedRecoveryAttempts = 0
  suspiciousSafeBlocks : e.suspiciousSafeBlocks ≤ k.suspiciousHysteresisWait

structure SensorInvariant (k : ServerConstants Node) (s : State Node) : Prop where
  rounds : ∀ q, s.round q ≤ k.maxRound
  ordered : Ordered k.toConstants s.env
  undecided : ¬ GlobalDecisionExists k s → s.env.state = .anchored
  known : ∀ b, Known s b → Behind s.env b

variable {k : ServerConstants Node} {s s' : State Node} {e : Environment}

private theorem next_of_installed {k : Constants} {v : Vars} (installed : Installed v.state) :
    Installed (CalculateNextFSMState k v) ∨ CalculateNextFSMState k v = .recovering := by
  unfold Installed
  rcases installed with state | state | state
  · rw [next_of_anchored state]
    split_ifs <;> simp
  · rw [next_of_suspicious state]
    split_ifs <;> simp
  · rw [next_of_sovereign state]
    split_ifs <;> simp

private theorem installed_next_of_anchored {k : Constants} {v : Vars}
    (state : v.state = .anchored) : Installed (CalculateNextFSMState k v) := by
  unfold Installed
  rw [next_of_anchored state]
  split_ifs <;> simp

private theorem SensorInvariant.built (invariant : SensorInvariant k s) {b : Proposal}
    (built : Built k s b) : Behind s.env b := by
  obtain ⟨-, ordered, calm, -⟩ := invariant
  cases built with
  | fresh p v proofFound undecided =>
      exact ⟨ordered.anchored, ordered.verified, .inl (installed_next_of_anchored
        (v := s.env.vars) (calm undecided))⟩
  | withheld r tx =>
      refine ⟨Nat.le_refl _, ordered.verified, ?_⟩
      rcases next_of_installed (k := k.toConstants) (v := s.env.vars) ordered.state with
        stays | recovering
      · exact .inl stays
      · exact .inr ⟨recovering, rfl⟩

private theorem updateSensors_engram (k : ServerConstants Node) (e : Environment)
    (u : SensorUpdate) : e.hEngramCurrent ≤ (UpdateSensors k e u).hEngramCurrent ∧
      (e.hEngramVerified ≤ e.hEngramCurrent →
        (UpdateSensors k e u).hEngramVerified ≤ (UpdateSensors k e u).hEngramCurrent) := by
  have grows : ∀ b, e.hEngramCurrent ≤ grown e.hEngramCurrent b := by
    intro b
    unfold grown
    split <;> omega
  obtain ⟨btc, da, p2p⟩ := u
  cases da with
  | normal b => cases p2p <;> exact ⟨grows b, fun _ => Nat.le_refl _⟩
  | failure b attestation das raised =>
      cases p2p <;> exact ⟨grows b, fun below => Nat.le_trans below (grows b)⟩

theorem updateSensors_tips (k : ServerConstants Node) (e : Environment) (u : SensorUpdate) :
    e.hBtcCurrent ≤ (UpdateSensors k e u).hBtcCurrent ∧
      e.hEngramCurrent ≤ (UpdateSensors k e u).hEngramCurrent := by
  refine ⟨?_, (updateSensors_engram k e u).1⟩
  rw [(updateSensors_heights k e u).1]
  unfold grown
  split <;> omega

theorem Ordered.update (ordered : Ordered k.toConstants e) (u : SensorUpdate) :
    Ordered k.toConstants (UpdateSensors k e u) := by
  obtain ⟨state, submitted, anchored, verified, safe, failed, suspiciousSafe⟩ := ordered
  have kept := combination_updateSensors (k := k) e u
  obtain ⟨current, submits, anchors⟩ := updateSensors_heights k e u
  have tip := (updateSensors_tips k e u).1
  rw [current] at tip
  refine ⟨?_, ?_, ?_, (updateSensors_engram k e u).2 verified, ?_, ?_, ?_⟩
  · rw [show (UpdateSensors k e u).state = e.state from congrArg Primed.state kept]
    exact state
  · rw [submits, current]
    split <;> omega
  · rw [anchors, current]
    split_ifs <;> omega
  · exact (congrArg Primed.safeBlocks kept).trans safe
  · exact (congrArg Primed.failedRecoveryAttempts kept).trans failed
  · rw [show (UpdateSensors k e u).suspiciousSafeBlocks = e.suspiciousSafeBlocks from
      congrArg Primed.suspiciousSafeBlocks kept]
    exact suspiciousSafe

theorem Behind.update {b : Proposal} (behind : Behind e b) (u : SensorUpdate) :
    Behind (UpdateSensors k e u) b := by
  obtain ⟨btc, engram⟩ := updateSensors_tips k e u
  exact ⟨Nat.le_trans behind.checkpoint btc, Nat.le_trans behind.published engram,
    behind.target⟩

theorem Installed.ne_recovering {state : FSMState} (installed : Installed state) :
    state ≠ .recovering := by
  rintro rfl
  rcases installed with same | same | same <;> cases same

/-- Outside RECOVERING the hook installs the proposal's receipts and leaves the tips and
the submitted height alone. -/
theorem syncDecision_heights (k : ServerConstants Node) {prop : Proposal}
    (state : Installed e.state) (target : Installed prop.fsmState) :
    (syncDecision k e prop).hBtcCurrent = e.hBtcCurrent ∧
      (syncDecision k e prop).hEngramCurrent = e.hEngramCurrent ∧
      (syncDecision k e prop).hBtcSubmitted = e.hBtcSubmitted := by
  have open' : ¬ (e.state = .recovering ∧ prop.fsmState = .anchored) :=
    fun closes => state.ne_recovering closes.1
  have silent : ¬ (prop.fsmState = .recovering ∧ prop.zkProofRef = true) :=
    fun claims => target.ne_recovering claims.1
  exact ⟨if_neg open', if_neg open', if_neg silent⟩

private theorem execute_suspiciousSafeBlocks_le {k : Constants} {v : Vars} (target : FSMState)
    (bounded : v.suspiciousSafeBlocks ≤ k.suspiciousHysteresisWait) :
    (ExecuteFSMTransition k v target).suspiciousSafeBlocks ≤ k.suspiciousHysteresisWait := by
  simp only [ExecuteFSMTransition, MinVal]
  split_ifs <;> omega

theorem Ordered.decide (ordered : Ordered k.toConstants e) {prop : Proposal}
    (behind : Behind e prop) (target : Installed prop.fsmState) :
    Ordered k.toConstants (syncDecision k e prop) := by
  obtain ⟨state, submitted, -, -, -, failed, suspiciousSafe⟩ := ordered
  obtain ⟨btc, engram, submits⟩ := syncDecision_heights k state target
  refine ⟨target, ?_, ?_, ?_, ?_, ?_, ?_⟩
  · rw [submits, btc]
    exact submitted
  · rw [btc]
    exact behind.checkpoint
  · rw [engram]
    exact behind.published
  · exact if_neg (fun stays => target.ne_recovering stays.1)
  · have steady : e.vars.state ≠ .recovering := state.ne_recovering
    change (if e.vars.state = .recovering ∧ _ then _ else if _ then 0 else _) = 0
    rw [if_neg (fun regresses => steady regresses.1), if_neg (fun closes => steady closes.1)]
    exact failed
  · exact execute_suspiciousSafeBlocks_le (v := e.vars) prop.fsmState suspiciousSafe

theorem Behind.decide {b prop : Proposal} (behind : Behind e b) (state : Installed e.state)
    (target : Installed prop.fsmState) : Behind (syncDecision k e prop) b := by
  obtain ⟨btc, engram, -⟩ := syncDecision_heights k state target
  refine ⟨?_, ?_, behind.target⟩
  · rw [btc]
    exact behind.checkpoint
  · rw [engram]
    exact behind.published

private theorem globalDecision_of_quorum {r : ℕ} {b : Proposal} (bound : r ≤ k.maxRound)
    (quorum : Core.QuorumFor k s.msgsPrecommit r b) : GlobalDecisionExists k s := by
  have positive : 0 < (votesFor (s.msgsPrecommit r) (some b)).card :=
    Nat.lt_of_lt_of_le (Nat.succ_pos _) quorum
  obtain ⟨m, member⟩ := Finset.card_pos.mp positive
  obtain ⟨present, voted⟩ := Finset.mem_filter.mp member
  refine ⟨r, Finset.mem_range.mpr (Nat.lt_succ_of_le bound), m, present, ?_, ?_⟩
  · rw [voted]
    exact Option.some_ne_none b
  · rw [voted]
    exact quorum

private theorem globalDecision_mono {κ : Type} {key : Proposal → κ} {accepts : Proposal → Prop}
    (step : CoreStep k key accepts s.core s'.core) (decided : GlobalDecisionExists k s) :
    GlobalDecisionExists k s' := by
  obtain ⟨r, bound, m, present, voted, quorum⟩ := decided
  obtain ⟨b, carried⟩ := Option.ne_none_iff_exists'.mp voted
  rw [carried] at quorum
  exact globalDecision_of_quorum (Nat.le_of_lt_succ (Finset.mem_range.mp bound))
    (step.precommitQuorum_mono quorum)

theorem SensorInvariant.installs (invariant : SensorInvariant k s)
    {past : List (Move (State Node) (Action Node))} (run : ServerRun k past s) {p : Node}
    {msg : ProposalMsg Node} (proposed : msg ∈ s.msgsPropose (s.round p))
    (quorum : Core.QuorumFor k s.msgsPrecommit (s.round p) msg.proposal) :
    Behind s.env msg.proposal ∧ Installed msg.proposal.fsmState := by
  have behind := invariant.known _ (.inl ⟨_, msg, proposed, rfl⟩)
  refine ⟨behind, ?_⟩
  rcases behind.target with installed | ⟨recovering, unattested⟩
  · exact installed
  · obtain ⟨m, -, q, -, -, valid⟩ := precommitQuorum_checked run quorum
    have attested := (valid.attested (.inr recovering)).1
    rw [unattested] at attested
    cases attested

theorem SensorInvariant.step (invariant : SensorInvariant k s)
    {past : List (Move (State Node) (Action Node))} (run : ServerRun k past s) {a : Action Node}
    (taken : ServerNext k s a = some s') : SensorInvariant k s' := by
  have grows : GlobalDecisionExists k s → GlobalDecisionExists k s' :=
    globalDecision_mono (core_step (honoursLock_value k s a) taken)
  cases sensorStep_of_next taken with
  | update u =>
      refine ⟨invariant.rounds, invariant.ordered.update u, ?_, ?_⟩
      · intro undecided
        rw [updateSensors_state]
        exact invariant.undecided fun decided => undecided (grows decided)
      · intro b known
        exact (invariant.known b known).update u
  | decide p msg proposed quorum =>
      obtain ⟨behind, installed⟩ := invariant.installs run proposed quorum
      refine ⟨invariant.rounds, invariant.ordered.decide behind installed, ?_, ?_⟩
      · intro undecided
        exact absurd (grows (globalDecision_of_quorum (invariant.rounds p) quorum)) undecided
      · intro b known
        exact (invariant.known b known).decide invariant.ordered.state installed
  | other silent env clock rounds known =>
      refine ⟨?_, ?_, ?_, ?_⟩
      · intro q
        rcases rounds q with same | bound
        · rw [same]
          exact invariant.rounds q
        · exact bound
      · rw [env]
        exact invariant.ordered
      · intro undecided
        rw [env]
        exact invariant.undecided fun decided => undecided (grows decided)
      · intro b seen
        rw [env]
        rcases known b seen with old | built
        · exact invariant.known b old
        · exact invariant.built built

theorem SensorInvariant.initial (k : ServerConstants Node) (clock : Node → ℕ) :
    SensorInvariant k (initialState k clock) where
  rounds _ := Nat.zero_le _
  ordered := ⟨.inl rfl, Nat.le_refl _, Nat.le_refl _, Nat.le_refl _, rfl, rfl, Nat.zero_le _⟩
  undecided _ := rfl
  known := by
    rintro b (⟨r, m, member, -⟩ | ⟨p, remembered⟩)
    · cases member
    · cases remembered

theorem ServerRun.sensorInvariant {past : List (Move (State Node) (Action Node))}
    {now : State Node} (run : ServerRun k past now) : SensorInvariant k now := by
  obtain ⟨start, ⟨clock, within, rfl⟩, run⟩ := run
  induction run with
  | initial => exact .initial k clock
  | extend before taken ih => exact ih.step ⟨_, ⟨clock, within, rfl⟩, before⟩ taken

end Invariant

end Engram.Spec.Server
