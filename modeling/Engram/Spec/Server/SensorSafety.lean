import Engram.Spec.Server.SensorInvariants

/-!
The two checked properties of the sensors over whole runs: heights that never fall, and
the type invariant of the FSM. Each fails on one kind of step, and holds of a run exactly
when the run takes no such step.
-/

set_option autoImplicit false
set_option relaxedAutoImplicit false

namespace Engram.Spec.Server

open Engram.Types Engram.Library

variable {Node : Type} [DecidableEq Node]

section Heights

/-- `MonotonicitySafety` on one step. -/
structure HeightsKept (s s' : State Node) : Prop where
  hBtcCurrent : s.env.hBtcCurrent ≤ s'.env.hBtcCurrent
  hBtcAnchored : s.env.hBtcAnchored ≤ s'.env.hBtcAnchored
  hEngramCurrent : s.env.hEngramCurrent ≤ s'.env.hEngramCurrent
  realTime : s.realTime ≤ s'.realTime

/-- A sensor that re-derives the anchor finds it at or below the submitted height, and a
decided checkpoint is at or above the anchor. -/
def AnchorKept (s : State Node) (a : Action Node) : Prop :=
  (∀ u ∈ a.senses, u.btc.spvFails = false → u.btc.submits = false →
    s.env.hBtcAnchored ≤ s.env.hBtcSubmitted) ∧
  ∀ msg ∈ a.decides, s.env.hBtcAnchored ≤ msg.proposal.btcReceipt.checkpointBlockHeight

instance (s : State Node) (a : Action Node) : Decidable (AnchorKept s a) :=
  inferInstanceAs (Decidable (_ ∧ _))

variable {k : ServerConstants Node} {s s' : State Node} {a : Action Node}
  {past : List (Move (State Node) (Action Node))} {now : State Node}

private theorem anchored_update_iff (k : ServerConstants Node) {e : Environment} (u : SensorUpdate)
    (below : e.hBtcAnchored ≤ e.hBtcCurrent) :
    e.hBtcAnchored ≤ (UpdateSensors k e u).hBtcAnchored ↔
      (u.btc.spvFails = false → u.btc.submits = false → e.hBtcAnchored ≤ e.hBtcSubmitted) := by
  have tip := (updateSensors_tips k e u).1
  obtain ⟨current, -, anchors⟩ := updateSensors_heights k e u
  rw [current] at tip
  rw [anchors]
  cases u.btc.spvFails with
  | true => simp
  | false =>
      cases u.btc.submits with
      | true => simp [Nat.le_trans below tip]
      | false => simp

private theorem heightsKept_iff (run : ServerRun k past s) (taken : ServerNext k s a = some s') :
    HeightsKept s s' ↔ AnchorKept s a := by
  have invariant := run.sensorInvariant
  cases sensorStep_of_next taken with
  | update u =>
      obtain ⟨btc, engram⟩ := updateSensors_tips k s.env u
      have anchor := anchored_update_iff k u invariant.ordered.anchored
      constructor
      · intro kept
        refine ⟨?_, nofun⟩
        rintro u' ⟨rfl⟩
        exact anchor.mp kept.hBtcAnchored
      · intro kept
        exact ⟨btc, anchor.mpr (kept.1 u rfl), engram, Nat.le_refl _⟩
  | decide p msg proposed quorum =>
      obtain ⟨-, installed⟩ := invariant.installs run proposed quorum
      obtain ⟨btc, engram, -⟩ := syncDecision_heights k invariant.ordered.state installed
      constructor
      · intro kept
        refine ⟨nofun, ?_⟩
        rintro msg' ⟨rfl⟩
        exact kept.hBtcAnchored
      · intro kept
        exact ⟨Nat.le_of_eq btc.symm, kept.2 msg rfl, Nat.le_of_eq engram.symm, Nat.le_refl _⟩
  | other silent env clock _ _ =>
      obtain ⟨unsensed, undecided⟩ := Action.silent_iff.mp silent
      have kept : AnchorKept s a := by
        unfold AnchorKept
        rw [unsensed, undecided]
        exact ⟨nofun, nofun⟩
      refine ⟨fun _ => kept, fun _ => ?_⟩
      have same : ∀ height : Environment → ℕ, height s.env ≤ height s'.env := by
        intro height
        rw [env]
      exact ⟨same _, same _, same _, clock⟩

/-- In every run the heights never fall exactly when every step keeps the anchor. -/
theorem monotonicity_iff (run : ServerRun k past now) :
    (∀ m ∈ past, HeightsKept m.source m.target) ↔ ∀ m ∈ past, AnchorKept m.source m.input := by
  obtain ⟨start, init, run⟩ := run
  constructor
  · intro kept m member
    obtain ⟨newer, older, rfl, before, taken⟩ := run.cut_of_mem member
    exact (heightsKept_iff ⟨start, init, before⟩ taken).mp (kept m member)
  · intro kept m member
    obtain ⟨newer, older, rfl, before, taken⟩ := run.cut_of_mem member
    exact (heightsKept_iff ⟨start, init, before⟩ taken).mpr (kept m member)

theorem monotonicity_deciding :
    ∃ past now, ServerRun (checkedConstants oneByzantine fun _ => 0) past now ∧
      now.decision 0 = some ⟨healthyProposal, 0⟩ ∧
      ∀ m ∈ past, HeightsKept m.source m.target := by
  obtain ⟨past, now, run, passed⟩ := exists_serverRun decidingTrace
    (fun past s => decide (s.decision 0 = some ⟨healthyProposal, 0⟩ ∧
      ∀ m ∈ past, AnchorKept m.source m.input))
    (by decide +kernel : replayPasses
      (ServerNext (checkedConstants oneByzantine fun _ => 0)) _ decidingTrace _ = true)
  obtain ⟨decided, kept⟩ := of_decide_eq_true passed
  exact ⟨past, now, run, decided, (monotonicity_iff run).mpr kept⟩

/-- The anchor falls from `1` to `0` when node `0` decides the overtaken checkpoint. -/
theorem anchor_falls :
    ∃ past now, ServerRun (checkedConstants oneByzantine fun _ => 0) past now ∧
      (∃ m ∈ past, m.source.env.hBtcAnchored = 1 ∧ m.target.env.hBtcAnchored = 0) ∧
      ¬ ∀ m ∈ past, HeightsKept m.source m.target := by
  obtain ⟨past, now, run, passed⟩ := exists_serverRun overtakenTrace
    (fun past _ => decide (∃ m ∈ past,
      m.source.env.hBtcAnchored = 1 ∧ m.target.env.hBtcAnchored = 0))
    (by decide +kernel : replayPasses
      (ServerNext (checkedConstants oneByzantine fun _ => 0)) _ overtakenTrace _ = true)
  obtain ⟨m, member, before, after⟩ := of_decide_eq_true passed
  refine ⟨past, now, run, ⟨m, member, before, after⟩, fun kept => ?_⟩
  have falls := (kept m member).hBtcAnchored
  omega

end Heights

section Types

/-- `FSMTypeOK`. What it says of booleans, finite sets and naturals is in the types. -/
structure FSMTypeOK (k : Constants) (e : Environment) : Prop where
  state : e.state = .anchored ∨ e.state = .suspicious ∨ e.state = .sovereign ∨
    e.state = .recovering
  btcGap : 0 ≤ e.vars.btcGap
  daGap : 0 ≤ e.vars.daGap
  safeBlocks : e.safeBlocks ≤ k.hysteresisWait
  suspiciousSafeBlocks : e.suspiciousSafeBlocks ≤ k.suspiciousHysteresisWait
  unhealthyStreak : e.unhealthyStreak ≤ k.downHysteresisThreshold
  failedRecoveryAttempts : e.failedRecoveryAttempts ≤ k.maxDownHysteresisThreshold

def Overcounts (k : ServerConstants Node) (s : State Node) (a : Action Node) : Prop :=
  ∃ msg ∈ a.decides, s.env.state = .anchored ∧ msg.proposal.fsmState = .anchored ∧
    IsWarningCondition k.toConstants s.env.vars ∧
    ¬ IsCriticalCondition k.toConstants s.env.vars ∧
    k.downHysteresisThreshold ≤ s.env.unhealthyStreak

instance (k : ServerConstants Node) (s : State Node) (a : Action Node) :
    Decidable (Overcounts k s a) :=
  inferInstanceAs (Decidable (∃ msg ∈ a.decides, _))

variable {k : ServerConstants Node} {s s' : State Node} {a : Action Node}
  {past : List (Move (State Node) (Action Node))} {now : State Node}

private theorem Ordered.typeOK_iff {e : Environment} (ordered : Ordered k.toConstants e) :
    FSMTypeOK k.toConstants e ↔ e.unhealthyStreak ≤ k.downHysteresisThreshold := by
  obtain ⟨state, submitted, -, verified, safe, failed, suspiciousSafe⟩ := ordered
  refine ⟨FSMTypeOK.unhealthyStreak, fun streak => ⟨?_, ?_, ?_, ?_, suspiciousSafe, streak, ?_⟩⟩
  · rcases state with state | state | state
    · exact .inl state
    · exact .inr (.inl state)
    · exact .inr (.inr (.inl state))
  · simp only [Environment.vars, MinVal]
    split <;> omega
  · simp only [Environment.vars]
    omega
  · omega
  · omega

theorem streak_step (run : ServerRun k past s) (taken : ServerNext k s a = some s')
    (bounded : s.env.unhealthyStreak ≤ k.downHysteresisThreshold) :
    s'.env.unhealthyStreak ≤ k.downHysteresisThreshold ↔ ¬ Overcounts k s a := by
  cases sensorStep_of_next taken with
  | update u =>
      have kept : (UpdateSensors k s.env u).unhealthyStreak = s.env.unhealthyStreak :=
        congrArg Primed.unhealthyStreak (combination_updateSensors s.env u)
      refine ⟨fun _ => nofun, fun _ => ?_⟩
      change (UpdateSensors k s.env u).unhealthyStreak ≤ _
      rw [kept]
      exact bounded
  | decide p msg proposed quorum =>
      have steady := run.sensorInvariant.ordered.state.ne_recovering
      by_cases absorbs : s.env.state = .anchored ∧ msg.proposal.fsmState = .anchored ∧
          IsWarningCondition k.toConstants s.env.vars ∧
          ¬ IsCriticalCondition k.toConstants s.env.vars
      · have counted : (syncDecision k s.env msg.proposal).unhealthyStreak =
            s.env.unhealthyStreak + 1 := if_pos (.inl absorbs)
        obtain ⟨state, target, warning, calm⟩ := absorbs
        change (syncDecision k s.env msg.proposal).unhealthyStreak ≤ _ ↔ _
        rw [counted]
        constructor
        · rintro within ⟨_, -, -, -, -, -, full⟩
          omega
        · intro spared
          by_contra beyond
          exact spared ⟨msg, rfl, state, target, warning, calm, by omega⟩
      · have cleared : (syncDecision k s.env msg.proposal).unhealthyStreak = 0 := by
          apply if_neg
          rintro (absorbed | ⟨recovering, -⟩)
          · exact absorbs absorbed
          · exact steady recovering
        change (syncDecision k s.env msg.proposal).unhealthyStreak ≤ _ ↔ _
        rw [cleared]
        refine ⟨fun _ exceeds => ?_, fun _ => Nat.zero_le _⟩
        obtain ⟨_, ⟨rfl⟩, state, target, warning, calm, -⟩ := exceeds
        exact absorbs ⟨state, target, warning, calm⟩
  | other silent env _ _ _ =>
      refine ⟨fun _ exceeds => ?_, fun _ => ?_⟩
      · obtain ⟨msg, decided, -⟩ := exceeds
        rw [(Action.silent_iff.mp silent).2] at decided
        cases decided
      · rw [env]
        exact bounded

/-- In every run the type invariant holds in every state exactly when no decision
overcounts. -/
theorem fsmTypeOK_iff (run : ServerRun k past now) :
    ((∀ m ∈ past, FSMTypeOK k.toConstants m.source.env) ∧ FSMTypeOK k.toConstants now.env) ↔
      ∀ m ∈ past, ¬ Overcounts k m.source m.input := by
  obtain ⟨start, ⟨clock, within, rfl⟩, run⟩ := run
  induction run with
  | initial =>
      have ordered := (SensorInvariant.initial k clock).ordered
      have zero : (initialState k clock).env.unhealthyStreak = 0 := rfl
      simp [ordered.typeOK_iff, zero]
  | @extend past s next a before taken ih =>
      have earlier : ServerRun k past s := ⟨_, ⟨clock, within, rfl⟩, before⟩
      have later : ServerRun k (⟨s, a, next⟩ :: past) next :=
        ⟨_, ⟨clock, within, rfl⟩, before.extend taken⟩
      have typed := earlier.sensorInvariant.ordered.typeOK_iff
      have typed' := later.sensorInvariant.ordered.typeOK_iff
      simp only [List.forall_mem_cons]
      constructor
      · rintro ⟨⟨here, before'⟩, after⟩
        exact ⟨(streak_step earlier taken (typed.mp here)).mp (typed'.mp after),
          ih.mp ⟨before', here⟩⟩
      · rintro ⟨spared, older⟩
        obtain ⟨before', here⟩ := ih.mpr older
        exact ⟨⟨here, before'⟩,
          typed'.mpr ((streak_step earlier taken (typed.mp here)).mpr spared)⟩

theorem fsmTypeOK_deciding :
    ∃ past now, ServerRun (checkedConstants oneByzantine fun _ => 0) past now ∧
      now.decision 0 = some ⟨healthyProposal, 0⟩ ∧
      FSMTypeOK (checkedConstants oneByzantine fun _ => 0).toConstants now.env := by
  obtain ⟨past, now, run, passed⟩ := exists_serverRun decidingTrace
    (fun past s => decide (s.decision 0 = some ⟨healthyProposal, 0⟩ ∧
      ∀ m ∈ past, ¬ Overcounts (checkedConstants oneByzantine fun _ => 0) m.source m.input))
    (by decide +kernel : replayPasses
      (ServerNext (checkedConstants oneByzantine fun _ => 0)) _ decidingTrace _ = true)
  obtain ⟨decided, spared⟩ := of_decide_eq_true passed
  exact ⟨past, now, run, decided, ((fsmTypeOK_iff run).mpr spared).2⟩

/-- Two decisions of one block under a relay attack count the same warning twice. -/
theorem streak_exceeds_bound :
    ∃ past now, ServerRun (checkedConstants oneByzantine fun _ => 0) past now ∧
      now.env.unhealthyStreak = 2 ∧
      ¬ FSMTypeOK (checkedConstants oneByzantine fun _ => 0).toConstants now.env := by
  obtain ⟨past, now, run, passed⟩ := exists_serverRun absorbedTrace
    (fun _ s => decide (s.env.unhealthyStreak = 2))
    (by decide +kernel : replayPasses
      (ServerNext (checkedConstants oneByzantine fun _ => 0)) _ absorbedTrace _ = true)
  have streak := of_decide_eq_true passed
  refine ⟨past, now, run, streak, fun typed => ?_⟩
  have bound := typed.unhealthyStreak
  rw [streak] at bound
  exact absurd bound (by decide)

end Types

end Engram.Spec.Server
