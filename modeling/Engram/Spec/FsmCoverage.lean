import Engram.Spec.Server.Actions
import Mathlib.Logic.Relation

/-!
The unit-level specification `FSMSpec` against the machine that runs at every block.
`FSMNext` takes a transition only when it changes the state, while a decision applies
`ExecuteFSMTransition` also when the state stays; the counters advance in the steps
that only the second has.
-/

set_option autoImplicit false
set_option relaxedAutoImplicit false

namespace Engram.Spec.Server

open Engram.Types Engram.Library

def Environment.combination (e : Environment) : Primed where
  state := e.state
  suspiciousDuration := e.suspiciousDuration
  unhealthyStreak := e.unhealthyStreak
  failedRecoveryAttempts := e.failedRecoveryAttempts
  safeBlocks := e.safeBlocks
  suspiciousSafeBlocks := e.suspiciousSafeBlocks

def executeTransition (k : Constants) (e : Environment) (target : FSMState) : Environment :=
  let primed := ExecuteFSMTransition k e.vars target
  { e with
    state := primed.state
    suspiciousDuration := primed.suspiciousDuration
    unhealthyStreak := primed.unhealthyStreak
    failedRecoveryAttempts := primed.failedRecoveryAttempts
    safeBlocks := primed.safeBlocks
    suspiciousSafeBlocks := primed.suspiciousSafeBlocks }

section Machines

variable {Node : Type} [DecidableEq Node] (k : ServerConstants Node)

/-- `[FSMNext]_fsmVars`: sensors, a transition that changes the state, or a step that
keeps the FSM variables and leaves the sensors open. -/
inductive FSMStep : Environment → Environment → Prop
  | updateSensors (e : Environment) (u : SensorUpdate) : FSMStep e (UpdateSensors k e u)
  | transition (e : Environment)
      (changes : CalculateNextFSMState k.toConstants e.vars ≠ e.state) :
      FSMStep e (executeTransition k.toConstants e (CalculateNextFSMState k.toConstants e.vars))
  | stutter (e e' : Environment) (kept : e'.combination = e.combination)
      (flag : e'.reanchoringProofValid = e.reanchoringProofValid) : FSMStep e e'

/-- The environments some run of `FSMSpec` reaches. -/
def FSMReachable (e : Environment) : Prop := Relation.ReflTransGen (FSMStep k) (FSMInit k) e

/-- One block: the sensors are updated, then the FSM takes its step, also when it stays. -/
def blockStep (e : Environment) (u : SensorUpdate) : Environment :=
  let updated := UpdateSensors k e u
  executeTransition k.toConstants updated (CalculateNextFSMState k.toConstants updated.vars)

abbrev BlockRun (past : List (Move Environment SensorUpdate)) (now : Environment) : Prop :=
  Run (fun e u => some (blockStep k e u)) (FSMInit k) past now

/-- The combination the block reaches is one that `FSMSpec` reaches, and if the block
changes the state, `FSMSpec` takes the same edge between the same combinations. -/
structure BlockCovered (m : Move Environment SensorUpdate) : Prop where
  reached : ∃ e, FSMReachable k e ∧ e.combination = m.target.combination
  taken : m.target.state ≠ m.source.state → ∃ e e', FSMReachable k e ∧ FSMStep k e e' ∧
    e.combination = m.source.combination ∧ e'.combination = m.target.combination

end Machines

/-- The block keeps the state and moves a counter: a warning is absorbed in ANCHORED,
SUSPICIOUS lasts, or RECOVERING lasts with noise or with healthy blocks to wait for. -/
def Counts (k : Constants) (v : Vars) : Prop :=
  ¬ IsCriticalCondition k v ∧
    ((v.state = .anchored ∧ IsWarningCondition k v ∧
        v.unhealthyStreak + 1 < k.downHysteresisThreshold) ∨
      (v.state = .suspicious ∧
        ¬ (IsHealthyCondition k v ∧ v.suspiciousSafeBlocks + 1 ≥ k.suspiciousHysteresisWait)) ∨
      (v.state = .recovering ∧ ¬ IsHealthyCondition k v ∧
        v.unhealthyStreak + 1 < EffectiveDownHysteresisThreshold k v) ∨
      (v.state = .recovering ∧ IsHealthyCondition k v ∧ k.hysteresisWait ≠ 0 ∧
        ¬ (v.safeBlocks = k.hysteresisWait ∧ v.reanchoringProofValid = true)))

instance (k : Constants) (v : Vars) : Decidable (Counts k v) := inferInstanceAs (Decidable (_ ∧ _))

structure Fresh (c : Primed) : Prop where
  safeBlocks : c.safeBlocks = 0
  suspiciousSafeBlocks : c.suspiciousSafeBlocks = 0
  unhealthyStreak : c.unhealthyStreak = 0
  suspiciousDuration : c.suspiciousDuration = if c.state = .suspicious then 1 else 0

section OneStep

variable {k : Constants} {e : Environment}

private theorem fresh_of_change (fresh : Fresh e.combination) {target : FSMState}
    (changes : target ≠ e.state) : Fresh (executeTransition k e target).combination := by
  have left : ∀ home : FSMState, ¬ (target = home ∧ e.state = home) := by
    rintro home ⟨rfl, same⟩
    exact changes same.symm
  have duration := fresh.suspiciousDuration
  refine ⟨if_neg (left .recovering), if_neg (left .suspicious), if_neg ?_, ?_⟩
  · rintro (⟨here, there, _⟩ | ⟨here, there, _⟩)
    · exact changes (there.trans here.symm)
    · exact changes (there.trans here.symm)
  · change (if target = .suspicious then MinVal (e.suspiciousDuration + 1) _ else 0) =
      if target = .suspicious then 1 else 0
    by_cases entered : target = .suspicious
    · have outside : e.state ≠ .suspicious := fun inside => changes (entered.trans inside.symm)
      have zero : e.suspiciousDuration = 0 := duration.trans (if_neg outside)
      rw [if_pos entered, if_pos entered, zero, MinVal]
      split <;> omega
    · rw [if_neg entered, if_neg entered]

private theorem not_fresh_of_counts (fresh : Fresh e.combination) (counts : Counts k e.vars) :
    CalculateNextFSMState k e.vars = e.state ∧
      ¬ Fresh (executeTransition k e (CalculateNextFSMState k e.vars)).combination := by
  obtain ⟨calm, ⟨state, warning, spared⟩ | ⟨state, lasting⟩ | ⟨state, sick, spared⟩ |
    ⟨state, healthy, wait, locked⟩⟩ := counts
  · have target : CalculateNextFSMState k e.vars = .anchored := by
      rw [next_of_anchored state, if_neg calm, if_neg (by omega)]
    refine ⟨target.trans state.symm, fun fresh' => ?_⟩
    have counted := fresh'.unhealthyStreak
    rw [target] at counted
    change (if _ ∨ _ then _ else _) = 0 at counted
    rw [if_pos (.inl ⟨state, rfl, warning, calm⟩)] at counted
    omega
  · have target : CalculateNextFSMState k e.vars = .suspicious := by
      rw [next_of_suspicious state, if_neg calm, if_neg lasting]
    refine ⟨target.trans state.symm, fun fresh' => ?_⟩
    have counted := fresh'.suspiciousDuration
    have before : e.suspiciousDuration = 1 := fresh.suspiciousDuration.trans (if_pos state)
    rw [target] at counted
    change MinVal (e.suspiciousDuration + 1) (k.maxSuspiciousTime + 1) = 1 at counted
    have patient : ¬ e.suspiciousDuration ≥ k.maxSuspiciousTime :=
      fun exhausted => calm (.inr (.inr (.inr exhausted)))
    rw [MinVal] at counted
    split at counted <;> omega
  · have target : CalculateNextFSMState k e.vars = .recovering := by
      rw [next_of_recovering state, if_neg calm, if_pos sick, if_neg (by omega)]
    refine ⟨target.trans state.symm, fun fresh' => ?_⟩
    have counted := fresh'.unhealthyStreak
    rw [target] at counted
    change (if _ ∨ _ then _ else _) = 0 at counted
    rw [if_pos (.inr ⟨state, rfl, sick, calm⟩)] at counted
    omega
  · have target : CalculateNextFSMState k e.vars = .recovering := by
      rw [next_of_recovering state, if_neg calm, if_neg (not_not.mpr healthy), if_neg locked]
    refine ⟨target.trans state.symm, fun fresh' => ?_⟩
    have counted := fresh'.safeBlocks
    rw [target] at counted
    change (if FSMState.recovering = .recovering ∧ e.state = .recovering then
      if IsHealthyCondition k e.vars then MinVal (e.safeBlocks + 1) k.hysteresisWait else _
      else 0) = 0 at counted
    rw [if_pos ⟨rfl, state⟩, if_pos healthy, MinVal] at counted
    split at counted <;> omega

private theorem guards_of_not_counts (quiet : ¬ Counts k e.vars)
    (stays : CalculateNextFSMState k e.vars = e.state) :
    e.state ≠ .suspicious ∧
      (e.state = .anchored → ¬ (IsWarningCondition k e.vars ∧ ¬ IsCriticalCondition k e.vars)) ∧
      (e.state = .recovering → IsHealthyCondition k e.vars ∧ k.hysteresisWait = 0) := by
  refine ⟨?_, ?_, ?_⟩
  · intro state
    rw [state, next_of_suspicious state] at stays
    split at stays
    · cases stays
    · rename_i calm
      split at stays
      · cases stays
      · rename_i lasting
        exact quiet ⟨calm, .inr (.inl ⟨state, lasting⟩)⟩
  · rintro state ⟨warning, calm⟩
    rw [state, next_of_anchored state, if_neg calm] at stays
    split at stays
    · cases stays
    · rename_i spared
      refine quiet ⟨calm, .inl ⟨state, warning, ?_⟩⟩
      by_contra reached
      exact spared ⟨warning, by omega⟩
  · intro state
    rw [state, next_of_recovering state] at stays
    split at stays
    · cases stays
    · rename_i calm
      split at stays
      · rename_i sick
        split at stays
        · cases stays
        · rename_i spared
          exact absurd ⟨calm, .inr (.inr (.inl ⟨state, sick, by omega⟩))⟩ quiet
      · rename_i well
        have healthy := not_not.mp well
        split at stays
        · cases stays
        · rename_i locked
          refine ⟨healthy, ?_⟩
          by_contra wait
          exact quiet ⟨calm, .inr (.inr (.inr ⟨state, healthy, wait, locked⟩))⟩

private theorem executeTransition_eq_self {target : FSMState}
    (same : ExecuteFSMTransition k e.vars target = e.combination) :
    executeTransition k e target = e := by
  unfold executeTransition
  simp only [same]
  rfl

private theorem kept_of_not_counts (fresh : Fresh e.combination) (quiet : ¬ Counts k e.vars)
    (stays : CalculateNextFSMState k e.vars = e.state) :
    executeTransition k e (CalculateNextFSMState k e.vars) = e := by
  obtain ⟨outside, unwarned, settled⟩ := guards_of_not_counts quiet stays
  obtain ⟨safe, suspiciousSafe, streak, duration⟩ := fresh
  have streak' : ¬ ((e.state = .anchored ∧ e.state = .anchored ∧ IsWarningCondition k e.vars ∧
        ¬ IsCriticalCondition k e.vars) ∨
      (e.state = .recovering ∧ e.state = .recovering ∧ ¬ IsHealthyCondition k e.vars ∧
        ¬ IsCriticalCondition k e.vars)) := by
    rintro (⟨state, _, warned⟩ | ⟨state, _, sick, _⟩)
    · exact unwarned state warned
    · exact sick (settled state).1
  rw [stays]
  apply executeTransition_eq_self
  unfold ExecuteFSMTransition
  congr 1
  · rw [if_neg outside]
    exact (duration.trans (if_neg outside)).symm
  · exact (if_neg streak').trans streak.symm
  · by_cases state : e.state = .recovering
    · simp [Environment.vars, state]
    · simp [Environment.vars, state]
  · refine Eq.trans ?_ safe.symm
    split
    · rename_i home
      obtain ⟨healthy, wait⟩ := settled home.1
      rw [if_pos healthy, wait, MinVal]
      rfl
    · rfl
  · exact (if_neg (fun home => outside home.1)).trans suspiciousSafe.symm

end OneStep

section Coverage

variable {Node : Type} [DecidableEq Node] {k : ServerConstants Node}
  {past : List (Move Environment SensorUpdate)} {now : Environment}

theorem combination_updateSensors (e : Environment) (u : SensorUpdate) :
    (UpdateSensors k e u).combination = e.combination := by
  obtain ⟨state, duration, streak, failed, safe, suspiciousSafe⟩ :
      (UpdateSensors k e u).state = e.state ∧
      (UpdateSensors k e u).suspiciousDuration = e.suspiciousDuration ∧
      (UpdateSensors k e u).unhealthyStreak = e.unhealthyStreak ∧
      (UpdateSensors k e u).failedRecoveryAttempts = e.failedRecoveryAttempts ∧
      (UpdateSensors k e u).safeBlocks = e.safeBlocks ∧
      (UpdateSensors k e u).suspiciousSafeBlocks = e.suspiciousSafeBlocks := by
    obtain ⟨btc, da, p2p⟩ := u
    cases da <;> cases p2p <;>
      simp only [UpdateSensors, UpdateP2PHealthSensor, UpdateDASensor, UpdateBTCSensor, and_self]
  unfold Environment.combination
  rw [state, duration, streak, failed, safe, suspiciousSafe]

private theorem fresh_initial : Fresh (FSMInit k).combination := ⟨rfl, rfl, rfl, rfl⟩

theorem FSMReachable.fresh {e : Environment} (reachable : FSMReachable k e) :
    Fresh e.combination := by
  induction reachable with
  | refl => exact fresh_initial
  | tail _ step ih =>
      cases step with
      | updateSensors u =>
          rw [combination_updateSensors]
          exact ih
      | transition changes => exact fresh_of_change ih changes
      | stutter _ kept _ =>
          rw [kept]
          exact ih

private theorem reachable_of_quiet (run : BlockRun k past now)
    (quiet : ∀ m ∈ past, ¬ Counts k.toConstants (UpdateSensors k m.source m.input).vars) :
    FSMReachable k now := by
  induction run with
  | initial => exact .refl
  | @extend past e next u before taken ih =>
      obtain rfl := Option.some.inj taken
      have reachable := ih (fun m member => quiet m (List.mem_cons_of_mem _ member))
      have updated := reachable.tail (.updateSensors e u)
      by_cases stays : CalculateNextFSMState k.toConstants (UpdateSensors k e u).vars =
          (UpdateSensors k e u).state
      · rw [blockStep, kept_of_not_counts (FSMReachable.fresh updated)
          (quiet _ List.mem_cons_self) stays]
        exact updated
      · exact updated.tail (.transition _ stays)

private theorem fresh_of_covered (run : BlockRun k past now)
    (covered : ∀ m ∈ past, BlockCovered k m) : Fresh now.combination := by
  cases run with
  | initial => exact fresh_initial
  | extend _ _ =>
      obtain ⟨e, reachable, same⟩ := (covered _ List.mem_cons_self).reached
      rw [show now.combination = e.combination from same.symm]
      exact reachable.fresh

/-- Every block of a run is covered by `FSMSpec` exactly when no block counts. -/
theorem fsmSpec_covers_iff (run : BlockRun k past now) :
    (∀ m ∈ past, BlockCovered k m) ↔
      ∀ m ∈ past, ¬ Counts k.toConstants (UpdateSensors k m.source m.input).vars := by
  constructor
  · intro covered m member counts
    obtain ⟨newer, older, rfl, before, taken⟩ := run.cut_of_mem member
    have source : Fresh m.source.combination := fresh_of_covered before
      (fun x listed => covered x (List.mem_append_right _ (List.mem_cons_of_mem _ listed)))
    have updated : Fresh (UpdateSensors k m.source m.input).combination := by
      rw [combination_updateSensors]
      exact source
    obtain ⟨_, stale⟩ := not_fresh_of_counts updated counts
    obtain ⟨e, reachable, same⟩ := (covered m member).reached
    have target : m.target = blockStep k m.source m.input := (Option.some.inj taken).symm
    rw [target] at same
    exact stale (same ▸ reachable.fresh)
  · intro quiet m member
    obtain ⟨newer, older, rfl, before, taken⟩ := run.cut_of_mem member
    have target : m.target = blockStep k m.source m.input := (Option.some.inj taken).symm
    have reachable : FSMReachable k m.source := reachable_of_quiet before
      (fun x listed => quiet x (List.mem_append_right _ (List.mem_cons_of_mem _ listed)))
    have updated := reachable.tail (.updateSensors m.source m.input)
    have next : FSMReachable k m.target := by
      have longer := before.extend taken
      exact reachable_of_quiet longer (fun x listed => quiet x (List.mem_append_right _ listed))
    refine ⟨⟨_, next, rfl⟩, fun changed => ?_⟩
    have changes : CalculateNextFSMState k.toConstants (UpdateSensors k m.source m.input).vars ≠
        (UpdateSensors k m.source m.input).state := by
      intro stays
      apply changed
      rw [target]
      change CalculateNextFSMState k.toConstants (UpdateSensors k m.source m.input).vars = _
      rw [stays]
      exact congrArg Primed.state (combination_updateSensors m.source m.input)
    exact ⟨_, _, updated, .transition _ changes, combination_updateSensors _ _, by rw [target]; rfl⟩

/-- With every counter at zero the three waits can only be passed when they are trivial. -/
theorem fsmSpec_edges {e : Environment} (reachable : FSMReachable k e) :
    (e.state = .anchored → CalculateNextFSMState k.toConstants e.vars = .suspicious →
      k.downHysteresisThreshold ≤ 1) ∧
    (e.state = .suspicious → CalculateNextFSMState k.toConstants e.vars = .anchored →
      k.suspiciousHysteresisWait ≤ 1) ∧
    (e.state = .recovering → CalculateNextFSMState k.toConstants e.vars = .anchored →
      k.hysteresisWait = 0) := by
  have fresh := reachable.fresh
  refine ⟨?_, ?_, ?_⟩
  · intro state next
    have streak : e.vars.unhealthyStreak = 0 := fresh.unhealthyStreak
    rw [next_of_anchored (v := e.vars) state] at next
    split_ifs at next with _ warned
    omega
  · intro state next
    have safe : e.vars.suspiciousSafeBlocks = 0 := fresh.suspiciousSafeBlocks
    rw [next_of_suspicious (v := e.vars) state] at next
    split_ifs at next with _ waited
    omega
  · intro state next
    have safe : e.vars.safeBlocks = 0 := fresh.safeBlocks
    rw [next_of_recovering (v := e.vars) state] at next
    split_ifs at next with _ _ _ opened
    omega

end Coverage

section Configuration

/-- The constants of `MC_FSMSafety`; the FSM reads nothing of the network. -/
def safetyConstants : ServerConstants Unit where
  suspiciousThreshold := 2
  sovereignThreshold := 4
  daThreshold := 2
  hysteresisWait := 2
  minPeers := 3
  minSubnetDiversity := 2
  minAnchorPeers := 1
  maxChurnRate := 10
  minAvgTenure := 100
  maxPeerLatency := 50
  maxSuspiciousTime := 2
  downHysteresisThreshold := 2
  maxDownHysteresisThreshold := 8
  suspiciousHysteresisWait := 2
  system := ⟨{()}, ∅, 0, by decide, by decide, by decide⟩
  maxRound := 0
  proposer := fun _ => ()
  maxTimestamp := 0
  minTimestamp := 0
  delay := 0
  precision := 0
  timeoutDuration := 0
  maxIgnoreRounds := 0
  maxCensorshipRounds := 0

/-- Bitcoin and data availability quiet, peers as given. -/
def peersOnly (p2p : P2PUpdate) : SensorUpdate := ⟨⟨false, false, false⟩, .normal false, p2p⟩

/-- A critical block and a healthy one after it count nothing and are covered. -/
theorem fsmSpec_covers_hijack : ∃ past now, BlockRun safetyConstants past now ∧
    now.state = .recovering ∧ ∀ m ∈ past, BlockCovered safetyConstants m := by
  obtain ⟨past, now, run, passed⟩ := exists_run_of_replayPasses
    (fun e u => some (blockStep safetyConstants e u)) (FSMInit safetyConstants)
    [peersOnly .bgpHijackingAttack, peersOnly .normal]
    (fun past now => decide (now.state = .recovering ∧ ∀ m ∈ past, ¬ Counts
      safetyConstants.toConstants (UpdateSensors safetyConstants m.source m.input).vars))
    (by decide +kernel)
  obtain ⟨recovering, quiet⟩ := of_decide_eq_true passed
  exact ⟨past, now, run, recovering, (fsmSpec_covers_iff run).mpr quiet⟩

/-- One relay attack is absorbed in ANCHORED with a streak of one, and no run of
`FSMSpec` reaches that combination. -/
theorem absorbed_warning_uncovered : ∃ past now, BlockRun safetyConstants past now ∧
    now.state = .anchored ∧ now.unhealthyStreak = 1 ∧
    (¬ ∃ e, FSMReachable safetyConstants e ∧ e.combination = now.combination) ∧
    ¬ ∀ m ∈ past, BlockCovered safetyConstants m := by
  obtain ⟨m, older, now, run, passed⟩ := exists_run_of_newestPasses
    (fun e u => some (blockStep safetyConstants e u)) (FSMInit safetyConstants)
    [peersOnly .relayNodeAttack]
    (fun m _ => decide (m.target.state = .anchored ∧ m.target.unhealthyStreak = 1))
    (by decide +kernel)
  obtain ⟨state, streak⟩ := of_decide_eq_true passed
  obtain rfl : m.target = now := by
    cases run with
    | extend _ _ => rfl
  have unreached : ¬ ∃ e, FSMReachable safetyConstants e ∧
      e.combination = m.target.combination := by
    rintro ⟨e, reachable, same⟩
    have zero := reachable.fresh.unhealthyStreak
    rw [same] at zero
    exact absurd (streak.symm.trans zero) (by decide)
  exact ⟨_, _, run, state, streak, unreached, fun covered =>
    unreached (covered m List.mem_cons_self).reached⟩

end Configuration

end Engram.Spec.Server
