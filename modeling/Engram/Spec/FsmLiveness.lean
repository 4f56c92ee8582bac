import Engram.Spec.FsmCoverage
import Engram.Library.Temporal

/-!
The liveness properties of `EngramFSM.tla` under the fairness of
`MC_FSMLiveness.tla`: the transition of the rule engine is weakly fair, the
sensors are not constrained at all.
-/

set_option autoImplicit false
set_option relaxedAutoImplicit false

namespace Engram.Spec.Server

open Engram.Types Engram.Library

section Harness

variable (k : Constants)

/-- The rule engine's step, when it changes the state or a counter. -/
def MC_FSMTransition (e e' : Environment) : Prop :=
  e' = executeTransition k e (CalculateNextFSMState k e.vars) ∧ e'.combination ≠ e.combination

/-- The sensors move and the FSM does not. -/
def MC_FSMUpdateSensors (e e' : Environment) : Prop :=
  e'.combination = e.combination ∧ e'.reanchoringProofValid = e.reanchoringProofValid

/-- The sensors and the proof flag move: the step of `MC_FSMUpdateSensors`, of
`MC_GenerateZKProof` and of `UpdateSensors`. -/
def SensorsAndProof (e e' : Environment) : Prop := e'.combination = e.combination

def MC_FSMLivenessNext (sensors : Environment → Environment → Prop) (e e' : Environment) : Prop :=
  MC_FSMTransition k e e' ∨ sensors e e'

/-- A fair behaviour with the given sensor steps; the first readings are open. -/
structure FairBehaviour (sensors : Environment → Environment → Prop) (run : ℕ → Environment) :
    Prop where
  init : (run 0).combination = ⟨.anchored, 0, 0, 0, 0, 0⟩ ∧
    (run 0).reanchoringProofValid = false
  next : ∀ n, MC_FSMLivenessNext k sensors (run n) (run (n + 1))
  fair : WeaklyFair (MC_FSMTransition k) run

def CircuitBreakerLiveness (run : ℕ → Environment) : Prop :=
  LeadsTo (fun e => IsCriticalCondition k e.vars)
    (fun e => e.state = .sovereign ∨ ¬ IsCriticalCondition k e.vars) run

def RecoveryAttemptLiveness (run : ℕ → Environment) : Prop :=
  LeadsTo (fun e => e.state = .sovereign ∧ IsHealthyCondition k e.vars)
    (fun e => e.state = .recovering ∨ ¬ IsHealthyCondition k e.vars) run

def CompleteRecoveryLiveness (run : ℕ → Environment) : Prop :=
  LeadsTo (fun e => e.state = .recovering ∧ e.reanchoringProofValid = true ∧
      IsHealthyCondition k e.vars)
    (fun e => e.state = .anchored ∨ ¬ IsHealthyCondition k e.vars ∨
      ¬ e.reanchoringProofValid = true) run

/-- SUSPICIOUS is left, whatever the sensors do. -/
def SuspicionResolved (run : ℕ → Environment) : Prop :=
  LeadsTo (fun e => e.state = .suspicious)
    (fun e => e.state = .sovereign ∨ e.state = .anchored) run

end Harness

/-- What every behaviour keeps: a named state and bounded counters. -/
structure FSMBounded (k : Constants) (e : Environment) : Prop where
  named : e.state = .anchored ∨ e.state = .suspicious ∨ e.state = .sovereign ∨
    e.state = .recovering
  duration : e.state ≠ .suspicious → e.suspiciousDuration = 0
  safeBlocks : e.safeBlocks ≤ k.hysteresisWait

section Steps

variable {k : Constants} {e e' : Environment}

theorem MC_FSMTransition.frame (taken : MC_FSMTransition k e e') :
    (IsHealthyCondition k e'.vars ↔ IsHealthyCondition k e.vars) ∧
      e'.reanchoringProofValid = e.reanchoringProofValid := by
  rw [taken.1]
  exact ⟨Iff.rfl, rfl⟩

private theorem enabled_of_ne
    (changes : (executeTransition k e (CalculateNextFSMState k e.vars)).combination ≠
      e.combination) : Enabled (MC_FSMTransition k) e := ⟨_, rfl, changes⟩

private theorem enabled_of_state_ne (changes : CalculateNextFSMState k e.vars ≠ e.state) :
    Enabled (MC_FSMTransition k) e :=
  enabled_of_ne fun same => changes (congrArg Primed.state same)

theorem FSMBounded.sensors (bounded : FSMBounded k e) (moved : SensorsAndProof e e') :
    FSMBounded k e' := by
  have state : e'.state = e.state := congrArg Primed.state moved
  have duration : e'.suspiciousDuration = e.suspiciousDuration :=
    congrArg Primed.suspiciousDuration moved
  have safeBlocks : e'.safeBlocks = e.safeBlocks := congrArg Primed.safeBlocks moved
  refine ⟨?_, ?_, ?_⟩
  · rw [state]
    exact bounded.named
  · rw [state, duration]
    exact bounded.duration
  · rw [safeBlocks]
    exact bounded.safeBlocks

private theorem named_next (named : e.state = .anchored ∨ e.state = .suspicious ∨
    e.state = .sovereign ∨ e.state = .recovering) :
    let target := CalculateNextFSMState k e.vars
    target = .anchored ∨ target = .suspicious ∨ target = .sovereign ∨ target = .recovering := by
  intro target
  have unfolded : target = CalculateNextFSMState k e.vars := rfl
  rcases named with state | state | state | state
  · rw [next_of_anchored (v := e.vars) state] at unfolded
    split_ifs at unfolded <;> simp [unfolded]
  · rw [next_of_suspicious (v := e.vars) state] at unfolded
    split_ifs at unfolded <;> simp [unfolded]
  · rw [next_of_sovereign (v := e.vars) state] at unfolded
    split_ifs at unfolded <;> simp [unfolded]
  · rw [next_of_recovering (v := e.vars) state] at unfolded
    split_ifs at unfolded <;> simp [unfolded]

private theorem safeBlocks_le_of_executed {v : Vars} {target : FSMState}
    (bounded : v.safeBlocks ≤ k.hysteresisWait) :
    (ExecuteFSMTransition k v target).safeBlocks ≤ k.hysteresisWait := by
  simp only [ExecuteFSMTransition, MinVal]
  split_ifs <;> omega

theorem FSMBounded.transition (bounded : FSMBounded k e) (taken : MC_FSMTransition k e e') :
    FSMBounded k e' := by
  rw [taken.1]
  refine ⟨named_next bounded.named, ?_, ?_⟩
  · intro left
    exact if_neg left
  · exact safeBlocks_le_of_executed bounded.safeBlocks

private theorem recovery_progress (bounded : FSMBounded k e) (state : e.state = .recovering)
    (proven : e.reanchoringProofValid = true) (healthy : IsHealthyCondition k e.vars)
    (calm : ¬ IsCriticalCondition k e.vars) :
    let moved := executeTransition k e (CalculateNextFSMState k e.vars)
    moved.state = .anchored ∨ moved.state = .recovering ∧ e.safeBlocks < k.hysteresisWait ∧
      moved.safeBlocks = e.safeBlocks + 1 := by
  intro moved
  have target := next_of_recovering (k := k) (v := e.vars) state
  rw [if_neg calm, if_neg (not_not.mpr healthy)] at target
  by_cases waited : e.safeBlocks = k.hysteresisWait
  · exact .inl (target.trans (if_pos ⟨waited, proven⟩))
  · have stays : CalculateNextFSMState k e.vars = .recovering :=
      target.trans (if_neg (fun complete => waited complete.1))
    have below := lt_of_le_of_ne bounded.safeBlocks waited
    have saved : moved.safeBlocks = MinVal (e.safeBlocks + 1) k.hysteresisWait := by
      change (ExecuteFSMTransition k e.vars _).safeBlocks = _
      simp only [ExecuteFSMTransition]
      rw [if_pos ⟨stays, state⟩, if_pos healthy]
      rfl
    refine .inr ⟨stays, below, saved.trans ?_⟩
    unfold MinVal
    split_ifs <;> omega

private theorem suspicion_progress (state : e.state = .suspicious) :
    let moved := executeTransition k e (CalculateNextFSMState k e.vars)
    (moved.state = .sovereign ∨ moved.state = .anchored) ∨
      moved.state = .suspicious ∧ e.suspiciousDuration < k.maxSuspiciousTime ∧
        moved.suspiciousDuration = e.suspiciousDuration + 1 := by
  intro moved
  have target := next_of_suspicious (k := k) (v := e.vars) state
  by_cases critical : IsCriticalCondition k e.vars
  · exact .inl (.inl (target.trans (if_pos critical)))
  · rw [if_neg critical] at target
    by_cases calmed : IsHealthyCondition k e.vars ∧
        e.vars.suspiciousSafeBlocks + 1 ≥ k.suspiciousHysteresisWait
    · exact .inl (.inr (target.trans (if_pos calmed)))
    · have stays : CalculateNextFSMState k e.vars = .suspicious := target.trans (if_neg calmed)
      have patient : e.suspiciousDuration < k.maxSuspiciousTime := by
        by_contra exhausted
        exact critical (.inr (.inr (.inr (not_lt.mp exhausted))))
      have counted : moved.suspiciousDuration =
          MinVal (e.suspiciousDuration + 1) (k.maxSuspiciousTime + 1) := if_pos stays
      refine .inr ⟨stays, patient, counted.trans ?_⟩
      unfold MinVal
      split_ifs <;> omega

private theorem next_of_critical (bounded : FSMBounded k e)
    (critical : IsCriticalCondition k e.vars)
    (open_ : e.state ≠ .sovereign) : CalculateNextFSMState k e.vars = .sovereign := by
  rcases bounded.named with state | state | state | state
  · exact (next_of_anchored (v := e.vars) state).trans (if_pos critical)
  · exact (next_of_suspicious (v := e.vars) state).trans (if_pos critical)
  · exact absurd state open_
  · exact (next_of_recovering (v := e.vars) state).trans (if_pos critical)

end Steps

section Liveness

variable {k : Constants} {sensors : Environment → Environment → Prop} {run : ℕ → Environment}

theorem FairBehaviour.bounded (behaves : FairBehaviour k sensors run)
    (within : ∀ e e', sensors e e' → SensorsAndProof e e') (n : ℕ) : FSMBounded k (run n) := by
  refine always_of_steps behaves.next ?_ ?_ n
  · have state : (run 0).state = .anchored := congrArg Primed.state behaves.init.1
    have duration : (run 0).suspiciousDuration = 0 :=
      congrArg Primed.suspiciousDuration behaves.init.1
    have safeBlocks : (run 0).safeBlocks = 0 := congrArg Primed.safeBlocks behaves.init.1
    exact ⟨.inl state, fun _ => duration, by omega⟩
  · rintro e e' bounded (taken | moved)
    · exact bounded.transition taken
    · exact bounded.sensors (within _ _ moved)

private theorem FairBehaviour.circuitBreaker (behaves : FairBehaviour k sensors run)
    (within : ∀ e e', sensors e e' → SensorsAndProof e e') : CircuitBreakerLiveness k run := by
  refine LeadsTo.of_unmet (behaves.bounded within)
    (behaves.fair.leadsTo_of_helps behaves.next ?_ ?_ ?_)
  · rintro e e' ⟨_, _, bounded⟩ step
    by_cases met : e'.state = .sovereign ∨ ¬ IsCriticalCondition k e'.vars
    · exact .inl met
    · refine .inr ⟨not_not.mp (not_or.mp met).2, met, ?_⟩
      rcases step with taken | moved
      · exact bounded.transition taken
      · exact bounded.sensors (within _ _ moved)
  · rintro e e' ⟨critical, unmet, bounded⟩ taken
    left
    rw [taken.1]
    exact next_of_critical bounded critical (not_or.mp unmet).1
  · rintro e ⟨critical, unmet, bounded⟩
    apply enabled_of_state_ne
    rw [next_of_critical bounded critical (not_or.mp unmet).1]
    exact Ne.symm (not_or.mp unmet).1

private theorem FairBehaviour.recoveryAttempt (behaves : FairBehaviour k sensors run)
    (within : ∀ e e', sensors e e' → SensorsAndProof e e') : RecoveryAttemptLiveness k run := by
  have target : ∀ e : Environment, e.state = .sovereign → IsHealthyCondition k e.vars →
      CalculateNextFSMState k e.vars = .recovering := by
    intro e state healthy
    exact (next_of_sovereign (v := e.vars) state).trans (if_pos healthy)
  refine behaves.fair.leadsTo_of_helps behaves.next ?_ ?_ ?_
  · rintro e e' ⟨state, healthy⟩ (taken | moved)
    · left
      left
      rw [taken.1]
      exact target e state healthy
    · by_cases healthy' : IsHealthyCondition k e'.vars
      · exact .inr ⟨(congrArg Primed.state (within _ _ moved)).trans state, healthy'⟩
      · exact .inl (.inr healthy')
  · rintro e e' ⟨state, healthy⟩ taken
    left
    rw [taken.1]
    exact target e state healthy
  · rintro e ⟨state, healthy⟩
    apply enabled_of_state_ne
    rw [target e state healthy, state]
    decide

private theorem FairBehaviour.suspicionResolved (behaves : FairBehaviour k sensors run)
    (within : ∀ e e', sensors e e' → SensorsAndProof e e') : SuspicionResolved run := by
  have helps : ∀ e e', e.state = .suspicious → MC_FSMTransition k e e' →
      (e'.state = .sovereign ∨ e'.state = .anchored) ∨ e'.state = .suspicious ∧
        k.maxSuspiciousTime - e'.suspiciousDuration <
          k.maxSuspiciousTime - e.suspiciousDuration := by
    intro e e' state taken
    rw [taken.1]
    refine (suspicion_progress (k := k) state).imp_right ?_
    rintro ⟨stays, patient, counted⟩
    exact ⟨stays, by omega⟩
  refine behaves.fair.leadsTo (fun e => k.maxSuspiciousTime - e.suspiciousDuration)
    behaves.next ?_ helps ?_
  · rintro e e' state (taken | moved)
    · exact (helps e e' state taken).imp_right (fun progress => ⟨progress.1, progress.2.le⟩)
    · have duration : e'.suspiciousDuration = e.suspiciousDuration :=
        congrArg Primed.suspiciousDuration (within _ _ moved)
      exact .inr ⟨(congrArg Primed.state (within _ _ moved)).trans state, by omega⟩
  · intro e state
    apply enabled_of_ne
    intro same
    have kept : (executeTransition k e (CalculateNextFSMState k e.vars)).state = .suspicious :=
      (congrArg Primed.state same).trans state
    have duration : (executeTransition k e (CalculateNextFSMState k e.vars)).suspiciousDuration =
        e.suspiciousDuration := congrArg Primed.suspiciousDuration same
    rcases suspicion_progress (k := k) state with (left_ | left_) | ⟨_, _, counted⟩
    · exact absurd (kept.symm.trans left_) (by decide)
    · exact absurd (kept.symm.trans left_) (by decide)
    · omega

private theorem FairBehaviour.completeRecovery (behaves : FairBehaviour k sensors run)
    (within : ∀ e e', sensors e e' → SensorsAndProof e e')
    (calm : ∀ e : Environment, IsHealthyCondition k e.vars → e.suspiciousDuration = 0 →
      ¬ IsCriticalCondition k e.vars) : CompleteRecoveryLiveness k run := by
  have progress : ∀ e, e.state = .recovering → e.reanchoringProofValid = true →
      IsHealthyCondition k e.vars → FSMBounded k e →
      let moved := executeTransition k e (CalculateNextFSMState k e.vars)
      moved.state = .anchored ∨ moved.state = .recovering ∧ e.safeBlocks < k.hysteresisWait ∧
        moved.safeBlocks = e.safeBlocks + 1 := by
    intro e state proven healthy bounded
    have duration := bounded.duration (by rw [state]; decide)
    exact recovery_progress bounded state proven healthy (calm e healthy duration)
  refine LeadsTo.of_unmet (behaves.bounded within)
    (behaves.fair.leadsTo (fun e => k.hysteresisWait - e.safeBlocks) behaves.next ?_ ?_ ?_)
  · rintro e e' ⟨⟨state, proven, healthy⟩, unmet, bounded⟩ step
    by_cases met : e'.state = .anchored ∨ ¬ IsHealthyCondition k e'.vars ∨
        ¬ e'.reanchoringProofValid = true
    · exact .inl met
    · obtain ⟨_, healthy', proven'⟩ := by simpa only [not_or, not_not] using met
      rcases step with taken | moved
      · have bounded' := bounded.transition taken
        rw [taken.1] at met bounded' ⊢
        rcases progress e state proven healthy bounded with closed | ⟨stays, below, saved⟩
        · exact .inl (.inl closed)
        · exact .inr ⟨⟨⟨stays, proven, healthy⟩, met, bounded'⟩, by omega⟩
      · have kept : e'.safeBlocks = e.safeBlocks :=
          congrArg Primed.safeBlocks (within _ _ moved)
        have state' := (congrArg Primed.state (within _ _ moved)).trans state
        exact .inr ⟨⟨⟨state', proven', healthy'⟩, met, bounded.sensors (within _ _ moved)⟩,
          by omega⟩
  · rintro e e' ⟨⟨state, proven, healthy⟩, _, bounded⟩ taken
    have bounded' := bounded.transition taken
    rw [taken.1] at bounded' ⊢
    rcases progress e state proven healthy bounded with closed | ⟨stays, below, saved⟩
    · exact .inl (.inl closed)
    · refine .inr ⟨⟨⟨stays, proven, healthy⟩, ?_, bounded'⟩, by omega⟩
      rintro (closed | sick | unproven)
      · exact absurd (stays.symm.trans closed) (by decide)
      · exact sick healthy
      · exact unproven proven
  · rintro e ⟨⟨state, proven, healthy⟩, _, bounded⟩
    apply enabled_of_ne
    intro same
    have kept : (executeTransition k e (CalculateNextFSMState k e.vars)).state = .recovering :=
      (congrArg Primed.state same).trans state
    have waited : (executeTransition k e (CalculateNextFSMState k e.vars)).safeBlocks =
        e.safeBlocks := congrArg Primed.safeBlocks same
    rcases progress e state proven healthy bounded with closed | ⟨_, _, saved⟩
    · exact absurd (kept.symm.trans closed) (by decide)
    · omega

end Liveness

/-! A healthy reading that is critical as well sends every recovery back. -/

section Stuck

variable {k : Constants} {e : Environment}

structure Stuck (k : Constants) (e : Environment) : Prop where
  healthy : IsHealthyCondition k e.vars
  critical : IsCriticalCondition k e.vars
  proven : e.reanchoringProofValid = true
  state : e.state = .anchored ∨ e.state = .sovereign ∨ e.state = .recovering
  duration : e.suspiciousDuration = 0

def engineStep (k : Constants) (e : Environment) : Environment :=
  executeTransition k e (CalculateNextFSMState k e.vars)

theorem Stuck.next (stuck : Stuck k e) : (engineStep k e).state =
    if e.state = .sovereign then .recovering else .sovereign := by
  change CalculateNextFSMState k e.vars = _
  rcases stuck.state with state | state | state
  · rw [next_of_anchored (v := e.vars) state, if_pos stuck.critical, state]
    rfl
  · rw [next_of_sovereign (v := e.vars) state, if_pos stuck.healthy, if_pos state]
  · rw [next_of_recovering (v := e.vars) state, if_pos stuck.critical, state]
    rfl

theorem Stuck.transition (stuck : Stuck k e) : Stuck k (engineStep k e) := by
  have state := stuck.next
  have duration : (engineStep k e).suspiciousDuration = 0 := by
    refine if_neg fun left => ?_
    have target : (engineStep k e).state = .suspicious := left
    rw [state] at target
    split at target <;> cases target
  refine ⟨stuck.healthy, ?_, stuck.proven, ?_, duration⟩
  · obtain gap | failed | isolated | exhausted := stuck.critical
    · exact .inl gap
    · exact .inr (.inl failed)
    · exact .inr (.inr (.inl isolated))
    · refine .inr (.inr (.inr ?_))
      have old := stuck.duration
      change e.suspiciousDuration ≥ _ at exhausted
      change (engineStep k e).suspiciousDuration ≥ _
      omega
  · rw [state]
    split
    · exact .inr (.inr rfl)
    · exact .inr (.inl rfl)

theorem Stuck.taken (stuck : Stuck k e) : MC_FSMTransition k e (engineStep k e) := by
  refine ⟨rfl, fun same => ?_⟩
  have kept : (engineStep k e).state = e.state := congrArg Primed.state same
  rw [stuck.next] at kept
  split at kept
  · rename_i sovereign
    exact absurd (kept.trans sovereign) (by decide)
  · rename_i elsewhere
    exact elsewhere kept.symm

def stuckRun (k : Constants) (e : Environment) : ℕ → Environment
  | 0 =>
      { e with
        state := .anchored
        safeBlocks := 0
        suspiciousDuration := 0
        suspiciousSafeBlocks := 0
        unhealthyStreak := 0
        failedRecoveryAttempts := 0
        reanchoringProofValid := false }
  | 1 => { stuckRun k e 0 with reanchoringProofValid := true }
  | n + 2 => engineStep k (stuckRun k e (n + 1))

private theorem stuck_stuckRun (healthy : IsHealthyCondition k e.vars)
    (duration : e.suspiciousDuration = 0) (critical : IsCriticalCondition k e.vars) (n : ℕ) :
    Stuck k (stuckRun k e (n + 1)) := by
  induction n with
  | zero =>
      refine ⟨healthy, ?_, rfl, .inl rfl, rfl⟩
      obtain gap | failed | isolated | exhausted := critical
      · exact .inl gap
      · exact .inr (.inl failed)
      · exact .inr (.inr (.inl isolated))
      · refine .inr (.inr (.inr ?_))
        change e.suspiciousDuration ≥ _ at exhausted
        change 0 ≥ _
        omega
  | succ n ih => exact ih.transition

private theorem not_completeRecovery_of_stuck (healthy : IsHealthyCondition k e.vars)
    (duration : e.suspiciousDuration = 0) (critical : IsCriticalCondition k e.vars) :
    FairBehaviour k SensorsAndProof (stuckRun k e) ∧
      ¬ CompleteRecoveryLiveness k (stuckRun k e) := by
  have stuck := stuck_stuckRun healthy duration critical
  refine ⟨⟨⟨rfl, rfl⟩, ?_, ?_⟩, ?_⟩
  · intro n
    cases n with
    | zero => exact .inr rfl
    | succ n => exact .inl (stuck n).taken
  · intro n _
    exact ⟨n + 1, Nat.le_succ n, (stuck n).taken⟩
  · intro completes
    have sovereign : (stuckRun k e 2).state = .sovereign := (stuck 0).next
    have recovering : (stuckRun k e 3).state = .recovering :=
      (stuck 1).next.trans (if_pos sovereign)
    obtain ⟨m, later, reached⟩ := completes 3 ⟨recovering, (stuck 2).proven, (stuck 2).healthy⟩
    obtain ⟨n, rfl⟩ : ∃ n, m = n + 2 := ⟨m - 2, by omega⟩
    rcases reached with anchored | sick | unproven
    · have locked := (stuck n).next
      change (stuckRun k e (n + 2)).state = _ at locked
      rw [anchored] at locked
      split at locked <;> cases locked
    · exact sick (stuck (n + 1)).healthy
    · exact unproven (stuck (n + 1)).proven

end Stuck

/-- Under weak fairness of the rule engine and whatever the sensors do: a critical
condition trips the breaker or passes, a healed SOVEREIGN chain tries to recover,
SUSPICIOUS is always left; and a proven healthy recovery always completes exactly when no
healthy reading is critical. -/
theorem fsm_liveness (k : Constants) :
    (∀ run, FairBehaviour k SensorsAndProof run →
      CircuitBreakerLiveness k run ∧ RecoveryAttemptLiveness k run ∧ SuspicionResolved run) ∧
    ((∀ run, FairBehaviour k SensorsAndProof run → CompleteRecoveryLiveness k run) ↔
      ∀ e : Environment, IsHealthyCondition k e.vars → e.suspiciousDuration = 0 →
        ¬ IsCriticalCondition k e.vars) := by
  have within : ∀ e e', SensorsAndProof e e' → SensorsAndProof e e' := fun _ _ moved => moved
  refine ⟨fun run behaves => ?_, fun completes e healthy duration critical => ?_,
    fun calm run behaves => behaves.completeRecovery within calm⟩
  · exact ⟨behaves.circuitBreaker within, behaves.recoveryAttempt within,
      behaves.suspicionResolved within⟩
  · obtain ⟨behaves, stuck⟩ := not_completeRecovery_of_stuck healthy duration critical
    exact stuck (completes _ behaves)

def livenessConstants : Constants where
  suspiciousThreshold := 2
  sovereignThreshold := 4
  daThreshold := 2
  hysteresisWait := 2
  minPeers := 3
  minSubnetDiversity := 2
  minAnchorPeers := 1
  maxChurnRate := 10
  minAvgTenure := 100
  maxPeerLatency := 50
  maxSuspiciousTime := 2
  downHysteresisThreshold := 2
  maxDownHysteresisThreshold := 8
  suspiciousHysteresisWait := 2

theorem completeRecovery_checked {run : ℕ → Environment}
    (behaves : FairBehaviour livenessConstants SensorsAndProof run) :
    CompleteRecoveryLiveness livenessConstants run := by
  refine behaves.completeRecovery (fun _ _ moved => moved) ?_
  rintro e ⟨gap, _, verified, _, peers⟩ duration (critical | failed | isolated | exhausted)
  · exact gap critical
  · exact verified failed
  · have anchors : e.vars.activeAnchors ≥ 1 := peers.2.1
    omega
  · change e.suspiciousDuration ≥ 2 at exhausted
    omega

private theorem locked_of_unproven {k : Constants} {e : Environment}
    (unproven : e.reanchoringProofValid = false) (locked : withdrawLocked e.state = true) :
    withdrawLocked (CalculateNextFSMState k e.vars) = true := by
  cases state : e.state with
  | sovereign =>
      rw [next_of_sovereign (v := e.vars) state]
      split <;> rfl
  | recovering =>
      have flag : ¬ (e.vars.safeBlocks = k.hysteresisWait ∧ e.vars.reanchoringProofValid = true) :=
        fun complete => absurd (complete.2.symm.trans unproven) (by decide)
      rw [next_of_recovering (v := e.vars) state]
      split_ifs <;> rfl
  | _ => simp [state, withdrawLocked] at locked

/-- The model checked by `MC_FSMLiveness.tla` leaves `MC_GenerateZKProof` out: there
is never a proof, so the third property it checks holds of every behaviour without a
recovery ever completing, and a breaker that has tripped stays tripped. -/
theorem fsm_liveness_harness (k : Constants) {run : ℕ → Environment}
    (behaves : FairBehaviour k MC_FSMUpdateSensors run) :
    (∀ n, (run n).reanchoringProofValid = false) ∧ CompleteRecoveryLiveness k run ∧
      ∀ n m, n ≤ m → withdrawLocked (run n).state = true →
        withdrawLocked (run m).state = true := by
  have unproven : ∀ n, (run n).reanchoringProofValid = false := by
    refine always_of_steps (I := fun e => e.reanchoringProofValid = false) behaves.next
      behaves.init.2 ?_
    rintro e e' flag (taken | moved)
    · exact taken.frame.2.trans flag
    · exact moved.2.trans flag
  refine ⟨unproven, ?_, ?_⟩
  · rintro n ⟨_, proven, _⟩
    exact absurd (proven.symm.trans (unproven n)) (by decide)
  · intro n m later locked
    induction m, later using Nat.le_induction with
    | base => exact locked
    | succ m _ ih =>
        rcases behaves.next m with taken | moved
        · rw [taken.1]
          exact locked_of_unproven (unproven m) ih
        · rw [show (run (m + 1)).state = (run m).state from congrArg Primed.state moved.1]
          exact ih

def eclipsed (state : FSMState) : Environment where
  state := state
  safeBlocks := 0
  suspiciousDuration := 0
  suspiciousSafeBlocks := 0
  unhealthyStreak := 0
  failedRecoveryAttempts := 0
  reanchoringProofValid := false
  activePeers := {.sybilN1}
  anchorPeers := {.anchorN1, .anchorN2, .anchorN3}
  blacklistedPeers := ∅
  peerChurnRate := 0
  avgPeerTenure := 101
  peerLatency := 0
  hEngramCurrent := 0
  hEngramVerified := 0
  isAttestationFailed := false
  isDasFailed := false
  hBtcCurrent := 0
  hBtcSubmitted := 0
  hBtcAnchored := 0
  isBtcSpvFailed := false

def eclipsedRun : ℕ → Environment
  | 0 => eclipsed .anchored
  | _ + 1 => eclipsed .sovereign

theorem fsm_liveness_harness_eclipsed :
    FairBehaviour livenessConstants MC_FSMUpdateSensors eclipsedRun ∧
      ∀ m, 1 ≤ m → withdrawLocked (eclipsedRun m).state = true := by
  have settled : ¬ Enabled (MC_FSMTransition livenessConstants) (eclipsed .sovereign) := by
    rintro ⟨e', rfl, changes⟩
    exact changes (by decide)
  have behaves : FairBehaviour livenessConstants MC_FSMUpdateSensors eclipsedRun := by
    refine ⟨⟨rfl, rfl⟩, ?_, ?_⟩
    · intro n
      cases n with
      | zero => exact .inl ⟨rfl, by decide⟩
      | succ n => exact .inr ⟨rfl, rfl⟩
    · intro n enabled
      exact absurd (enabled (n + 1) (Nat.le_succ n)) settled
  refine ⟨behaves, fun m later => ?_⟩
  exact (fsm_liveness_harness livenessConstants behaves).2.2 1 m later rfl

end Engram.Spec.Server
