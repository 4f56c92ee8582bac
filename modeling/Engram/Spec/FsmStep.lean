import Engram.Fsm.Core
import Engram.Spec.EngramFSM

/-!
The keeper's FSM step computes the specified one. The specification counts over
unbounded integers and doubles by exponentiation; the keeper counts on 64-bit
words and doubles in a saturating loop.
-/

set_option autoImplicit false
set_option relaxedAutoImplicit false

namespace Engram.Spec

open Engram.Types Engram.Keeper Engram.Library.Word64

def constantsOf (p : Params) : Constants where
  suspiciousThreshold := p.suspiciousThreshold.toNat
  sovereignThreshold := p.sovereignThreshold.toNat
  daThreshold := p.daThreshold.toNat
  hysteresisWait := p.hysteresisWait.toNat
  minPeers := p.minPeers.toNat
  minSubnetDiversity := p.minSubnetDiversity.toNat
  minAnchorPeers := p.minAnchorPeers.toNat
  maxChurnRate := p.maxChurnRate.toNat
  minAvgTenure := p.minAvgTenure.toNat
  maxPeerLatency := p.maxPeerLatency.toNat
  maxSuspiciousTime := p.maxSuspiciousTime.toNat
  downHysteresisThreshold := p.downHysteresisThreshold.toNat
  maxDownHysteresisThreshold := p.maxDownHysteresisThreshold.toNat
  suspiciousHysteresisWait := p.suspiciousHysteresisWait.toNat

def varsOf (state : FSMState) (inp : FSMInput) : Vars where
  state := state
  btcGap := inp.metrics.btcGap.toNat
  isBtcSpvFailed := inp.metrics.isBtcSpvFailed
  daGap := inp.metrics.daGap.toNat
  isDasFailed := inp.metrics.isDasFailed
  isAttestationFailed := inp.metrics.isAttestationFailed
  subnetDiversity := inp.metrics.subnetDiversity.toNat
  activeAnchors := inp.metrics.activeAnchors.toNat
  cleanPeers := inp.metrics.cleanPeers.toNat
  peerChurnRate := inp.metrics.peerChurnRate.toNat
  avgPeerTenure := inp.metrics.avgPeerTenure.toNat
  peerLatency := inp.metrics.peerLatency.toNat
  safeBlocks := inp.safeBlocks.toNat
  suspiciousDuration := inp.suspiciousDuration.toNat
  suspiciousSafeBlocks := inp.suspiciousSafeBlocks.toNat
  unhealthyStreak := inp.unhealthyStreak.toNat
  failedRecoveryAttempts := inp.failedRecoveryAttempts.toNat
  reanchoringProofValid := inp.reanchoringProofValid

structure CountersSmall (inp : FSMInput) : Prop where
  safeBlocks : inp.safeBlocks.toNat < 2 ^ 62
  suspiciousDuration : inp.suspiciousDuration.toNat < 2 ^ 62
  suspiciousSafeBlocks : inp.suspiciousSafeBlocks.toNat < 2 ^ 62
  unhealthyStreak : inp.unhealthyStreak.toNat < 2 ^ 62
  failedRecoveryAttempts : inp.failedRecoveryAttempts.toNat < 2 ^ 62

section Predicates

variable (p : Params) (state : FSMState) (inp : FSMInput)

private theorem suspicious_gap_iff :
    isBTCGapSuspicious inp.metrics p = true ↔
      IsBTCGapSuspicious (constantsOf p) (varsOf state inp) := by
  simp [isBTCGapSuspicious, IsBTCGapSuspicious, constantsOf, varsOf, UInt64.le_iff_toNat_le,
    UInt64.lt_iff_toNat_lt]

private theorem sovereign_gap_iff :
    isBTCGapSovereign inp.metrics p = true ↔
      IsBTCGapSovereign (constantsOf p) (varsOf state inp) := by
  simp [isBTCGapSovereign, IsBTCGapSovereign, constantsOf, varsOf, UInt64.le_iff_toNat_le]

theorem btc_healthy_iff :
    isBTCHealthy inp.metrics p = true ↔ IsBTCHealthy (constantsOf p) (varsOf state inp) := by
  rw [IsBTCHealthy, ← suspicious_gap_iff, ← sovereign_gap_iff]
  simp [isBTCHealthy, varsOf, and_assoc]

theorem da_healthy_iff :
    isDAHealthy inp.metrics p = true ↔ IsDAHealthy (constantsOf p) (varsOf state inp) := by
  simp [isDAHealthy, IsDAHealthy, constantsOf, varsOf, UInt64.lt_iff_toNat_lt, and_assoc]

private theorem p2p_healthy_iff :
    isP2PQualityHealthy inp.metrics p = true ↔
      IsP2PQualityHealthy (constantsOf p) (varsOf state inp) := by
  simp [isP2PQualityHealthy, IsP2PQualityHealthy, constantsOf, varsOf, UInt64.le_iff_toNat_le,
    and_assoc]

private theorem critical_iff :
    isCriticalCondition inp.metrics p inp.suspiciousDuration = true ↔
      IsCriticalCondition (constantsOf p) (varsOf state inp) := by
  rw [IsCriticalCondition, ← sovereign_gap_iff]
  simp [isCriticalCondition, constantsOf, varsOf, UInt64.le_iff_toNat_le, or_assoc,
    ← UInt64.toNat_inj]

private theorem warning_iff :
    isWarningCondition inp.metrics p = true ↔
      IsWarningCondition (constantsOf p) (varsOf state inp) := by
  rw [IsWarningCondition, ← suspicious_gap_iff, ← da_healthy_iff, ← p2p_healthy_iff]
  simp [isWarningCondition, or_assoc]

theorem healthy_iff :
    isHealthyCondition inp.metrics p = true ↔
      IsHealthyCondition (constantsOf p) (varsOf state inp) := by
  rw [IsHealthyCondition, ← sovereign_gap_iff, ← suspicious_gap_iff, ← da_healthy_iff,
    ← p2p_healthy_iff]
  simp [isHealthyCondition, varsOf, and_assoc]

end Predicates

theorem MinVal_eq_min (a b : ℕ) : MinVal a b = min a b := by
  unfold MinVal
  split <;> omega

/-- The target of the keeper is the target of the specification, as soon as the
two incremented counters and one doubling of the ceiling do not wrap. -/
theorem calculateNextState_eq_spec {p : Params} (state : FSMState) {inp : FSMInput}
    (ceiling : p.maxDownHysteresisThreshold.toNat ≤ 2 ^ 63)
    (streakRoom : inp.unhealthyStreak.toNat + 1 < 2 ^ 64)
    (safeRoom : inp.suspiciousSafeBlocks.toNat + 1 < 2 ^ 64) :
    calculateNextState state inp p =
      CalculateNextFSMState (constantsOf p) (varsOf state inp) := by
  have streak := toNat_add_one streakRoom
  have safe := toNat_add_one safeRoom
  have effective : (effectiveDownHysteresisThreshold inp.failedRecoveryAttempts p).toNat =
      EffectiveDownHysteresisThreshold (constantsOf p) (varsOf state inp) := by
    rw [toNat_effectiveDownHysteresisThreshold ceiling, EffectiveDownHysteresisThreshold,
      MinVal_eq_min]
    rfl
  have critical := critical_iff p state inp
  have warning := warning_iff p state inp
  have healthy := healthy_iff p state inp
  have timeout : (varsOf state inp).suspiciousDuration ≥ (constantsOf p).maxSuspiciousTime →
      IsCriticalCondition (constantsOf p) (varsOf state inp) := fun h => .inr (.inr (.inr h))
  have wait : inp.safeBlocks = p.hysteresisWait ↔
      (varsOf state inp).safeBlocks = (constantsOf p).hysteresisWait := UInt64.toNat_inj.symm
  have down : inp.unhealthyStreak + 1 ≥ p.downHysteresisThreshold ↔
      (varsOf state inp).unhealthyStreak + 1 ≥ (constantsOf p).downHysteresisThreshold := by
    rw [ge_iff_le, UInt64.le_iff_toNat_le, streak]
    rfl
  have backoff : inp.unhealthyStreak + 1 ≥
      effectiveDownHysteresisThreshold inp.failedRecoveryAttempts p ↔
      (varsOf state inp).unhealthyStreak + 1 ≥
        EffectiveDownHysteresisThreshold (constantsOf p) (varsOf state inp) := by
    rw [ge_iff_le, UInt64.le_iff_toNat_le, streak, effective]
    rfl
  have up : inp.suspiciousSafeBlocks + 1 ≥ p.suspiciousHysteresisWait ↔
      (varsOf state inp).suspiciousSafeBlocks + 1 ≥ (constantsOf p).suspiciousHysteresisWait := by
    rw [ge_iff_le, UInt64.le_iff_toNat_le, safe]
    rfl
  have proof : inp.reanchoringProofValid = (varsOf state inp).reanchoringProofValid := rfl
  have same : (varsOf state inp).state = state := rfl
  unfold CalculateNextFSMState calculateNextState
  simp only [critical, warning, healthy, wait, down, backoff, up, proof, same,
    Bool.not_eq_true']
  generalize varsOf state inp = v at *
  generalize constantsOf p = k at *
  cases state <;> grind

private theorem calm_of_stay {p : Params} {state : FSMState} {inp : FSMInput}
    (stays : calculateNextState state inp p = state)
    (home : state = .anchored ∨ state = .recovering) :
    isCriticalCondition inp.metrics p inp.suspiciousDuration = false := by
  by_contra critical
  rw [Bool.not_eq_false] at critical
  rcases home with rfl | rfl <;> simp [calculateNextState, critical] at stays

private theorem streak_eq_spec {p : Params} {state : FSMState} {inp : FSMInput}
    (room : inp.unhealthyStreak.toNat + 1 < 2 ^ 64) :
    let target := calculateNextState state inp p
    (ExecuteFSMTransition (constantsOf p) (varsOf state inp) target).unhealthyStreak =
      (nextUnhealthyStreak state target inp.unhealthyStreak
        (isHealthyCondition inp.metrics p)).toNat := by
  intro target
  have more := toNat_add_one room
  have calm : target = state → state = .anchored ∨ state = .recovering →
      isCriticalCondition inp.metrics p inp.suspiciousDuration = false := calm_of_stay
  have warned : isCriticalCondition inp.metrics p inp.suspiciousDuration = false →
      isWarningCondition inp.metrics p = !isHealthyCondition inp.metrics p :=
    warning_eq_not_healthy inp.metrics p
  have same : (varsOf state inp).state = state := rfl
  have value : (varsOf state inp).unhealthyStreak = inp.unhealthyStreak.toNat := rfl
  simp only [ExecuteFSMTransition, nextUnhealthyStreak, ← critical_iff, ← warning_iff,
    ← healthy_iff, same, value]
  by_cases stays : state = target ∧ (state = .anchored ∨ state = .recovering) ∧
      isHealthyCondition inp.metrics p = false
  · have still := calm stays.1.symm stays.2.1
    have warns := warned still
    rw [if_pos stays, more]
    exact if_pos (by grind)
  · rw [if_neg stays, UInt64.toNat_zero]
    exact if_neg (by grind)

/-- The Go FSM step is the specified step: the target state is the one the rule
engine picks, and for that target every counter takes its primed value. -/
theorem fsm_step_eq_spec {p : Params} (small : p.Small) (state : FSMState) {inp : FSMInput}
    (counters : CountersSmall inp) :
    let k := constantsOf p
    let v := varsOf state inp
    let target := calculateNextState state inp p
    let healthy := isHealthyCondition inp.metrics p
    target = CalculateNextFSMState k v ∧
      ExecuteFSMTransition k v (CalculateNextFSMState k v) =
        { state := target
          suspiciousDuration :=
            (nextSuspiciousDuration state target inp.suspiciousDuration p).toNat
          unhealthyStreak := (nextUnhealthyStreak state target inp.unhealthyStreak healthy).toNat
          failedRecoveryAttempts :=
            (nextFailedRecoveryAttempts state target inp.failedRecoveryAttempts p).toNat
          safeBlocks := (nextSafeBlocks state target inp.safeBlocks healthy p).toNat
          suspiciousSafeBlocks :=
            (nextSuspiciousSafeBlocks state target inp.suspiciousSafeBlocks healthy p).toNat } := by
  intro k v target healthy
  obtain ⟨safe, duration, suspiciousSafe, streak, attempts⟩ := counters
  have ceiling : p.maxDownHysteresisThreshold.toNat < 2 ^ 62 := small _ (by simp [Params.fields])
  have limit : p.maxSuspiciousTime.toNat < 2 ^ 62 := small _ (by simp [Params.fields])
  have agreed : target = CalculateNextFSMState k v :=
    calculateNextState_eq_spec state (by omega) (by omega) (by omega)
  refine ⟨agreed, ?_⟩
  rw [← agreed]
  have streakValue : (ExecuteFSMTransition k v target).unhealthyStreak =
      (nextUnhealthyStreak state target inp.unhealthyStreak healthy).toNat :=
    streak_eq_spec (by omega)
  have durationRoom : inp.suspiciousDuration.toNat + 1 < 2 ^ 64 := by omega
  have attemptsRoom : inp.failedRecoveryAttempts.toNat + 1 < 2 ^ 64 := by omega
  have safeRoom : inp.safeBlocks.toNat + 1 < 2 ^ 64 := by omega
  have suspiciousSafeRoom : inp.suspiciousSafeBlocks.toNat + 1 < 2 ^ 64 := by omega
  have ceilingRoom : p.maxDownHysteresisThreshold.toNat ≤ 2 ^ 63 := by omega
  have limitRoom : p.maxSuspiciousTime.toNat + 1 < 2 ^ 64 := by omega
  have durationValue := toNat_nextSuspiciousDuration state target durationRoom limitRoom
  have attemptsValue := toNat_nextFailedRecoveryAttempts state target ceilingRoom attemptsRoom
  have safeValue := toNat_nextLeaky .recovering state target p.hysteresisWait healthy safeRoom
  have suspiciousSafeValue := toNat_nextLeaky .suspicious state target
    p.suspiciousHysteresisWait healthy suspiciousSafeRoom
  have health : IsHealthyCondition k v ↔ healthy = true := (healthy_iff p state inp).symm
  rw [← streakValue, durationValue, attemptsValue, nextSafeBlocks, safeValue,
    nextSuspiciousSafeBlocks, suspiciousSafeValue]
  simp only [ExecuteFSMTransition, MinVal_eq_min, health]
  rfl

/-- A RECOVERING block whose fourth unhealthy reading in a row, after one failed
attempt, exhausts the doubled threshold. -/
def exhaustedRecovery : FSMInput where
  metrics := { activeAnchors := 1 }
  safeBlocks := 1
  suspiciousDuration := 0
  suspiciousSafeBlocks := 0
  unhealthyStreak := 3
  failedRecoveryAttempts := 1
  reanchoringProofValid := true

theorem fsm_step_exhaustedRecovery :
    CalculateNextFSMState (constantsOf defaultParams) (varsOf .recovering exhaustedRecovery) =
        .sovereign ∧
      ExecuteFSMTransition (constantsOf defaultParams) (varsOf .recovering exhaustedRecovery)
        .sovereign = ⟨.sovereign, 0, 0, 2, 0, 0⟩ := by
  have counters : CountersSmall exhaustedRecovery :=
    ⟨by decide, by decide, by decide, by decide, by decide⟩
  obtain ⟨agreed, primed⟩ := fsm_step_eq_spec (p := defaultParams) (by decide) .recovering
    counters
  have target : calculateNextState .recovering exhaustedRecovery defaultParams = .sovereign := by
    decide
  rw [target] at agreed primed
  rw [← agreed] at primed ⊢
  exact ⟨rfl, primed⟩

end Engram.Spec
