import Engram.Fsm.Counters

/-!
Recovery under healthy blocks. A block that is healthy and carries the proof
flag brings the FSM one block closer to ANCHORED, unless the parameters make
the critical condition true of healthy blocks as well. Two accepted settings do
that: no tolerated time in SUSPICIOUS, and no required anchor peer.
-/

set_option autoImplicit false
set_option relaxedAutoImplicit false

namespace Engram.Fsm

open Engram.Types Engram.Keeper Engram.Library.Word64

structure Reading.Recovers (p : Params) (r : Reading) : Prop where
  healthy : isHealthyCondition r.metrics p = true
  proven : r.reanchoringProofValid = true

def Core.advanceAll (p : Params) (c : Core) (readings : List Reading) : Core :=
  readings.foldl (Core.advance p) c

/-- From every reachable state, enough healthy blocks with a proof lead to
ANCHORED, and further ones stay there. -/
def Recoverable (p : Params) : Prop :=
  ∀ history c, FsmRun p history c → ∀ readings : List Reading,
    (∀ r ∈ readings, r.Recovers p) →
    p.suspiciousHysteresisWait.toNat + p.hysteresisWait.toNat + 3 ≤ readings.length →
      (c.advanceAll p readings).state = .anchored ∧
      ∀ further : List Reading, (∀ r ∈ further, r.Recovers p) →
        ((c.advanceAll p readings).advanceAll p further).state = .anchored

structure Recoverable.Invariant (p : Params) (c : Core) : Prop where
  named : c.state ∈ [FSMState.anchored, .suspicious, .sovereign, .recovering]
  duration : c.state ≠ .suspicious → c.suspiciousDuration = 0
  safeBlocks : c.safeBlocks ≤ p.hysteresisWait
  suspiciousSafeBlocks : c.suspiciousSafeBlocks = 0 ∨
    c.suspiciousSafeBlocks < p.suspiciousHysteresisWait

private theorem critical_of_healthy {p : Params} {m : PeripheralMetrics} (duration : UInt64)
    (healthy : isHealthyCondition m p = true) :
    isCriticalCondition m p duration =
      (m.activeAnchors == 0 || decide (duration ≥ p.maxSuspiciousTime)) := by
  simp only [isHealthyCondition, Bool.and_eq_true, Bool.not_eq_true'] at healthy
  obtain ⟨⟨⟨⟨gap, _⟩, spv⟩, _⟩, _⟩ := healthy
  simp only [isCriticalCondition, gap, spv, Bool.false_or]

private theorem Core.target_of_healthy {p : Params} {r : Reading} (c : Core)
    (healthy : isHealthyCondition r.metrics p = true) :
    let critical := isCriticalCondition r.metrics p c.suspiciousDuration
    (c.state = .anchored → c.target p r = if critical then .sovereign else .anchored) ∧
    (c.state = .suspicious → c.target p r = if critical then .sovereign
      else if c.suspiciousSafeBlocks + 1 ≥ p.suspiciousHysteresisWait then .anchored
      else .suspicious) ∧
    (c.state = .sovereign → c.target p r = .recovering) ∧
    (c.state = .recovering → c.target p r = if critical then .sovereign
      else if c.safeBlocks = p.hysteresisWait ∧ r.reanchoringProofValid = true then .anchored
      else .recovering) := by
  intro critical
  have warned : critical = false → isWarningCondition r.metrics p = false := by
    intro calm
    rw [warning_eq_not_healthy r.metrics p calm, healthy]
    rfl
  have unfolded : c.target p r = calculateNextState c.state (c.input r) p := rfl
  refine ⟨?_, ?_, ?_, ?_⟩ <;> intro state <;>
    simp only [unfolded, state, calculateNextState, Core.input, healthy]
  · cases verdict : critical with
    | true => exact if_pos verdict
    | false =>
        have calm : isCriticalCondition r.metrics p c.suspiciousDuration = false := verdict
        simp [warned verdict, calm]
  · rfl
  · rfl
  · rfl

private theorem suspiciousSafeBlocks_advance {p : Params} {c : Core} (r : Reading)
    (below : c.suspiciousSafeBlocks = 0 ∨ c.suspiciousSafeBlocks < p.suspiciousHysteresisWait) :
    (c.advance p r).suspiciousSafeBlocks = 0 ∨
      (c.advance p r).suspiciousSafeBlocks < p.suspiciousHysteresisWait := by
  have moved : (c.advance p r).suspiciousSafeBlocks = nextLeaky .suspicious c.state (c.target p r)
    c.suspiciousSafeBlocks (isHealthyCondition r.metrics p) p.suspiciousHysteresisWait := rfl
  rw [moved, nextLeaky]
  split_ifs with left healthy above empty
  · exact Or.inl rfl
  · -- the capped branch is never reached: the target would be ANCHORED
    have stays := (c.target_of_healthy healthy).2.1
    grind
  · have stays := (c.target_of_healthy healthy).2.1
    grind
  · exact Or.inl rfl
  · right
    have counted := below.resolve_left empty
    rw [UInt64.lt_iff_toNat_lt] at counted ⊢
    rw [toNat_sub_one empty]
    omega

theorem Recoverable.Invariant.advance {p : Params} {c : Core}
    (before : Recoverable.Invariant p c) (r : Reading) :
    Recoverable.Invariant p (c.advance p r) := by
  have guards := c.target_cases p r
  have named := before.named
  have state : (c.advance p r).state = c.target p r := rfl
  refine ⟨?_, ?_, nextLeaky_le before.safeBlocks,
    suspiciousSafeBlocks_advance r before.suspiciousSafeBlocks⟩
  · rw [state]
    grind
  · intro left
    exact if_pos left

theorem FsmRun.recoverableInvariant {p : Params} {history : List Event} {c : Core}
    (run : FsmRun p history c) : Recoverable.Invariant p c := by
  refine FsmRun.induction (motive := fun _ c => Recoverable.Invariant p c) ?_ ?_ run
  · constructor <;> simp [Core.genesis, UInt64.le_iff_toNat_le]
  · intro history c r _ before
    exact before.advance r

/-- An upper bound on the healthy blocks with a proof that are still needed. -/
def Core.remaining (p : Params) (c : Core) : ℕ :=
  match c.state with
  | .anchored => 0
  | .recovering => p.hysteresisWait.toNat - c.safeBlocks.toNat + 1
  | .sovereign => p.hysteresisWait.toNat + 2
  | _ => p.hysteresisWait.toNat + 3 +
      (p.suspiciousHysteresisWait.toNat - c.suspiciousSafeBlocks.toNat - 1)

private theorem Core.remaining_le {p : Params} (c : Core) :
    c.remaining p ≤ p.suspiciousHysteresisWait.toNat + p.hysteresisWait.toNat + 3 := by
  unfold Core.remaining
  split <;> omega

private theorem Core.remaining_eq_zero {p : Params} {c : Core} (done : c.remaining p = 0) :
    c.state = .anchored := by
  unfold Core.remaining at done
  split at done
  · assumption
  · omega
  · omega
  · omega

private theorem nextLeaky_below (home : FSMState) {count cap : UInt64} (below : count < cap) :
    (nextLeaky home home home count true cap).toNat = count.toNat + 1 := by
  rw [UInt64.lt_iff_toNat_lt] at below
  have limit := cap.toNat_lt
  rw [toNat_nextLeaky _ _ _ _ _ (by omega)]
  simp only [and_self, if_true]
  omega

section Progress

variable {p : Params} {c : Core} {r : Reading}

private theorem calm_of_recovers (patient : p.maxSuspiciousTime ≠ 0)
    (guarded : p.minAnchorPeers ≠ 0)
    (recovers : r.Recovers p) (invariant : Recoverable.Invariant p c)
    (left : c.state ≠ .suspicious) :
    isCriticalCondition r.metrics p c.suspiciousDuration = false := by
  rw [critical_of_healthy _ recovers.healthy, invariant.duration left]
  have healthy := recovers.healthy
  simp only [isHealthyCondition, isP2PQualityHealthy, Bool.and_eq_true, decide_eq_true_eq]
    at healthy
  have anchors : p.minAnchorPeers ≤ r.metrics.activeAnchors := healthy.2.1.1.1.1.2
  have occupied : r.metrics.activeAnchors ≠ 0 := by
    intro none
    rw [none] at anchors
    exact guarded (UInt64.le_zero_iff.mp anchors)
  have room : ¬ (0 : UInt64) ≥ p.maxSuspiciousTime := by
    intro full
    exact patient (UInt64.le_zero_iff.mp full)
  simp [occupied, room]

private theorem Core.remaining_advance (patient : p.maxSuspiciousTime ≠ 0)
    (guarded : p.minAnchorPeers ≠ 0) (recovers : r.Recovers p)
    (invariant : Recoverable.Invariant p c) :
    (c.advance p r).remaining p ≤ c.remaining p - 1 := by
  have targets := c.target_of_healthy recovers.healthy
  have calm := calm_of_recovers patient guarded recovers invariant
  have state : (c.advance p r).state = c.target p r := rfl
  cases before : c.state with
  | anchored =>
      have after : c.target p r = .anchored := by
        rw [targets.1 before, calm (by simp [before])]
        rfl
      simp [Core.remaining, state, after]
  | sovereign =>
      have after := targets.2.2.1 before
      simp only [Core.remaining, state, after, before]
      omega
  | recovering =>
      have after := targets.2.2.2 before
      rw [calm (by simp [before])] at after
      by_cases full : c.safeBlocks = p.hysteresisWait
      · have reached : c.target p r = .anchored := by simpa [full, recovers.proven] using after
        simp [Core.remaining, state, reached]
      · have stays : c.target p r = .recovering := by simpa [full] using after
        have more := nextLeaky_below .recovering (lt_of_le_of_ne invariant.safeBlocks full)
        have counted : (c.advance p r).safeBlocks.toNat = c.safeBlocks.toNat + 1 := by
          rw [← more, ← recovers.healthy]
          simp only [Core.advance, Core.move, nextSafeBlocks, before, stays]
        have below := UInt64.lt_iff_toNat_lt.mp (lt_of_le_of_ne invariant.safeBlocks full)
        simp only [Core.remaining, state, stays, before, counted]
        omega
  | suspicious =>
      have after := targets.2.1 before
      split_ifs at after with critical full
      · simp only [Core.remaining, state, after, before]
        omega
      · simp [Core.remaining, state, after]
      · have below : c.suspiciousSafeBlocks < p.suspiciousHysteresisWait := by
          rcases invariant.suspiciousSafeBlocks with zero | below
          · rw [zero] at full ⊢
            exact lt_of_lt_of_le (by decide) (not_le.mp full).le
          · exact below
        have more := nextLeaky_below .suspicious below
        have counted : (c.advance p r).suspiciousSafeBlocks.toNat =
            c.suspiciousSafeBlocks.toNat + 1 := by
          rw [← more, ← recovers.healthy]
          simp only [Core.advance, Core.move, nextSuspiciousSafeBlocks, before, after]
        rw [UInt64.lt_iff_toNat_lt] at below
        have small := lt_of_le_of_lt below p.suspiciousHysteresisWait.toNat_lt
        rw [ge_iff_le, UInt64.le_iff_toNat_le, toNat_add_one small] at full
        simp only [Core.remaining, state, after, before, counted]
        omega
  | other name unnamed =>
      have named := invariant.named
      simp [before] at named

private theorem Core.remaining_advanceAll (patient : p.maxSuspiciousTime ≠ 0)
    (guarded : p.minAnchorPeers ≠ 0) {readings : List Reading}
    (invariant : Recoverable.Invariant p c) (recovers : ∀ r ∈ readings, r.Recovers p) :
    (c.advanceAll p readings).remaining p ≤ c.remaining p - readings.length := by
  induction readings generalizing c with
  | nil => exact le_refl _
  | cons r readings ih =>
      have step := remaining_advance patient guarded (recovers r List.mem_cons_self) invariant
      have rest := ih (invariant.advance r)
        fun r member => recovers r (List.mem_cons_of_mem _ member)
      simp only [Core.advanceAll, List.foldl_cons, List.length_cons] at rest ⊢
      omega

end Progress

def minimalReading (p : Params) : Reading where
  metrics :=
    { subnetDiversity := p.minSubnetDiversity, activeAnchors := p.minAnchorPeers
      cleanPeers := p.minPeers, avgPeerTenure := p.minAvgTenure }
  reanchoringProofValid := true

private theorem minimalReading_recovers {p : Params} (valid : p.Valid) :
    (minimalReading p).Recovers p := by
  obtain ⟨_, floor, _, ordered, available, _⟩ := p.valid_iff.mp valid
  refine ⟨?_, rfl⟩
  have suspicious : 0 < p.suspiciousThreshold := lt_of_le_of_lt (UInt64.zero_le) floor
  have sovereign : 0 < p.sovereignThreshold := suspicious.trans ordered
  have gap : 0 < p.daThreshold := lt_of_le_of_ne UInt64.zero_le available.symm
  simp [isHealthyCondition, isBTCGapSovereign, isBTCGapSuspicious, isDAHealthy,
    isP2PQualityHealthy, minimalReading, suspicious.ne', sovereign.ne', gap]

private theorem minimalReading_locks {p : Params} (valid : p.Valid)
    (locking : p.maxSuspiciousTime = 0 ∨ p.minAnchorPeers = 0) (c : Core)
    (named : c.state ∈ [FSMState.anchored, .suspicious, .sovereign, .recovering]) :
    (c.advance p (minimalReading p)).state ∈ [FSMState.sovereign, .recovering] := by
  have healthy := (minimalReading_recovers valid).healthy
  have critical : isCriticalCondition (minimalReading p).metrics p c.suspiciousDuration = true := by
    rw [critical_of_healthy _ healthy]
    rcases locking with impatient | unguarded
    · simp [impatient]
    · simp [minimalReading, unguarded]
  have targets := c.target_of_healthy healthy
  have state : (c.advance p (minimalReading p)).state = c.target p (minimalReading p) := rfl
  rw [state]
  grind

private theorem minimalReading_locks_all {p : Params} (valid : p.Valid)
    (locking : p.maxSuspiciousTime = 0 ∨ p.minAnchorPeers = 0) (n : ℕ) {c : Core}
    (locked : c.state ∈ [FSMState.sovereign, .recovering]) :
    (c.advanceAll p (List.replicate n (minimalReading p))).state ∈
      [FSMState.sovereign, .recovering] := by
  induction n generalizing c with
  | zero => exact locked
  | succ n ih =>
      have named : c.state ∈ [FSMState.anchored, .suspicious, .sovereign, .recovering] := by
        grind
      exact ih (minimalReading_locks valid locking c named)

private theorem not_recoverable_of_locking {p : Params} (valid : p.Valid)
    (locking : p.maxSuspiciousTime = 0 ∨ p.minAnchorPeers = 0) : ¬ Recoverable p := by
  intro recoverable
  let wait := p.suspiciousHysteresisWait.toNat + p.hysteresisWait.toNat + 2
  have genesis : FsmRun p [] .genesis := ⟨[], .initial, rfl⟩
  have anchored := (recoverable [] .genesis genesis (List.replicate (wait + 1) (minimalReading p))
    (fun r member => (List.eq_of_mem_replicate member) ▸ minimalReading_recovers valid)
    (by simp [wait])).1
  have first := minimalReading_locks valid locking .genesis (by simp [Core.genesis])
  have locked := minimalReading_locks_all valid locking wait first
  have same : Core.genesis.advanceAll p (List.replicate (wait + 1) (minimalReading p)) =
    (Core.genesis.advance p (minimalReading p)).advanceAll p
      (List.replicate wait (minimalReading p)) := rfl
  rw [← same, anchored] at locked
  simp at locked

/-- Every accepted setting recovers, except the two under which healthy blocks
are critical. -/
theorem recoverable_iff {p : Params} (valid : p.Valid) :
    Recoverable p ↔ p.maxSuspiciousTime ≠ 0 ∧ p.minAnchorPeers ≠ 0 := by
  constructor
  · intro recoverable
    by_contra settings
    exact not_recoverable_of_locking valid (by tauto) recoverable
  · rintro ⟨patient, guarded⟩ history c run readings recovers enough
    have bound := c.remaining_le (p := p)
    have invariant := run.recoverableInvariant
    have done := Core.remaining_advanceAll patient guarded invariant recovers
    refine ⟨Core.remaining_eq_zero (p := p) (by omega), ?_⟩
    intro further recovers'
    have all : ∀ r ∈ readings ++ further, r.Recovers p := by
      intro r member
      rcases List.mem_append.mp member with old | new
      · exact recovers r old
      · exact recovers' r new
    have kept := Core.remaining_advanceAll patient guarded invariant all
    rw [List.length_append, Core.advanceAll, List.foldl_append] at kept
    exact Core.remaining_eq_zero (p := p) (by
      simp only [Core.advanceAll]
      omega)

theorem recoverable_defaultParams : defaultParams.Valid ∧ Recoverable defaultParams :=
  ⟨by decide, (recoverable_iff (by decide)).mpr (by decide)⟩

/-- The validation lets a setting through that no healthy block recovers from. -/
theorem valid_not_recoverable : ¬ ∀ p : Params, p.Valid → Recoverable p := by
  intro recoverable
  have valid : ({ defaultParams with maxSuspiciousTime := 0 } : Params).Valid := by decide
  exact not_recoverable_of_locking valid (Or.inl rfl) (recoverable _ valid)

end Engram.Fsm
