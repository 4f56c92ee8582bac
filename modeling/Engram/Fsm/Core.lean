import Engram.Keeper.CircuitBreaker
import Engram.Library.GuardedRun
import Mathlib.Data.List.Induction

/-!
The FSM as a machine of its own: a state with its five counters, driven by one
reading per block. The chain refines it; its runs are where statements about the
history of the counters live.
-/

set_option autoImplicit false
set_option relaxedAutoImplicit false

namespace Engram.Fsm

open Engram.Types Engram.Keeper Engram.Library

/-- The FSM state and its counters. -/
structure Core where
  state : FSMState
  safeBlocks : UInt64
  suspiciousDuration : UInt64
  suspiciousSafeBlocks : UInt64
  unhealthyStreak : UInt64
  failedRecoveryAttempts : UInt64
  deriving DecidableEq, Repr

def Core.genesis : Core := ⟨.anchored, 0, 0, 0, 0, 0⟩

/-- What one block contributes: the refreshed metrics and the proof flag. -/
structure Reading where
  metrics : PeripheralMetrics
  reanchoringProofValid : Bool

def Core.input (c : Core) (r : Reading) : FSMInput where
  metrics := r.metrics
  safeBlocks := c.safeBlocks
  suspiciousDuration := c.suspiciousDuration
  suspiciousSafeBlocks := c.suspiciousSafeBlocks
  unhealthyStreak := c.unhealthyStreak
  failedRecoveryAttempts := c.failedRecoveryAttempts
  reanchoringProofValid := r.reanchoringProofValid

def Core.target (p : Params) (c : Core) (r : Reading) : FSMState :=
  calculateNextState c.state (c.input r) p

def Core.move (p : Params) (c : Core) (target : FSMState) (healthy : Bool) : Core where
  state := target
  safeBlocks := nextSafeBlocks c.state target c.safeBlocks healthy p
  suspiciousDuration := nextSuspiciousDuration c.state target c.suspiciousDuration p
  suspiciousSafeBlocks :=
    nextSuspiciousSafeBlocks c.state target c.suspiciousSafeBlocks healthy p
  unhealthyStreak := nextUnhealthyStreak c.state target c.unhealthyStreak healthy
  failedRecoveryAttempts :=
    nextFailedRecoveryAttempts c.state target c.failedRecoveryAttempts p

def Core.advance (p : Params) (c : Core) (r : Reading) : Core :=
  c.move p (c.target p r) (isHealthyCondition r.metrics p)

/-- What a block leaves in the history: the two states and the health flag. -/
structure Event where
  before : FSMState
  after : FSMState
  healthy : Bool
  deriving DecidableEq, Repr

def observe (p : Params) (m : Move Core Reading) : Event :=
  ⟨m.source.state, m.target.state, isHealthyCondition m.input.metrics p⟩

def FsmRun (p : Params) (history : List Event) (now : Core) : Prop :=
  ∃ past, Run (fun c r => some (Core.advance p c r)) .genesis past now ∧
    past.map (observe p) = history

theorem FsmRun.induction {p : Params} {motive : List Event → Core → Prop}
    (genesis : motive [] .genesis)
    (block : ∀ history c (r : Reading), FsmRun p history c → motive history c →
      motive (⟨c.state, c.target p r, isHealthyCondition r.metrics p⟩ :: history)
        (c.advance p r))
    {history : List Event} {now : Core} (run : FsmRun p history now) : motive history now := by
  obtain ⟨past, run, rfl⟩ := run
  induction run with
  | initial => exact genesis
  | @extend past now next r before taken ih =>
      obtain rfl := Option.some.inj taken
      exact block _ now r ⟨past, before, rfl⟩ ih

/-- Every event of a history is a block taken from the state the older events
lead to. -/
theorem FsmRun.cut {p : Params} {newer older : List Event} {e : Event} {now : Core}
    (run : FsmRun p (newer ++ e :: older) now) :
    ∃ c r, FsmRun p older c ∧ e = ⟨c.state, c.target p r, isHealthyCondition r.metrics p⟩ := by
  obtain ⟨past, run, observed⟩ := run
  obtain ⟨newer', rest, rfl, _, tail⟩ := List.map_eq_append_iff.mp observed
  obtain ⟨m, older', rfl, rfl, rfl⟩ := List.map_eq_cons_iff.mp tail
  obtain ⟨before, taken⟩ := run.cut
  have target := Option.some.inj taken
  exact ⟨m.source, m.input, ⟨older', before, rfl⟩, by rw [observe, ← target]; rfl⟩

theorem FsmRun.drop {p : Params} {newer older : List Event} {now : Core}
    (run : FsmRun p (newer ++ older) now) : ∃ c, FsmRun p older c := by
  cases newer using List.reverseRecOn with
  | nil => exact ⟨now, run⟩
  | append_singleton newer e =>
      rw [List.append_assoc] at run
      obtain ⟨c, r, before, _⟩ := run.cut
      exact ⟨c, before⟩

theorem Core.target_cases (p : Params) (c : Core) (r : Reading) :
    let critical := isCriticalCondition r.metrics p c.suspiciousDuration
    let healthy := isHealthyCondition r.metrics p
    let target := c.target p r
    (target = c.state ∧ (c.state = .anchored → critical = false ∧
        (healthy = false → ¬ c.unhealthyStreak + 1 ≥ p.downHysteresisThreshold)) ∧
      (c.state = .suspicious → critical = false) ∧
      (c.state = .recovering → critical = false ∧ (healthy = false →
        ¬ c.unhealthyStreak + 1 ≥
          effectiveDownHysteresisThreshold c.failedRecoveryAttempts p))) ∨
    (c.state = .anchored ∧ target = .sovereign ∧ critical = true) ∨
    (c.state = .anchored ∧ target = .suspicious ∧ critical = false ∧ healthy = false ∧
      c.unhealthyStreak + 1 ≥ p.downHysteresisThreshold) ∨
    (c.state = .suspicious ∧ target = .sovereign ∧ critical = true) ∨
    (c.state = .suspicious ∧ target = .anchored ∧ critical = false ∧ healthy = true ∧
      c.suspiciousSafeBlocks + 1 ≥ p.suspiciousHysteresisWait) ∨
    (c.state = .sovereign ∧ target = .recovering ∧ healthy = true) ∨
    (c.state = .recovering ∧ target = .sovereign) ∨
    (c.state = .recovering ∧ target = .anchored ∧ critical = false ∧ healthy = true ∧
      c.safeBlocks = p.hysteresisWait ∧ r.reanchoringProofValid = true) := by
  intro critical healthy target
  have warned : critical = false → isWarningCondition r.metrics p = !healthy :=
    warning_eq_not_healthy r.metrics p
  have unfolded : target = calculateNextState c.state (c.input r) p := rfl
  cases state : c.state <;>
    simp only [unfolded, state, calculateNextState, Core.input] <;> grind

section Guards

variable {p : Params} {c : Core} {r : Reading}

theorem Core.degrade_guards (state : c.state = .anchored) (target : c.target p r = .suspicious) :
    isHealthyCondition r.metrics p = false ∧
      c.unhealthyStreak + 1 ≥ p.downHysteresisThreshold := by
  have guards := c.target_cases p r
  grind

theorem Core.reassure_guards (state : c.state = .suspicious) (target : c.target p r = .anchored) :
    isHealthyCondition r.metrics p = true ∧
      c.suspiciousSafeBlocks + 1 ≥ p.suspiciousHysteresisWait := by
  have guards := c.target_cases p r
  grind

theorem Core.reanchor_guards (state : c.state = .recovering) (target : c.target p r = .anchored) :
    isHealthyCondition r.metrics p = true ∧ c.safeBlocks = p.hysteresisWait ∧
      r.reanchoringProofValid = true := by
  have guards := c.target_cases p r
  grind

theorem Core.entry_of_recovering (target : c.target p r = .recovering)
    (entered : c.state ≠ .recovering) : c.state = .sovereign := by
  have guards := c.target_cases p r
  grind

theorem Core.entry_of_suspicious (target : c.target p r = .suspicious)
    (entered : c.state ≠ .suspicious) : c.state = .anchored := by
  have guards := c.target_cases p r
  grind

theorem Core.calm_of_suspicious (target : c.target p r = .suspicious) :
    isCriticalCondition r.metrics p c.suspiciousDuration = false := by
  have guards := c.target_cases p r
  grind

end Guards

end Engram.Fsm
