import Engram.Types.Health

/-!
The FSM step of the keeper: the target state and the five counters. The
functions are the keeper's own, on 64-bit words that wrap.
-/

set_option autoImplicit false
set_option relaxedAutoImplicit false

namespace Engram.Keeper

open Engram.Types Engram.Library.Word64

structure FSMInput where
  metrics : PeripheralMetrics
  safeBlocks : UInt64
  suspiciousDuration : UInt64
  suspiciousSafeBlocks : UInt64
  unhealthyStreak : UInt64
  failedRecoveryAttempts : UInt64
  reanchoringProofValid : Bool
  deriving DecidableEq, Repr

/-- The doubling loop of `EffectiveDownHysteresisThreshold`, with the number of
remaining iterations explicit. -/
def effectiveLoop (maxThreshold : UInt64) : Nat → UInt64 → UInt64
  | 0, effective => if effective > maxThreshold then maxThreshold else effective
  | n + 1, effective =>
      if effective ≥ maxThreshold then maxThreshold
      else effectiveLoop maxThreshold n (effective * 2)

def effectiveDownHysteresisThreshold (failedRecoveryAttempts : UInt64) (p : Params) : UInt64 :=
  effectiveLoop p.maxDownHysteresisThreshold failedRecoveryAttempts.toNat
    p.downHysteresisThreshold

/-- As long as the ceiling is met before a doubling can wrap, the loop is exponentiation
capped by the ceiling. -/
theorem toNat_effectiveLoop_of_unwrapped {maxThreshold : UInt64} (n : Nat) {effective : UInt64}
    (unwrapped : ∀ i, 2 ^ 63 ≤ effective.toNat * 2 ^ i →
      maxThreshold.toNat ≤ effective.toNat * 2 ^ i) :
    (effectiveLoop maxThreshold n effective).toNat =
      min (effective.toNat * 2 ^ n) maxThreshold.toNat := by
  induction n generalizing effective with
  | zero =>
      simp only [effectiveLoop, gt_iff_lt, UInt64.lt_iff_toNat_lt, Nat.pow_zero, Nat.mul_one]
      split <;> omega
  | succ n ih =>
      simp only [effectiveLoop, ge_iff_le, UInt64.le_iff_toNat_le]
      split
      · rename_i reached
        have grown : effective.toNat ≤ effective.toNat * 2 ^ (n + 1) :=
          Nat.le_mul_of_pos_right _ (Nat.two_pow_pos _)
        omega
      · rename_i below
        have small := unwrapped 0
        have doubled : (effective * 2).toNat = effective.toNat * 2 := by
          rw [UInt64.toNat_mul]
          exact Nat.mod_eq_of_lt (by change effective.toNat * 2 < _; omega)
        have later : ∀ i, (effective * 2).toNat * 2 ^ i = effective.toNat * 2 ^ (i + 1) := by
          intro i
          rw [doubled, Nat.mul_assoc, Nat.pow_succ']
        rw [ih (fun i => by rw [later]; exact unwrapped (i + 1)), later]

private theorem toNat_effectiveLoop {maxThreshold : UInt64} (room : maxThreshold.toNat ≤ 2 ^ 63)
    (n : Nat) (effective : UInt64) :
    (effectiveLoop maxThreshold n effective).toNat =
      min (effective.toNat * 2 ^ n) maxThreshold.toNat :=
  toNat_effectiveLoop_of_unwrapped n (fun _ large => room.trans large)

theorem toNat_effectiveDownHysteresisThreshold {p : Params}
    (room : p.maxDownHysteresisThreshold.toNat ≤ 2 ^ 63) (n : UInt64) :
    (effectiveDownHysteresisThreshold n p).toNat =
      min (p.downHysteresisThreshold.toNat * 2 ^ n.toNat) p.maxDownHysteresisThreshold.toNat :=
  toNat_effectiveLoop room _ _

def calculateNextState (currentState : FSMState) (inp : FSMInput) (p : Params) : FSMState :=
  let critical := isCriticalCondition inp.metrics p inp.suspiciousDuration
  let warning := isWarningCondition inp.metrics p
  let healthy := isHealthyCondition inp.metrics p
  match currentState with
  | .anchored =>
      if critical then .sovereign
      else if warning then
        if inp.unhealthyStreak + 1 ≥ p.downHysteresisThreshold then .suspicious
        else .anchored
      else .anchored
  | .suspicious =>
      if critical then .sovereign
      else if healthy then
        if inp.suspiciousSafeBlocks + 1 ≥ p.suspiciousHysteresisWait then .anchored
        else .suspicious
      else .suspicious
  | .sovereign => if healthy then .recovering else .sovereign
  | .recovering =>
      if critical then .sovereign
      else if !healthy then
        if inp.unhealthyStreak + 1 ≥
            effectiveDownHysteresisThreshold inp.failedRecoveryAttempts p then .sovereign
        else .recovering
      else if inp.safeBlocks = p.hysteresisWait ∧ inp.reanchoringProofValid = true then .anchored
      else .recovering
  | .other name unnamed => .other name unnamed

/-- The update shared by the two leaky counters: one up (capped) on a healthy
block that stays in `home`, one down on an unhealthy one, zero otherwise. -/
def nextLeaky (home currentState targetState : FSMState) (count : UInt64) (healthy : Bool)
    (cap : UInt64) : UInt64 :=
  if targetState ≠ home ∨ currentState ≠ home then 0
  else if healthy then if count + 1 > cap then cap else count + 1
  else if count = 0 then 0
  else count - 1

theorem toNat_nextLeaky_le (home currentState targetState : FSMState) (count : UInt64)
    (healthy : Bool) (cap : UInt64) :
    (nextLeaky home currentState targetState count healthy cap).toNat ≤
      if healthy then count.toNat + 1 else count.toNat - 1 := by
  have more := toNat_add_one_le count
  unfold nextLeaky
  cases healthy with
  | true =>
      simp only [if_true, gt_iff_lt, UInt64.lt_iff_toNat_lt]
      split_ifs
      · simp
      · omega
      · exact more
  | false =>
      simp only [Bool.false_eq_true, if_false]
      split_ifs with left empty
      · simp
      · simp
      · rw [toNat_sub_one empty]

theorem toNat_nextLeaky (home currentState targetState : FSMState) {count : UInt64}
    (cap : UInt64) (healthy : Bool) (room : count.toNat + 1 < 2 ^ 64) :
    (nextLeaky home currentState targetState count healthy cap).toNat =
      if targetState = home ∧ currentState = home then
        if healthy = true then min (count.toNat + 1) cap.toNat
        else if count.toNat ≥ 1 then count.toNat - 1 else 0
      else 0 := by
  have more := toNat_add_one room
  unfold nextLeaky
  by_cases stays : targetState = home ∧ currentState = home
  · rw [if_neg (by tauto), if_pos stays]
    cases healthy with
    | true =>
        simp only [if_true, gt_iff_lt, UInt64.lt_iff_toNat_lt, more]
        split <;> omega
    | false =>
        simp only [Bool.false_eq_true, if_false]
        by_cases empty : count = 0
        · simp [empty]
        · have occupied : count.toNat ≠ 0 := fun zero => empty (UInt64.toNat_inj.mp zero)
          rw [if_neg empty, if_pos (by omega), toNat_sub_one empty]
  · rw [if_pos (by tauto), if_neg stays]
    rfl

def nextSafeBlocks (currentState targetState : FSMState) (safeBlocks : UInt64) (healthy : Bool)
    (p : Params) : UInt64 :=
  nextLeaky .recovering currentState targetState safeBlocks healthy p.hysteresisWait

def nextSuspiciousSafeBlocks (currentState targetState : FSMState)
    (suspiciousSafeBlocks : UInt64) (healthy : Bool) (p : Params) : UInt64 :=
  nextLeaky .suspicious currentState targetState suspiciousSafeBlocks healthy
    p.suspiciousHysteresisWait

def nextUnhealthyStreak (currentState targetState : FSMState) (streak : UInt64)
    (healthy : Bool) : UInt64 :=
  if currentState = targetState ∧ (currentState = .anchored ∨ currentState = .recovering) ∧
      healthy = false then streak + 1
  else 0

def nextFailedRecoveryAttempts (currentState targetState : FSMState) (attempts : UInt64)
    (p : Params) : UInt64 :=
  if currentState = .recovering ∧ targetState = .sovereign then
    if effectiveDownHysteresisThreshold attempts p ≥ p.maxDownHysteresisThreshold then attempts
    else attempts + 1
  else if currentState = .recovering ∧ targetState = .anchored then 0
  else attempts

theorem toNat_nextFailedRecoveryAttempts {p : Params} (currentState targetState : FSMState)
    {attempts : UInt64} (ceiling : p.maxDownHysteresisThreshold.toNat ≤ 2 ^ 63)
    (room : attempts.toNat + 1 < 2 ^ 64) :
    (nextFailedRecoveryAttempts currentState targetState attempts p).toNat =
      if currentState = .recovering ∧ targetState = .sovereign then
        if p.downHysteresisThreshold.toNat * 2 ^ attempts.toNat ≥
            p.maxDownHysteresisThreshold.toNat then attempts.toNat
        else attempts.toNat + 1
      else if currentState = .recovering ∧ targetState = .anchored then 0
      else attempts.toNat := by
  have saturated : effectiveDownHysteresisThreshold attempts p ≥ p.maxDownHysteresisThreshold ↔
      p.downHysteresisThreshold.toNat * 2 ^ attempts.toNat ≥
        p.maxDownHysteresisThreshold.toNat := by
    rw [ge_iff_le, UInt64.le_iff_toNat_le, toNat_effectiveDownHysteresisThreshold ceiling]
    omega
  have more := toNat_add_one room
  unfold nextFailedRecoveryAttempts
  simp only [saturated]
  split_ifs <;> simp [more]

/-- Only the target is consulted: the entry block already counts. -/
def nextSuspiciousDuration (_currentState targetState : FSMState) (duration : UInt64)
    (p : Params) : UInt64 :=
  if targetState ≠ .suspicious then 0
  else
    let cap := p.maxSuspiciousTime + 1
    if duration + 1 > cap then cap else duration + 1

theorem toNat_nextSuspiciousDuration {p : Params} (currentState targetState : FSMState)
    {duration : UInt64} (room : duration.toNat + 1 < 2 ^ 64)
    (limit : p.maxSuspiciousTime.toNat + 1 < 2 ^ 64) :
    (nextSuspiciousDuration currentState targetState duration p).toNat =
      if targetState = .suspicious then min (duration.toNat + 1) (p.maxSuspiciousTime.toNat + 1)
      else 0 := by
  have more := toNat_add_one room
  have cap := toNat_add_one limit
  unfold nextSuspiciousDuration
  by_cases held : targetState = .suspicious
  · simp only [held, ne_eq, not_true_eq_false, if_false, if_true, gt_iff_lt,
      UInt64.lt_iff_toNat_lt, more, cap]
    split <;> omega
  · simp [held]

end Engram.Keeper
