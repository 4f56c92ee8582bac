import Engram.Fsm.Core
import Mathlib.Order.Bounds.Basic
import Mathlib.Data.Nat.Find
import Mathlib.Algebra.Order.Ring.Nat

/-!
The counters as functions of the history. Each is read off the newest blocks of
a run: the streak and the SUSPICIOUS duration count the blocks of a maximal
leading segment, the failed attempts count regressions up to the last recovery.
-/

set_option autoImplicit false
set_option relaxedAutoImplicit false

namespace Engram.Fsm

open Engram.Types Engram.Keeper Engram.Library.Word64

def Event.absorbed (e : Event) : Bool :=
  e.before == e.after && (e.before == .anchored || e.before == .recovering) && !e.healthy

def Event.regresses (e : Event) : Bool := e.before == .recovering && e.after == .sovereign

def Event.reanchors (e : Event) : Bool := e.before == .recovering && e.after == .anchored

/-- Length of the maximal run of latest absorbed blocks. -/
def unhealthyRun (history : List Event) : ℕ := (history.takeWhile Event.absorbed).length

/-- Number of latest consecutive blocks committed as SUSPICIOUS. -/
def suspiciousRun (history : List Event) : ℕ :=
  (history.takeWhile (fun e => e.after == .suspicious)).length

/-- Regressions from RECOVERING to SOVEREIGN since the last re-anchoring. -/
def regressions (history : List Event) : ℕ :=
  (history.takeWhile (fun e => !e.reanchors)).countP Event.regresses

@[simp] theorem absorbed_iff (e : Event) :
    e.absorbed = true ↔ e.before = e.after ∧
      (e.before = .anchored ∨ e.before = .recovering) ∧ e.healthy = false := by
  simp [Event.absorbed, and_assoc]

@[simp] theorem regresses_iff (e : Event) :
    e.regresses = true ↔ e.before = .recovering ∧ e.after = .sovereign := by
  simp [Event.regresses]

@[simp] theorem reanchors_iff (e : Event) :
    e.reanchors = true ↔ e.before = .recovering ∧ e.after = .anchored := by
  simp [Event.reanchors]

private theorem unhealthyRun_cons (e : Event) (history : List Event) :
    unhealthyRun (e :: history) = if e.absorbed then unhealthyRun history + 1 else 0 := by
  unfold unhealthyRun
  rw [List.takeWhile_cons]
  split <;> rfl

theorem suspiciousRun_cons (e : Event) (history : List Event) :
    suspiciousRun (e :: history) =
      if e.after = .suspicious then suspiciousRun history + 1 else 0 := by
  unfold suspiciousRun
  rw [List.takeWhile_cons]
  by_cases held : e.after = .suspicious <;> simp [held]

private theorem regressions_cons (e : Event) (history : List Event) :
    regressions (e :: history) =
      if e.reanchors then 0
      else if e.regresses then regressions history + 1 else regressions history := by
  unfold regressions
  rw [List.takeWhile_cons]
  cases closed : e.reanchors with
  | true => rfl
  | false =>
      simp only [Bool.not_false, if_true, List.countP_cons, Bool.false_eq_true, if_false]
      split <;> rfl

/-- The exponents at which the doubled threshold has reached its ceiling. -/
def saturating (p : Params) : Set ℕ :=
  {k | p.maxDownHysteresisThreshold.toNat ≤ p.downHysteresisThreshold.toNat * 2 ^ k}

/-- The counters of `c`, read off the history that led to it. -/
structure CountersExact (p : Params) (history : List Event) (c : Core) : Prop where
  streak : c.unhealthyStreak.toNat = unhealthyRun history
  streak_anchored : c.state = .anchored → c.unhealthyStreak < p.downHysteresisThreshold
  streak_recovering : c.state = .recovering →
    c.unhealthyStreak < effectiveDownHysteresisThreshold c.failedRecoveryAttempts p
  streak_elsewhere : c.state ≠ .anchored → c.state ≠ .recovering → c.unhealthyStreak = 0
  duration : c.suspiciousDuration.toNat = suspiciousRun history
  duration_bound : c.suspiciousDuration ≤ p.maxSuspiciousTime
  attempts : ∃ k, IsLeast (saturating p) k ∧
    c.failedRecoveryAttempts.toNat = min (regressions history) k
  safeBlocks_bound : c.safeBlocks ≤ p.hysteresisWait
  safeBlocks_elsewhere : c.state ≠ .recovering → c.safeBlocks = 0
  suspiciousSafeBlocks_bound : c.suspiciousSafeBlocks ≤ p.suspiciousHysteresisWait
  suspiciousSafeBlocks_elsewhere : c.state ≠ .suspicious → c.suspiciousSafeBlocks = 0

private theorem exists_least_saturating {p : Params} (positive : 1 ≤ p.downHysteresisThreshold) :
    ∃ k, IsLeast (saturating p) k := by
  have room : 1 ≤ p.downHysteresisThreshold.toNat := UInt64.le_iff_toNat_le.mp positive
  have reached : ∃ k, k ∈ saturating p := by
    refine ⟨p.maxDownHysteresisThreshold.toNat, ?_⟩
    calc p.maxDownHysteresisThreshold.toNat
        ≤ 2 ^ p.maxDownHysteresisThreshold.toNat := Nat.lt_two_pow_self.le
      _ ≤ p.downHysteresisThreshold.toNat * 2 ^ p.maxDownHysteresisThreshold.toNat :=
          Nat.le_mul_of_pos_left _ room
  classical
  exact ⟨Nat.find reached, Nat.find_spec reached, fun _ member => Nat.find_min' reached member⟩

private theorem saturating_iff {p : Params} {k : ℕ} (least : IsLeast (saturating p) k) (n : ℕ) :
    n ∈ saturating p ↔ k ≤ n := by
  refine ⟨fun member => least.2 member, fun above => ?_⟩
  have grown : p.downHysteresisThreshold.toNat * 2 ^ k ≤
      p.downHysteresisThreshold.toNat * 2 ^ n :=
    Nat.mul_le_mul_left _ (Nat.pow_le_pow_right (by omega) above)
  exact le_trans least.1 grown

section Words

theorem nextLeaky_le {home current target : FSMState} {count cap : UInt64} {healthy : Bool}
    (bounded : count ≤ cap) : nextLeaky home current target count healthy cap ≤ cap := by
  unfold nextLeaky
  rw [UInt64.le_iff_toNat_le] at bounded ⊢
  split_ifs with left _ above empty
  · simp
  · exact le_refl _
  · exact UInt64.le_iff_toNat_le.mp (not_lt.mp above)
  · simp
  · rw [toNat_sub_one empty]
    omega

private theorem nextLeaky_elsewhere {home current target : FSMState} {count cap : UInt64}
    {healthy : Bool} (left : target ≠ home) :
    nextLeaky home current target count healthy cap = 0 := by
  unfold nextLeaky
  rw [if_pos (Or.inl left)]

end Words

section Step

variable {p : Params} {history : List Event} {c : Core}

theorem streak_step (r : Reading) (counted : c.unhealthyStreak.toNat = unhealthyRun history)
    (room : c.unhealthyStreak.toNat < 2 ^ 62) :
    (c.advance p r).unhealthyStreak.toNat = unhealthyRun
      (⟨c.state, c.target p r, isHealthyCondition r.metrics p⟩ :: history) := by
  have more := toNat_add_one (a := c.unhealthyStreak) (by omega)
  rw [unhealthyRun_cons]
  simp only [Core.advance, Core.move, nextUnhealthyStreak, absorbed_iff]
  split
  · rw [more, counted]
  · rfl

private theorem duration_step (r : Reading)
    (counted : c.suspiciousDuration.toNat = suspiciousRun history)
    (limit : p.maxSuspiciousTime.toNat < 2 ^ 62)
    (bound : c.target p r = .suspicious → c.suspiciousDuration.toNat < p.maxSuspiciousTime.toNat) :
    (c.advance p r).suspiciousDuration.toNat = suspiciousRun
        (⟨c.state, c.target p r, isHealthyCondition r.metrics p⟩ :: history) ∧
      (c.advance p r).suspiciousDuration ≤ p.maxSuspiciousTime := by
  have moved : (c.advance p r).suspiciousDuration =
      nextSuspiciousDuration c.state (c.target p r) c.suspiciousDuration p := rfl
  rw [suspiciousRun_cons, UInt64.le_iff_toNat_le, moved]
  by_cases held : c.target p r = .suspicious
  · have below := bound held
    rw [toNat_nextSuspiciousDuration c.state _ (by omega) (by omega), if_pos held, if_pos held]
    omega
  · simp [nextSuspiciousDuration, held]

private theorem least_saturating_le {k : ℕ} (least : IsLeast (saturating p) k)
    (ceiling : p.maxDownHysteresisThreshold.toNat < 2 ^ 62)
    (positive : 1 ≤ p.downHysteresisThreshold) : k ≤ 62 := by
  apply least.2
  calc p.maxDownHysteresisThreshold.toNat ≤ 2 ^ 62 := ceiling.le
    _ ≤ p.downHysteresisThreshold.toNat * 2 ^ 62 :=
        Nat.le_mul_of_pos_left _ (UInt64.le_iff_toNat_le.mp positive)

private theorem attempts_step (r : Reading) {k : ℕ} (least : IsLeast (saturating p) k)
    (ceiling : p.maxDownHysteresisThreshold.toNat < 2 ^ 62)
    (positive : 1 ≤ p.downHysteresisThreshold)
    (counted : c.failedRecoveryAttempts.toNat = min (regressions history) k) :
    (c.advance p r).failedRecoveryAttempts.toNat = min (regressions
      (⟨c.state, c.target p r, isHealthyCondition r.metrics p⟩ :: history)) k := by
  have room := least_saturating_le least ceiling positive
  have saturated : p.downHysteresisThreshold.toNat * 2 ^ c.failedRecoveryAttempts.toNat ≥
      p.maxDownHysteresisThreshold.toNat ↔ k ≤ c.failedRecoveryAttempts.toNat :=
    saturating_iff least _
  have moved : (c.advance p r).failedRecoveryAttempts =
      nextFailedRecoveryAttempts c.state (c.target p r) c.failedRecoveryAttempts p := rfl
  rw [regressions_cons, moved, toNat_nextFailedRecoveryAttempts _ _ (by omega) (by omega)]
  simp only [saturated, reanchors_iff, regresses_iff]
  by_cases regressed : c.state = .recovering ∧ c.target p r = .sovereign
  · have lasting : ¬ (c.state = .recovering ∧ c.target p r = .anchored) := by
      simp [regressed.2]
    simp only [if_pos regressed, if_neg lasting]
    split <;> omega
  · simp only [if_neg regressed]
    split
    · simp
    · exact counted

private theorem duration_below_of_suspicious {r : Reading} (held : c.target p r = .suspicious) :
    c.suspiciousDuration.toNat < p.maxSuspiciousTime.toNat := by
  have calm := Core.calm_of_suspicious held
  simp only [isCriticalCondition, Bool.or_eq_false_iff, decide_eq_false_iff_not] at calm
  exact UInt64.lt_iff_toNat_lt.mp (not_le.mp calm.2)

private theorem streak_bounds (positive : 1 ≤ p.downHysteresisThreshold)
    (ordered : p.downHysteresisThreshold ≤ p.maxDownHysteresisThreshold)
    (ceiling : p.maxDownHysteresisThreshold.toNat < 2 ^ 62) (r : Reading) :
    let c' := c.advance p r
    (c'.state = .anchored → c'.unhealthyStreak < p.downHysteresisThreshold) ∧
      (c'.state = .recovering → c'.unhealthyStreak <
        effectiveDownHysteresisThreshold c'.failedRecoveryAttempts p) ∧
      (c'.state ≠ .anchored → c'.state ≠ .recovering → c'.unhealthyStreak = 0) := by
  intro c'
  have downPositive := pos_of_one_le positive
  have effectivePositive : ∀ n, 0 < effectiveDownHysteresisThreshold n p := by
    intro n
    rw [UInt64.lt_iff_toNat_lt, toNat_effectiveDownHysteresisThreshold (by omega)]
    rw [UInt64.le_iff_toNat_le] at ordered
    rw [UInt64.lt_iff_toNat_lt] at downPositive
    have power := Nat.mul_pos downPositive (Nat.two_pow_pos n.toNat)
    simp only [UInt64.toNat_zero] at downPositive power ⊢
    omega
  have moved : c'.unhealthyStreak = nextUnhealthyStreak c.state (c.target p r) c.unhealthyStreak
    (isHealthyCondition r.metrics p) := rfl
  have attempts : c'.failedRecoveryAttempts = nextFailedRecoveryAttempts c.state (c.target p r)
    c.failedRecoveryAttempts p := rfl
  have state : c'.state = c.target p r := rfl
  rw [state, moved, attempts]
  by_cases stays : c.state = c.target p r ∧ (c.state = .anchored ∨ c.state = .recovering) ∧
      isHealthyCondition r.metrics p = false
  · -- an absorbed block is below the threshold, or the target would have moved
    obtain ⟨kept, home, sick⟩ := stays
    have guards := c.target_cases p r
    simp only [← kept, nextUnhealthyStreak, nextFailedRecoveryAttempts, sick] at guards ⊢
    rcases home with home | home <;> simp only [home] at guards ⊢ <;> simp at guards ⊢ <;>
      exact guards.2
  · rw [nextUnhealthyStreak, if_neg stays]
    exact ⟨fun _ => downPositive, fun _ => effectivePositive _, fun _ _ => rfl⟩

end Step

private theorem CountersExact.streak_room {p : Params} {history : List Event} {c : Core}
    (counters : CountersExact p history c) (down : p.downHysteresisThreshold.toNat < 2 ^ 62)
    (ceiling : p.maxDownHysteresisThreshold.toNat < 2 ^ 62) :
    c.unhealthyStreak.toNat < 2 ^ 62 := by
  by_cases anchored : c.state = .anchored
  · have below := counters.streak_anchored anchored
    rw [UInt64.lt_iff_toNat_lt] at below
    omega
  · by_cases recovering : c.state = .recovering
    · have below := counters.streak_recovering recovering
      rw [UInt64.lt_iff_toNat_lt, toNat_effectiveDownHysteresisThreshold (by omega)] at below
      omega
    · simp [counters.streak_elsewhere anchored recovering]

theorem FsmRun.countersExact {p : Params} (small : p.Small)
    (positive : 1 ≤ p.downHysteresisThreshold)
    (ordered : p.downHysteresisThreshold ≤ p.maxDownHysteresisThreshold)
    {history : List Event} {now : Core} (run : FsmRun p history now) :
    CountersExact p history now := by
  have down : p.downHysteresisThreshold.toNat < 2 ^ 62 := small _ (by simp [Params.fields])
  have ceiling : p.maxDownHysteresisThreshold.toNat < 2 ^ 62 := small _ (by simp [Params.fields])
  have limit : p.maxSuspiciousTime.toNat < 2 ^ 62 := small _ (by simp [Params.fields])
  obtain ⟨k, least⟩ := exists_least_saturating positive
  refine FsmRun.induction ?_ ?_ run
  · have downPositive := pos_of_one_le positive
    constructor <;> simp [Core.genesis, unhealthyRun, suspiciousRun, regressions, downPositive,
      UInt64.le_iff_toNat_le]
    exact ⟨k, least⟩
  · intro history c r _ counters
    obtain ⟨k', least', attempts⟩ := counters.attempts
    obtain rfl := least.unique least'
    have room := counters.streak_room down ceiling
    obtain ⟨duration, bounded⟩ := duration_step r counters.duration limit
      duration_below_of_suspicious
    obtain ⟨anchored, recovering, elsewhere⟩ := streak_bounds positive ordered ceiling r (c := c)
    exact
      { streak := streak_step r counters.streak room
        streak_anchored := anchored
        streak_recovering := recovering
        streak_elsewhere := elsewhere
        duration := duration
        duration_bound := bounded
        attempts := ⟨k, least, attempts_step r least ceiling positive attempts⟩
        safeBlocks_bound := nextLeaky_le counters.safeBlocks_bound
        safeBlocks_elsewhere := nextLeaky_elsewhere
        suspiciousSafeBlocks_bound := nextLeaky_le counters.suspiciousSafeBlocks_bound
        suspiciousSafeBlocks_elsewhere := nextLeaky_elsewhere }

end Engram.Fsm
