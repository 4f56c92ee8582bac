import Engram.Keeper.CircuitBreaker
import Mathlib.Dynamics.FixedPoints.Basic

/-!
The exponential backoff on 64-bit words against its meaning over the integers. The
loop tests the ceiling before it doubles, so a doubling can pass the end of the word
before the ceiling stops it; and a zero base never reaches a positive ceiling.
-/

set_option autoImplicit false
set_option relaxedAutoImplicit false

namespace Engram.Keeper

open Engram.Types Engram.Library.Word64

/-- The attempt counter after one more regression to `SOVEREIGN`. -/
def regress (p : Params) (attempts : UInt64) : UInt64 :=
  nextFailedRecoveryAttempts .recovering .sovereign attempts p

/-- What the backoff is for: the capped power of two, never falling, with a counter that
stops. -/
structure Backoff (p : Params) : Prop where
  exact : ∀ n : UInt64, (effectiveDownHysteresisThreshold n p).toNat =
    min (p.downHysteresisThreshold.toNat * 2 ^ n.toNat) p.maxDownHysteresisThreshold.toNat
  monotone : ∀ n m : UInt64, n ≤ m →
    effectiveDownHysteresisThreshold n p ≤ effectiveDownHysteresisThreshold m p
  saturates : ∀ attempts : UInt64, ∃ k ≤ 64,
    Function.IsFixedPt (regress p) ((regress p)^[k] attempts)

/-- No doubling of the base that fills the top bit lies below the ceiling. -/
def Unwrapped (p : Params) : Prop :=
  ∀ i < 64, 2 ^ 63 ≤ p.downHysteresisThreshold.toNat * 2 ^ i →
    p.maxDownHysteresisThreshold.toNat ≤ p.downHysteresisThreshold.toNat * 2 ^ i

instance (p : Params) : Decidable (Unwrapped p) :=
  inferInstanceAs (Decidable (∀ i < 64, _))

variable {p : Params}

private theorem le_mul_two_pow_of_pos {base : ℕ} (positive : base ≠ 0) (ceiling : UInt64) {i : ℕ}
    (many : 64 ≤ i) : ceiling.toNat ≤ base * 2 ^ i := by
  have bound := ceiling.toNat_lt
  have power : 2 ^ 64 ≤ 2 ^ i := Nat.pow_le_pow_right (by omega) many
  have grown : 2 ^ i ≤ base * 2 ^ i := Nat.le_mul_of_pos_left _ (by omega)
  omega

theorem Unwrapped.all (unwrapped : Unwrapped p) (i : ℕ)
    (large : 2 ^ 63 ≤ p.downHysteresisThreshold.toNat * 2 ^ i) :
    p.maxDownHysteresisThreshold.toNat ≤ p.downHysteresisThreshold.toNat * 2 ^ i := by
  by_cases few : i < 64
  · exact unwrapped i few large
  · have positive : p.downHysteresisThreshold.toNat ≠ 0 := by
      rintro zero
      simp [zero] at large
    exact le_mul_two_pow_of_pos positive _ (by omega)

theorem Unwrapped.exact (unwrapped : Unwrapped p) (n : UInt64) :
    (effectiveDownHysteresisThreshold n p).toNat =
      min (p.downHysteresisThreshold.toNat * 2 ^ n.toNat) p.maxDownHysteresisThreshold.toNat :=
  toNat_effectiveLoop_of_unwrapped _ unwrapped.all

private theorem effectiveLoop_lt_of_wrap {maxThreshold : UInt64} (i : ℕ) {effective : UInt64}
    (full : 2 ^ 63 ≤ effective.toNat * 2 ^ i)
    (below : effective.toNat * 2 ^ i < maxThreshold.toNat) :
    (effectiveLoop maxThreshold (i + 1) effective).toNat < maxThreshold.toNat := by
  have bound := maxThreshold.toNat_lt
  induction i generalizing effective with
  | zero =>
      rw [Nat.pow_zero, Nat.mul_one] at full below
      have doubled : (effective * 2).toNat = effective.toNat * 2 % 2 ^ 64 := UInt64.toNat_mul _ _
      have unmet : ¬ maxThreshold ≤ effective := by
        rw [UInt64.le_iff_toNat_le]
        omega
      have fallen : ¬ maxThreshold < effective * 2 := by
        rw [UInt64.lt_iff_toNat_lt, doubled]
        omega
      simp only [effectiveLoop, ge_iff_le, unmet, if_false, gt_iff_lt, fallen, doubled]
      omega
  | succ i ih =>
      have grown : effective.toNat * 2 ≤ effective.toNat * 2 ^ (i + 1) := by
        rw [Nat.pow_succ', ← Nat.mul_assoc]
        exact Nat.le_mul_of_pos_right _ (Nat.two_pow_pos _)
      have doubled : (effective * 2).toNat = effective.toNat * 2 := by
        rw [UInt64.toNat_mul]
        exact Nat.mod_eq_of_lt (by change effective.toNat * 2 < _; omega)
      have later : (effective * 2).toNat * 2 ^ i = effective.toNat * 2 ^ (i + 1) := by
        rw [doubled, Nat.mul_assoc, Nat.pow_succ']
      have unmet : ¬ maxThreshold ≤ effective := by
        rw [UInt64.le_iff_toNat_le]
        omega
      rw [effectiveLoop, if_neg unmet]
      exact ih (by rw [later]; exact full) (by rw [later]; exact below)

theorem Backoff.unwrapped (backoff : Backoff p) : Unwrapped p := by
  intro i few full
  by_contra short
  have below := Nat.lt_of_not_le short
  have bound := p.maxDownHysteresisThreshold.toNat_lt
  have fallen := effectiveLoop_lt_of_wrap i full below
  have attempts : (UInt64.ofNat (i + 1)).toNat = i + 1 :=
    UInt64.toNat_ofNat_of_lt (by change i + 1 < 2 ^ 64; omega)
  have reached := backoff.exact (UInt64.ofNat (i + 1))
  rw [effectiveDownHysteresisThreshold, attempts, Nat.pow_succ, ← Nat.mul_assoc] at reached
  omega

private theorem Unwrapped.isFixedPt_iff (unwrapped : Unwrapped p) (attempts : UInt64) :
    Function.IsFixedPt (regress p) attempts ↔ p.maxDownHysteresisThreshold.toNat ≤
      p.downHysteresisThreshold.toNat * 2 ^ attempts.toNat := by
  have met : effectiveDownHysteresisThreshold attempts p ≥ p.maxDownHysteresisThreshold ↔
      p.maxDownHysteresisThreshold.toNat ≤
        p.downHysteresisThreshold.toNat * 2 ^ attempts.toNat := by
    rw [ge_iff_le, UInt64.le_iff_toNat_le, unwrapped.exact]
    omega
  have moves : attempts + 1 ≠ attempts := by
    intro same
    exact toNat_add_one_ne attempts (congrArg UInt64.toNat same)
  change regress p attempts = attempts ↔ _
  simp only [regress, nextFailedRecoveryAttempts, and_self, if_true, met]
  split_ifs with reached
  · simp [reached]
  · simp [reached, moves]

private theorem Unwrapped.saturates (unwrapped : Unwrapped p)
    (positive : p.downHysteresisThreshold ≠ 0) (attempts : UInt64) :
    ∃ k ≤ 64 - attempts.toNat, Function.IsFixedPt (regress p) ((regress p)^[k] attempts) := by
  have base : p.downHysteresisThreshold.toNat ≠ 0 := fun zero =>
    positive (UInt64.toNat_inj.mp zero)
  induction left : 64 - attempts.toNat generalizing attempts with
  | zero =>
      exact ⟨0, le_rfl, (unwrapped.isFixedPt_iff attempts).mpr
        (le_mul_two_pow_of_pos base _ (by omega))⟩
  | succ d ih =>
      by_cases fixed : Function.IsFixedPt (regress p) attempts
      · exact ⟨0, Nat.zero_le _, fixed⟩
      · have unmet := fixed
        rw [unwrapped.isFixedPt_iff] at unmet
        have counted := toNat_add_one (a := attempts) (by omega)
        have stepped : regress p attempts = attempts + 1 := by
          have below : ¬ effectiveDownHysteresisThreshold attempts p ≥
              p.maxDownHysteresisThreshold := by
            rw [ge_iff_le, UInt64.le_iff_toNat_le, unwrapped.exact]
            omega
          simp only [regress, nextFailedRecoveryAttempts, and_self, if_true, if_neg below]
        obtain ⟨k, few, fixed'⟩ := ih (attempts + 1) (by omega)
        refine ⟨k + 1, by omega, ?_⟩
        rwa [Function.iterate_succ_apply, stepped]

theorem Backoff.base (backoff : Backoff p) :
    p.downHysteresisThreshold ≠ 0 ∨ p.maxDownHysteresisThreshold = 0 := by
  by_contra stuck
  obtain ⟨zero, positive⟩ := not_or.mp stuck
  obtain ⟨k, -, fixed⟩ := backoff.saturates 0
  rw [backoff.unwrapped.isFixedPt_iff, not_not.mp zero] at fixed
  exact positive (UInt64.toNat_inj.mp (by simpa using fixed))

/-- The backoff means what it says exactly when no doubling wraps below the ceiling and
the base is positive, unless the ceiling itself is zero. -/
theorem backoff_iff (p : Params) : Backoff p ↔ Unwrapped p ∧
    (p.downHysteresisThreshold ≠ 0 ∨ p.maxDownHysteresisThreshold = 0) := by
  constructor
  · intro backoff
    exact ⟨backoff.unwrapped, backoff.base⟩
  · rintro ⟨unwrapped, base⟩
    refine ⟨unwrapped.exact, ?_, ?_⟩
    · intro n m le
      have power : 2 ^ n.toNat ≤ 2 ^ m.toNat :=
        Nat.pow_le_pow_right (by omega) (UInt64.le_iff_toNat_le.mp le)
      rw [UInt64.le_iff_toNat_le, unwrapped.exact, unwrapped.exact]
      have grown := Nat.mul_le_mul_left p.downHysteresisThreshold.toNat power
      omega
    · intro attempts
      rcases base with positive | zero
      · obtain ⟨k, few, fixed⟩ := unwrapped.saturates positive attempts
        exact ⟨k, by omega, fixed⟩
      · refine ⟨0, Nat.zero_le _, (unwrapped.isFixedPt_iff _).mpr ?_⟩
        rw [zero]
        exact Nat.zero_le _

def wrappingParams : Params :=
  { defaultParams with
    downHysteresisThreshold := 0x8000000000000000
    maxDownHysteresisThreshold := 0xffffffffffffffff }

def baselessParams : Params := { defaultParams with downHysteresisThreshold := 0 }

theorem accepted_params_break_backoff :
    (wrappingParams.Valid ∧ effectiveDownHysteresisThreshold 1 wrappingParams = 0 ∧
      ¬ Backoff wrappingParams) ∧ baselessParams.Valid ∧ ¬ Backoff baselessParams := by
  refine ⟨⟨by decide, by decide, ?_⟩, by decide, ?_⟩
  · intro backoff
    exact absurd backoff.unwrapped (by decide)
  · intro backoff
    exact absurd backoff.base (by decide)

end Engram.Keeper
