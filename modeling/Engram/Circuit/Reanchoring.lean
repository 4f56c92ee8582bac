import Engram.Types.RecoveryHeader
import Mathlib.Algebra.GroupWithZero.Nat
import Mathlib.Logic.Function.Basic

/-!
The re-anchoring circuit as a relation between its public inputs and a witness.
The Poseidon2 permutation is a parameter; the sponge around it is the circuit's
own.
-/

set_option autoImplicit false
set_option relaxedAutoImplicit false

namespace Engram.Circuit

open Engram.Types

instance : NeZero bn254ScalarFieldModulus := ⟨Nat.succ_ne_zero _⟩

abbrev Field := Fin bn254ScalarFieldModulus

structure Sponge where
  rate0 : Field
  rate1 : Field
  rate2 : Field
  capacity : Field

def nMax : Nat := 256

structure Header where
  prevHash : Field
  fsmState : Field
  withdrawalLocked : Field
  stateRoot : Field
  deriving DecidableEq

abbrev Headers := Fin 256 → Header

section Constraints

variable (poseidon2Permutation : Sponge → Sponge)

def hashHeader (h : Header) : Field :=
  let iv : Field := 4 * 18446744073709551616
  let state := poseidon2Permutation ⟨h.prevHash, h.fsmState, h.withdrawalLocked, iv⟩
  (poseidon2Permutation { state with rate0 := state.rate0 + h.stateRoot }).rate0

/-- The constraints of `main`. Slots at or above `count` are padding and are left
free. -/
structure Main (rtLast rtNew : Field) (count : UInt32) (headers : Headers) : Prop where
  nonempty : 1 ≤ count.toNat
  fits : count.toNat ≤ nMax
  continuity : ∀ i j : Fin 256, i.val = j.val + 1 → i.val < count.toNat →
    (headers i).prevHash = hashHeader poseidon2Permutation (headers j)
  policy : ∀ i : Fin 256, i.val < count.toNat →
    (headers i).fsmState = 2 ∨ (headers i).fsmState = 3
  breaker : ∀ i : Fin 256, i.val < count.toNat → (headers i).withdrawalLocked = 1
  starts : (headers 0).prevHash = rtLast
  ends : ∀ i : Fin 256, i.val + 1 = count.toNat → (headers i).stateRoot = rtNew

variable {poseidon2Permutation}

def otherCode (code : Field) : Field := if code = 2 then 3 else 2

theorem otherCode_ne {code : Field} (admitted : code = 2 ∨ code = 3) : otherCode code ≠ code := by
  rcases admitted with rfl | rfl <;> decide

def recode (headers : Headers) (slot : Fin 256) : Headers :=
  Function.update headers slot
    { headers slot with fsmState := otherCode (headers slot).fsmState }

private theorem recode_frame (headers : Headers) (slot i : Fin 256) :
    (recode headers slot i).prevHash = (headers i).prevHash ∧
      (recode headers slot i).withdrawalLocked = (headers i).withdrawalLocked ∧
      (recode headers slot i).stateRoot = (headers i).stateRoot := by
  by_cases same : i = slot
  · subst same
    simp [recode]
  · simp [recode, Function.update_of_ne same]

/-- The state code of the last real header is bound by nothing but the policy: it
is not hashed into any other header and not part of the public inputs. -/
theorem Main.recode_last {rtLast rtNew : Field} {count : UInt32} {headers : Headers}
    (satisfied : Main poseidon2Permutation rtLast rtNew count headers) {last : Fin 256}
    (isLast : last.val + 1 = count.toNat) :
    Main poseidon2Permutation rtLast rtNew count (recode headers last) where
  nonempty := satisfied.nonempty
  fits := satisfied.fits
  continuity := by
    intro i j next active
    have earlier : j ≠ last := by
      rintro rfl
      omega
    rw [(recode_frame headers last i).1, satisfied.continuity i j next active, recode,
      Function.update_of_ne earlier]
  policy := by
    intro i active
    by_cases same : i = last
    · subst same
      rw [recode, Function.update_self]
      by_cases code : (headers i).fsmState = 2 <;> simp [otherCode, code]
    · rw [recode, Function.update_of_ne same]
      exact satisfied.policy i active
  breaker := by
    intro i active
    rw [(recode_frame headers last i).2.1]
    exact satisfied.breaker i active
  starts := by rw [(recode_frame headers last 0).1, satisfied.starts]
  ends := by
    intro i isLast'
    rw [(recode_frame headers last i).2.2]
    exact satisfied.ends i isLast'

theorem Main.single (rtLast rtNew : Field) :
    Main poseidon2Permutation rtLast rtNew 1 (fun _ => ⟨rtLast, 2, 1, rtNew⟩) where
  nonempty := by decide
  fits := by decide
  continuity := by
    intro i j next active
    change i.val < 1 at active
    omega
  policy := fun _ _ => .inl rfl
  breaker := fun _ _ => rfl
  starts := rfl
  ends := fun _ _ => rfl

end Constraints

/-- The 96 public-input bytes: the two roots and the count, one field element each. -/
def publicInputs (rtLast rtNew : Field) (count : UInt32) : Bytes :=
  fillBytes rtLast.val ++ fillBytes rtNew.val ++ fillBytes count.toNat

theorem publicInputs_slices (rtLast rtNew : Field) (count : UInt32) :
    (publicInputs rtLast rtNew count).length = 96 ∧
      (publicInputs rtLast rtNew count).take 32 = fillBytes rtLast.val ∧
      ((publicInputs rtLast rtNew count).drop 32).take 32 = fillBytes rtNew.val := by
  have last := length_fillBytes rtLast.val
  have new := length_fillBytes rtNew.val
  refine ⟨by simp [publicInputs, length_fillBytes], ?_, ?_⟩
  · rw [publicInputs, List.append_assoc]
    exact List.take_left' last
  · rw [publicInputs, List.append_assoc, List.drop_left' last]
    exact List.take_left' new

/-- The verifier accepts only inputs for which some witness satisfies the circuit. -/
def Sound (poseidon2Permutation : Sponge → Sponge) (verifyZKProof : Bytes → Bytes → Bool) :
    Prop :=
  ∀ proof inputs, verifyZKProof proof inputs = true → ∃ rtLast rtNew count headers,
    inputs = publicInputs rtLast rtNew count ∧
      Main poseidon2Permutation rtLast rtNew count headers

end Engram.Circuit
