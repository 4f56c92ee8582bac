import Engram.Types.Health

/-!
Tracked headers of a SOVEREIGN/RECOVERING interval, and the reduction of a block
hash into the scalar field of the re-anchoring circuit.
-/

set_option autoImplicit false
set_option relaxedAutoImplicit false

namespace Engram.Types

abbrev Bytes := List UInt8

structure RecoveryHeader where
  fsmState : FSMState
  withdrawalLocked : Bool
  stateRoot : Bytes
  deriving DecidableEq, Repr

def bn254ScalarFieldModulus : Nat :=
  21888242871839275222246405745257275088548364400416034343698204186575808495617

def bigEndian (b : Bytes) : Nat := b.foldl (fun n byte => n * 256 + byte.toNat) 0

/-- The 32-byte big-endian form of a number below `256 ^ 32`. -/
def fillBytes (n : Nat) : Bytes := (List.range 32).map (fun i => (n / 256 ^ (31 - i)).toUInt8)

def reduceToField (b : Bytes) : Bytes := fillBytes (bigEndian b % bn254ScalarFieldModulus)

theorem length_fillBytes (n : Nat) : (fillBytes n).length = 32 := by
  simp [fillBytes]

theorem length_reduceToField (b : Bytes) : (reduceToField b).length = 32 :=
  length_fillBytes _

private theorem bigEndian_concat (b : Bytes) (byte : UInt8) :
    bigEndian (b ++ [byte]) = bigEndian b * 256 + byte.toNat := by
  simp [bigEndian]

private theorem bigEndian_leading (n : Nat) {k : Nat} (fits : k ≤ 32) :
    bigEndian ((List.range k).map (fun i => (n / 256 ^ (31 - i)).toUInt8)) =
      n / 256 ^ (32 - k) % 256 ^ k := by
  induction k with
  | zero => simp [bigEndian, Nat.mod_one]
  | succ k ih =>
      have digit : ((n / 256 ^ (31 - k)).toUInt8).toNat = n / 256 ^ (31 - k) % 256 := rfl
      have above : n / 256 ^ (32 - k) = n / 256 ^ (31 - k) / 256 := by
        rw [Nat.div_div_eq_div_mul, ← Nat.pow_succ]
        congr 2
        omega
      rw [List.range_succ, List.map_append, List.map_singleton, bigEndian_concat, ih (by omega),
        digit, above, show 32 - (k + 1) = 31 - k by omega, Nat.pow_succ', Nat.mod_mul]
      omega

theorem bigEndian_fillBytes {n : Nat} (small : n < bn254ScalarFieldModulus) :
    bigEndian (fillBytes n) = n := by
  have fits : n < 256 ^ 32 := lt_of_lt_of_le small (by decide)
  rw [fillBytes, bigEndian_leading n (le_refl _), Nat.sub_self, Nat.pow_zero, Nat.div_one,
    Nat.mod_eq_of_lt fits]

theorem fillBytes_bigEndian_reduceToField (b : Bytes) :
    bigEndian (reduceToField b) < bn254ScalarFieldModulus ∧
      fillBytes (bigEndian (reduceToField b)) = reduceToField b := by
  have small : bigEndian b % bn254ScalarFieldModulus < bn254ScalarFieldModulus :=
    Nat.mod_lt _ (by decide)
  rw [reduceToField, bigEndian_fillBytes small]
  exact ⟨small, rfl⟩

end Engram.Types
