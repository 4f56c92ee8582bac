import Mathlib.Algebra.Group.Int.Defs
import Mathlib.Algebra.Group.Nat.Defs
import Mathlib.Order.Defs.LinearOrder
import Mathlib.Data.List.Lex
import Mathlib.Tactic.Common

/-!
Unsigned 64-bit words as ordered keys and as operands of a clamped signed
subtraction. Everything is reduced to natural or integer arithmetic through
`toNat` and `toInt`, where linear arithmetic decides it.
-/

set_option autoImplicit false
set_option relaxedAutoImplicit false

namespace Engram.Library.Word64

instance word64LinearOrder : LinearOrder UInt64 where
  le_refl := UInt64.le_refl
  le_trans _ _ _ := UInt64.le_trans
  le_antisymm _ _ := UInt64.le_antisymm
  le_total := UInt64.le_total
  lt_iff_le_not_ge a b := by
    rw [UInt64.lt_iff_toNat_lt, UInt64.le_iff_toNat_le, UInt64.le_iff_toNat_le]
    omega
  toDecidableLE := inferInstance
  toDecidableEq := inferInstance
  toDecidableLT := inferInstance

instance byteLinearOrder : LinearOrder UInt8 where
  le_refl := UInt8.le_refl
  le_trans _ _ _ := UInt8.le_trans
  le_antisymm _ _ := UInt8.le_antisymm
  le_total := UInt8.le_total
  lt_iff_le_not_ge a b := by
    rw [UInt8.lt_iff_toNat_lt, UInt8.le_iff_toNat_le, UInt8.le_iff_toNat_le]
    omega
  toDecidableLE := inferInstance
  toDecidableEq := inferInstance
  toDecidableLT := inferInstance

theorem toNat_add_one {a : UInt64} (room : a.toNat + 1 < 2 ^ 64) :
    (a + 1).toNat = a.toNat + 1 := by
  rw [UInt64.toNat_add]
  exact Nat.mod_eq_of_lt (by change a.toNat + 1 < _; omega)

/-- An increment adds one exactly when the word is not full. -/
theorem toNat_add_one_eq_iff (a : UInt64) : (a + 1).toNat = a.toNat + 1 ↔ a.toNat + 1 < 2 ^ 64 := by
  refine ⟨fun same => ?_, toNat_add_one⟩
  rw [← same]
  exact (a + 1).toNat_lt

/-- A full word wraps to zero. -/
theorem add_one_eq_zero_of_full {a : UInt64} (full : ¬ a.toNat + 1 < 2 ^ 64) : a + 1 = 0 := by
  have bound := a.toNat_lt
  have last : a.toNat + 1 = 2 ^ 64 := by omega
  apply UInt64.toNat_inj.mp
  rw [UInt64.toNat_add]
  change (a.toNat + 1) % 2 ^ 64 = 0
  rw [last, Nat.mod_self]

theorem toNat_add_one_ne (a : UInt64) : (a + 1).toNat ≠ a.toNat := by
  by_cases room : a.toNat + 1 < 2 ^ 64
  · rw [toNat_add_one room]
    omega
  · rw [add_one_eq_zero_of_full room]
    change 0 ≠ _
    omega

/-- Wrapping or not, an increment adds at most one. -/
theorem toNat_add_one_le (a : UInt64) : (a + 1).toNat ≤ a.toNat + 1 := by
  rw [UInt64.toNat_add]
  exact Nat.mod_le _ _

theorem pos_of_one_le {a : UInt64} (occupied : 1 ≤ a) : 0 < a := by
  rw [UInt64.lt_iff_toNat_lt]
  exact UInt64.le_iff_toNat_le.mp occupied

theorem toNat_sub_one {a : UInt64} (positive : a ≠ 0) : (a - 1).toNat = a.toNat - 1 := by
  have occupied : a.toNat ≠ 0 := fun zero => positive (UInt64.toNat_inj.mp zero)
  rw [UInt64.toNat_sub_of_le _ _ (by rw [UInt64.le_iff_toNat_le]; change 1 ≤ _; omega)]
  rfl

/-- A signed word clamped at zero and reinterpreted as unsigned. -/
def clampSigned (x : Int64) : UInt64 :=
  if x < 0 then 0 else x.toUInt64

private theorem toNat_clampSigned (w : UInt64) :
    (clampSigned w.toInt64).toNat = if w.toNat < 2 ^ 63 then w.toNat else 0 := by
  have sign : w.toInt64.toInt = w.toBitVec.toInt := rfl
  have bits : w.toBitVec.toNat = w.toNat := rfl
  unfold clampSigned
  simp only [Int64.lt_iff_toInt_lt, Int64.toInt_zero, sign,
    BitVec.toInt_eq_toNat_cond, bits]
  have bound := w.toNat_lt
  by_cases low : w.toNat < 2 ^ 63
  · have twice : 2 * w.toNat < 2 ^ 64 := by omega
    rw [if_pos twice, if_neg (by omega), if_pos low]
    rfl
  · have twice : ¬ 2 * w.toNat < 2 ^ 64 := by omega
    rw [if_neg twice, if_pos (by omega), if_neg low]
    rfl

/-- The clamped word of an integer `d` that was computed modulo the word size. -/
theorem toNat_clampSigned_of_emod {w : UInt64} {d : ℤ} (wrapped : (w.toNat : ℤ) = d % 2 ^ 64) :
    ((clampSigned w.toInt64).toNat : ℤ) = if d % 2 ^ 64 < 2 ^ 63 then d % 2 ^ 64 else 0 := by
  rw [toNat_clampSigned]
  split_ifs <;> omega

/-- Below `2 ^ 63` the clamped signed difference is truncated subtraction. -/
theorem toNat_clampSigned_sub {a b : UInt64} (ha : a.toNat < 2 ^ 63) (hb : b.toNat ≤ 2 ^ 63) :
    (clampSigned (a.toInt64 - b.toInt64)).toNat = a.toNat - b.toNat := by
  have wrapped : a.toInt64 - b.toInt64 = (a - b).toInt64 := rfl
  rw [wrapped, toNat_clampSigned, UInt64.toNat_sub]
  split <;> omega

/-- The same for two successive differences that together stay below `2 ^ 63`. -/
theorem toNat_clampSigned_sub_sub {a b c : UInt64} (ha : a.toNat < 2 ^ 63)
    (hbc : b.toNat + c.toNat ≤ 2 ^ 63) :
    (clampSigned (a.toInt64 - b.toInt64 - c.toInt64)).toNat =
      a.toNat - (b.toNat + c.toNat) := by
  have wrapped : a.toInt64 - b.toInt64 - c.toInt64 = (a - b - c).toInt64 := rfl
  rw [wrapped, toNat_clampSigned, UInt64.toNat_sub, UInt64.toNat_sub]
  split <;> omega

end Engram.Library.Word64
