import Mathlib.Data.List.Infix
import Mathlib.Tactic.Common
import Mathlib.Tactic.IntervalCases

/-!
Lower-case hexadecimal text of byte strings. A text found inside another one starts
either at a byte of it or in the middle of a byte.
-/

set_option autoImplicit false
set_option relaxedAutoImplicit false

namespace Engram.Library.HexText

/-- The half bytes of a byte string, high half first. -/
def nibbles : List UInt8 → List ℕ
  | [] => []
  | b :: bs => b.toNat / 16 :: b.toNat % 16 :: nibbles bs

def toHex (bytes : List UInt8) : List Char := (nibbles bytes).map Nat.digitChar

def digitValue (c : Char) : ℕ := if c.toNat ≤ 57 then c.toNat - 48 else c.toNat - 87

private theorem digitValue_digitChar {n : ℕ} (small : n < 16) : digitValue n.digitChar = n := by
  interval_cases n <;> rfl

theorem nibbles_lt (bytes : List UInt8) : ∀ n ∈ nibbles bytes, n < 16 := by
  induction bytes with
  | nil => simp [nibbles]
  | cons b bs ih =>
      have bound := b.toNat_lt
      intro n listed
      simp only [nibbles, List.mem_cons] at listed
      rcases listed with rfl | rfl | listed
      · omega
      · omega
      · exact ih n listed

private theorem map_digitValue_toHex (bytes : List UInt8) :
    (toHex bytes).map digitValue = nibbles bytes := by
  rw [toHex, List.map_map]
  conv_rhs => rw [← List.map_id (nibbles bytes)]
  apply List.map_congr_left
  intro n listed
  exact digitValue_digitChar (nibbles_lt bytes n listed)

theorem length_toHex (bytes : List UInt8) : (toHex bytes).length = 2 * bytes.length := by
  rw [toHex, List.length_map]
  induction bytes with
  | nil => rfl
  | cons b bs ih =>
      simp only [nibbles, List.length_cons, ih]
      omega

private theorem nibbles_drop (bytes : List UInt8) (k : ℕ) :
    nibbles (bytes.drop k) = (nibbles bytes).drop (2 * k) := by
  induction k generalizing bytes with
  | zero => rfl
  | succ k ih =>
      cases bytes with
      | nil => simp [nibbles]
      | cons b bs =>
          rw [List.drop_succ_cons, ih]
          rfl

theorem toHex_drop (bytes : List UInt8) (k : ℕ) :
    toHex (bytes.drop k) = (toHex bytes).drop (2 * k) := by
  rw [toHex, nibbles_drop, List.map_drop]
  rfl

private theorem nibbles_prefix_iff (p bytes : List UInt8) :
    nibbles p <+: nibbles bytes ↔ p <+: bytes := by
  induction p generalizing bytes with
  | nil => simp [nibbles]
  | cons b p ih =>
      cases bytes with
      | nil => simp [nibbles]
      | cons b' bytes =>
          have same : b.toNat / 16 = b'.toNat / 16 ∧ b.toNat % 16 = b'.toNat % 16 ↔ b = b' := by
            rw [← UInt8.toNat_inj]
            omega
          simp only [nibbles, List.cons_prefix_cons, ih, ← and_assoc, same]

theorem toHex_prefix_iff (p bytes : List UInt8) : toHex p <+: toHex bytes ↔ p <+: bytes := by
  rw [← nibbles_prefix_iff]
  constructor
  · intro found
    have read := found.map digitValue
    rwa [map_digitValue_toHex, map_digitValue_toHex] at read
  · exact fun found => found.map _

/-- `p` is found in the bytes from the low half of byte `k` on. -/
def FoundBetween (p bytes : List UInt8) (k : ℕ) : Prop :=
  nibbles p <+: (nibbles bytes).drop (2 * k + 1)

private theorem infix_iff_exists_drop {α : Type} (l l' : List α) :
    l <:+: l' ↔ ∃ k, l <+: l'.drop k := by
  constructor
  · rintro ⟨s, t, rfl⟩
    refine ⟨s.length, ?_⟩
    rw [List.append_assoc, List.drop_left]
    exact List.prefix_append _ _
  · rintro ⟨k, found⟩
    exact found.isInfix.trans (List.drop_suffix k l').isInfix

/-- A text is found in another one at a byte of it or between two. -/
theorem toHex_infix_iff (p bytes : List UInt8) : toHex p <:+: toHex bytes ↔
    (∃ k, p <+: bytes.drop k) ∨ ∃ k, FoundBetween p bytes k := by
  have halves : toHex p <:+: toHex bytes ↔ nibbles p <:+: nibbles bytes := by
    constructor
    · intro found
      have read := found.map digitValue
      rwa [map_digitValue_toHex, map_digitValue_toHex] at read
    · exact fun found => found.map _
  rw [halves, infix_iff_exists_drop]
  constructor
  · rintro ⟨k, found⟩
    obtain ⟨h, rfl | rfl⟩ : ∃ h, k = 2 * h ∨ k = 2 * h + 1 := ⟨k / 2, by omega⟩
    · rw [← nibbles_drop, nibbles_prefix_iff] at found
      exact .inl ⟨h, found⟩
    · exact .inr ⟨h, found⟩
  · rintro (⟨k, found⟩ | ⟨k, found⟩)
    · refine ⟨2 * k, ?_⟩
      rwa [← nibbles_drop, nibbles_prefix_iff]
    · exact ⟨2 * k + 1, found⟩

end Engram.Library.HexText
