import Mathlib.Data.Nat.Bitwise

/-!
The protobuf wire format: base-128 numbers, and a message as a list of fields that are
either a number or a payload behind its length.
-/

set_option autoImplicit false
set_option relaxedAutoImplicit false

namespace Engram.Library.Wire

/-- A number in groups of seven bits, lowest first, with a continuation bit on every
group but the last. -/
def varint (n : ℕ) : List UInt8 :=
  if n < 128 then [n.toUInt8] else (n % 128 + 128).toUInt8 :: varint (n / 128)

theorem varint_of_lt {n : ℕ} (small : n < 128) : varint n = [n.toUInt8] := by
  rw [varint, if_pos small]

private theorem varint_of_le {n : ℕ} (large : 128 ≤ n) :
    varint n = (n % 128 + 128).toUInt8 :: varint (n / 128) := by
  rw [varint, if_neg (by omega)]

theorem length_varint_le {k n : ℕ} (below : n < 128 ^ (k + 1)) : (varint n).length ≤ k + 1 := by
  induction k generalizing n with
  | zero =>
      rw [varint_of_lt (by omega)]
      exact le_rfl
  | succ k ih =>
      by_cases small : n < 128
      · rw [varint_of_lt small, List.length_singleton]
        omega
      · rw [varint_of_le (by omega), List.length_cons]
        have rest : n / 128 < 128 ^ (k + 1) := by
          rw [Nat.div_lt_iff_lt_mul (by omega), ← pow_succ]
          exact below
        have := ih rest
        omega

/-- A reader that ORs the groups in from the lowest one up, starting at bit `shift`. -/
def readVarint : ℕ → ℕ → List UInt8 → Option (ℕ × List UInt8)
  | _, _, [] => none
  | value, shift, b :: rest =>
      let value := value ||| ((b.toNat &&& 0x7F) <<< shift)
      if b.toNat &&& 0x80 = 0 then some (value, rest) else readVarint value (shift + 7) rest

private theorem group_of_lt {n : ℕ} (small : n < 128) :
    n.toUInt8.toNat &&& 0x7F = n ∧ n.toUInt8.toNat &&& 0x80 = 0 := by
  have byte : n.toUInt8.toNat = n := by
    rw [Nat.toUInt8_eq, UInt8.toNat_ofNat']
    omega
  rw [byte]
  revert n
  decide

private theorem group_of_continued (n : ℕ) :
    (n % 128 + 128).toUInt8.toNat &&& 0x7F = n % 128 ∧
      (n % 128 + 128).toUInt8.toNat &&& 0x80 ≠ 0 := by
  have byte : (n % 128 + 128).toUInt8.toNat = n % 128 + 128 := by
    rw [Nat.toUInt8_eq, UInt8.toNat_ofNat']
    omega
  have groups : ∀ g < 128, g + 128 &&& 0x7F = g ∧ g + 128 &&& 0x80 ≠ 0 := by decide
  rw [byte]
  exact groups _ (Nat.mod_lt n (by omega))

private theorem or_shiftLeft_seven (n : ℕ) : n % 128 ||| (n / 128) <<< 7 = n := by
  rw [Nat.or_comm, ← Nat.shiftLeft_add_eq_or_of_lt (Nat.mod_lt n (by omega : 0 < 2 ^ 7)),
    Nat.shiftLeft_eq]
  omega

/-- The reader gives a written number back, with the bytes behind it. -/
theorem readVarint_varint (value shift n : ℕ) (rest : List UInt8) :
    readVarint value shift (varint n ++ rest) = some (value ||| n <<< shift, rest) := by
  induction n using Nat.strong_induction_on generalizing value shift with
  | h n ih =>
      by_cases small : n < 128
      · obtain ⟨group, last⟩ := group_of_lt small
        rw [varint_of_lt small, List.singleton_append, readVarint]
        simp only [group, last, if_true]
      · obtain ⟨group, continued⟩ := group_of_continued n
        rw [varint_of_le (by omega), List.cons_append, readVarint]
        simp only [group, if_neg continued]
        rw [ih (n / 128) (by omega), Nat.or_assoc, Nat.add_comm shift 7, Nat.shiftLeft_add,
          ← Nat.shiftLeft_or_distrib, or_shiftLeft_seven]

inductive Field where
  | number (field value : ℕ)
  | payload (field : ℕ) (bytes : List UInt8)
  deriving DecidableEq

def Field.encode : Field → List UInt8
  | .number field value => varint (field * 8) ++ varint value
  | .payload field bytes => varint (field * 8 + 2) ++ varint bytes.length ++ bytes

/-- A message, field after field. -/
def encode (fields : List Field) : List UInt8 := fields.flatMap Field.encode

theorem encode_cons (field : Field) (fields : List Field) :
    encode (field :: fields) = field.encode ++ encode fields := List.flatMap_cons

/-- Fields that fit a bound each fit its multiple together. -/
theorem length_encode_le {fields : List Field} {bound : ℕ}
    (each : ∀ field ∈ fields, field.encode.length ≤ bound) :
    (encode fields).length ≤ fields.length * bound := by
  induction fields with
  | nil => exact Nat.zero_le _
  | cons field fields ih =>
      have first := each field (by simp)
      have rest := ih (fun other listed => each other (List.mem_cons_of_mem _ listed))
      rw [encode_cons, List.length_append, List.length_cons, Nat.succ_mul]
      omega

private theorem varint_ne_nil (n : ℕ) : varint n ≠ [] := by
  rw [varint]
  split <;> simp

/-- Every field takes a byte at least. -/
theorem length_le_length_encode (fields : List Field) : fields.length ≤ (encode fields).length := by
  induction fields with
  | nil => exact le_rfl
  | cons field fields ih =>
      have byte : 1 ≤ field.encode.length := by
        have tag : ∀ n, 1 ≤ (varint n).length :=
          fun n => List.length_pos_iff.mpr (varint_ne_nil n)
        cases field with
        | number field value =>
            have := tag (field * 8)
            rw [Field.encode, List.length_append]
            omega
        | payload field bytes =>
            have := tag (field * 8 + 2)
            rw [Field.encode, List.length_append, List.length_append]
            omega
      rw [encode_cons, List.length_append, List.length_cons]
      omega

end Engram.Library.Wire
