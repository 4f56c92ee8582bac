import Engram.Chain.StateQuery

/-!
Reading an extended proposal back from its canonical JSON text. The reader
follows the encoder field by field, so it also shows that the text determines
the proposal and ends where it says it does. The decoder of the standard library
accepts many more texts.
-/

set_option autoImplicit false
set_option relaxedAutoImplicit false

namespace Engram.Chain

open Engram.Types Engram.Node

namespace ProposalText

def expect (literal text : Bytes) : Option Bytes :=
  if literal.isPrefixOf text then some (text.drop literal.length) else none

def readBool (text : Bytes) : Option (Bool × Bytes) :=
  match expect (utf8 "true") text with
  | some rest => some (true, rest)
  | none => (expect (utf8 "false") text).map (fun rest => (false, rest))

def isDigit (b : UInt8) : Bool := 48 ≤ b && b ≤ 57

def readNumber (text : Bytes) : Option (UInt64 × Bytes) :=
  let digits := text.takeWhile isDigit
  let value := Nat.ofDigitChars 10 (digits.map (fun b => Char.ofNat b.toNat)) 0
  if digits ≠ [] ∧ value < 2 ^ 64 then some (value.toUInt64, text.dropWhile isDigit) else none

def hexValue (b : UInt8) : ℕ := if b < 58 then b.toNat - 48 else b.toNat - 87

/-- The byte behind a two-character escape. -/
def shortEscape (b : UInt8) : UInt8 :=
  if b = 98 then 8
  else if b = 102 then 12
  else if b = 110 then 10
  else if b = 114 then 13
  else if b = 116 then 9
  else b

/-- The bytes behind an escape by number: a single byte, or a line separator. -/
def longEscape (first third fourth : UInt8) : Bytes :=
  if first = 48 then [(hexValue third * 16 + hexValue fourth).toUInt8]
  else [0xE2, 0x80, (160 + hexValue fourth).toUInt8]

/-- The bytes of a string up to its closing quote, and the text after it. -/
def readEscaped : Bytes → Option (Bytes × Bytes)
  | [] => none
  | c :: rest =>
      if c = 34 then some ([], rest)
      else if c = 92 then
        match rest with
        | [] => none
        | e :: rest =>
            if e = 117 then
              match rest with
              | first :: _ :: third :: fourth :: rest =>
                  (readEscaped rest).map (fun r => (longEscape first third fourth ++ r.1, r.2))
              | _ => none
            else (readEscaped rest).map (fun r => (shortEscape e :: r.1, r.2))
      else (readEscaped rest).map (fun r => (c :: r.1, r.2))

def readString (text : Bytes) : Option (String × Bytes) := do
  let rest ← expect (utf8 "\"") text
  let (bytes, rest) ← readEscaped rest
  let content ← String.fromUTF8? ⟨bytes.toArray⟩
  some (content, rest)

/-- A byte slice: `null`, or its base64 text in quotes. -/
def readBytes (text : Bytes) : Option (Bytes × Bytes) :=
  match expect (utf8 "null") text with
  | some rest => some ([], rest)
  | none => do
      let rest ← expect (utf8 "\"") text
      let bytes ← b64decode 0 0 0 (rest.takeWhile (· ≠ 34))
      let rest ← expect (utf8 "\"") (rest.dropWhile (· ≠ 34))
      some (bytes, rest)

section Readers

variable (rest : Bytes)

@[simp] theorem expect_append (literal : Bytes) : expect literal (literal ++ rest) = some rest := by
  have begins : literal.isPrefixOf (literal ++ rest) = true :=
    List.isPrefixOf_iff_prefix.mpr (List.prefix_append _ _)
  rw [expect, if_pos begins, List.drop_left]

@[simp] theorem readBool_bool (b : Bool) : readBool (Json.bool b ++ rest) = some (b, rest) := by
  cases b with
  | true => simp [readBool, Json.bool]
  | false =>
      have different : expect (utf8 "true") (utf8 "false" ++ rest) = none := rfl
      simp [readBool, Json.bool, different]

private theorem toNat_digit {c : Char} (digit : c.isDigit = true) :
    (c.toNat.toUInt8).toNat = c.toNat ∧ 48 ≤ c.toNat ∧ c.toNat ≤ 57 := by
  simp only [Char.isDigit, Bool.and_eq_true, decide_eq_true_eq, ge_iff_le] at digit
  have low : 48 ≤ c.toNat := UInt32.le_iff_toNat_le.mp digit.1
  have high : c.toNat ≤ 57 := UInt32.le_iff_toNat_le.mp digit.2
  exact ⟨Nat.mod_eq_of_lt (by omega), low, high⟩

private theorem map_ofNat_number (n : UInt64) :
    (Json.number n).map (fun b => Char.ofNat b.toNat) = Nat.toDigits 10 n.toNat := by
  rw [Json.number, List.map_map]
  conv_rhs => rw [← List.map_id (Nat.toDigits 10 n.toNat)]
  apply List.map_congr_left
  intro c member
  have digit := Nat.isDigit_of_mem_toDigits (by decide) (by decide) member
  rw [Function.comp_apply, (toNat_digit digit).1, Char.ofNat_toNat, id]

private theorem isDigit_of_mem_number {n : UInt64} {b : UInt8} (member : b ∈ Json.number n) :
    isDigit b = true := by
  obtain ⟨c, listed, rfl⟩ := List.mem_map.mp member
  obtain ⟨value, low, high⟩ :=
    toNat_digit (Nat.isDigit_of_mem_toDigits (b := 10) (by decide) (by decide) listed)
  simp only [isDigit, Bool.and_eq_true, decide_eq_true_eq, UInt8.le_iff_toNat_le, value]
  exact ⟨low, high⟩

@[simp] theorem readNumber_number (n : UInt64) {c : UInt8} (ends : isDigit c = false) :
    readNumber (Json.number n ++ c :: rest) = some (n, c :: rest) := by
  have digits : (Json.number n ++ c :: rest).takeWhile isDigit = Json.number n := by
    rw [List.takeWhile_append_of_pos (fun _ member => isDigit_of_mem_number member),
      List.takeWhile_cons, ends]
    simp
  have after : (Json.number n ++ c :: rest).dropWhile isDigit = c :: rest := by
    rw [List.dropWhile_append_of_pos (fun _ member => isDigit_of_mem_number member),
      List.dropWhile_cons, ends]
    simp
  have nonempty : Json.number n ≠ [] := by
    simp [Json.number, Nat.toDigits_ne_nil]
  have value : Nat.ofDigitChars 10
      ((Json.number n).map (fun b => Char.ofNat b.toNat)) 0 = n.toNat := by
    rw [map_ofNat_number, Nat.ofDigitChars_ten_toDigits]
  simp only [readNumber, digits, after, value]
  rw [if_pos ⟨nonempty, n.toNat_lt⟩, show n.toNat.toUInt64 = n from UInt64.ofNat_toNat]

private theorem hexValue_hexDigit : ∀ n < 16, hexValue (Json.hexDigit n) = n := by decide

private theorem readEscaped_quote : readEscaped (34 :: rest) = some ([], rest) := by
  rw [readEscaped.eq_def]
  exact if_pos rfl

private theorem readEscaped_plain {c : UInt8} (open_ : c ≠ 34) (plain : c ≠ 92) :
    readEscaped (c :: rest) = (readEscaped rest).map (fun r => (c :: r.1, r.2)) := by
  rw [readEscaped.eq_def]
  exact (if_neg open_).trans (if_neg plain)

private theorem readEscaped_short {e : UInt8} (short : e ≠ 117) :
    readEscaped (92 :: e :: rest) =
      (readEscaped rest).map (fun r => (shortEscape e :: r.1, r.2)) := by
  rw [readEscaped.eq_def]
  exact if_neg short

private theorem readEscaped_long (first second third fourth : UInt8) :
    readEscaped (92 :: 117 :: first :: second :: third :: fourth :: rest) =
      (readEscaped rest).map (fun r => (longEscape first third fourth ++ r.1, r.2)) := by
  rw [readEscaped.eq_def]
  rfl

private theorem readEscaped_escapeByte (b : UInt8) :
    readEscaped (Json.escapeByte b ++ rest) =
      (readEscaped rest).map (fun r => (b :: r.1, r.2)) := by
  unfold Json.escapeByte
  split_ifs with quoted backspace formFeed newline carriage tab control
  · rcases quoted with rfl | rfl
    · exact readEscaped_short rest (by decide)
    · exact readEscaped_short rest (by decide)
  · subst backspace
    exact readEscaped_short rest (e := 98) (by decide)
  · subst formFeed
    exact readEscaped_short rest (e := 102) (by decide)
  · subst newline
    exact readEscaped_short rest (e := 110) (by decide)
  · subst carriage
    exact readEscaped_short rest (e := 114) (by decide)
  · subst tab
    exact readEscaped_short rest (e := 116) (by decide)
  · have high := hexValue_hexDigit (b.toNat / 16) (by have := b.toNat_lt; omega)
    have low := hexValue_hexDigit (b.toNat % 16) (by omega)
    have byte : (b.toNat / 16 * 16 + b.toNat % 16).toUInt8 = b := by
      rw [Nat.div_add_mod']
      exact UInt8.ofNat_toNat
    have long := readEscaped_long rest 48 48 (Json.hexDigit (b.toNat / 16))
      (Json.hexDigit (b.toNat % 16))
    simp only [longEscape, if_true, high, low, byte, List.singleton_append] at long
    exact long
  · obtain ⟨open_, plain⟩ := not_or.mp quoted
    exact readEscaped_plain rest open_ plain

private theorem readEscaped_escape (bytes : Bytes) :
    readEscaped (Json.escape bytes ++ 34 :: rest) = some (bytes, rest) := by
  fun_induction Json.escape bytes with
  | case1 => exact readEscaped_quote rest
  | case2 a =>
      rw [readEscaped_escapeByte, readEscaped_quote]
      rfl
  | case3 a b =>
      rw [List.append_assoc, readEscaped_escapeByte, readEscaped_escapeByte, readEscaped_quote]
      rfl
  | case4 a b c bytes separator ih =>
      obtain ⟨rfl, rfl, last⟩ := separator
      have long := readEscaped_long (Json.escape bytes ++ 34 :: rest) 50 48 50
        (Json.hexDigit (c.toNat % 16))
      rw [ih] at long
      rcases last with rfl | rfl <;> exact long
  | case5 a b c bytes plain ih =>
      rw [List.append_assoc, readEscaped_escapeByte, ih]
      rfl

@[simp] theorem readString_string (text : String) :
    readString (Json.string text ++ rest) = some (text, rest) := by
  have closed : Json.string text ++ rest =
      utf8 "\"" ++ (Json.escape (utf8 text) ++ 34 :: rest) := by
    rw [Json.string, List.append_assoc, List.append_assoc]
    rfl
  rw [readString, closed, expect_append]
  simp only [Option.bind_eq_bind, Option.bind_some, readEscaped_escape, fromUTF8?_utf8]

private theorem base64Digit_ne_quote : ∀ n < 64, Json.base64Digit n ≠ 34 := by decide

private theorem ne_quote_of_mem_base64 (bytes : Bytes) : ∀ b ∈ Json.base64 bytes, b ≠ 34 := by
  fun_induction Json.base64 bytes with
  | case1 => simp
  | case2 a =>
      have := a.toNat_lt
      have first := base64Digit_ne_quote (a.toNat / 4) (by omega)
      have second := base64Digit_ne_quote (a.toNat % 4 * 16) (by omega)
      simp [first, second]
  | case3 a b =>
      have := a.toNat_lt
      have := b.toNat_lt
      have first := base64Digit_ne_quote (a.toNat / 4) (by omega)
      have second := base64Digit_ne_quote (a.toNat % 4 * 16 + b.toNat / 16) (by omega)
      have third := base64Digit_ne_quote (b.toNat % 16 * 4) (by omega)
      simp [first, second, third]
  | case4 a b c rest ih =>
      have := a.toNat_lt
      have := b.toNat_lt
      have := c.toNat_lt
      have first := base64Digit_ne_quote (a.toNat / 4) (by omega)
      have second := base64Digit_ne_quote (a.toNat % 4 * 16 + b.toNat / 16) (by omega)
      have third := base64Digit_ne_quote (b.toNat % 16 * 4 + c.toNat / 64) (by omega)
      have fourth := base64Digit_ne_quote (c.toNat % 64) (by omega)
      simpa [first, second, third, fourth] using ih

@[simp] theorem readBytes_bytes (bytes : Bytes) :
    readBytes (Json.bytes bytes ++ rest) = some (bytes, rest) := by
  cases bytes with
  | nil => simp [readBytes, Json.bytes]
  | cons b bytes =>
      have quoted : Json.bytes (b :: bytes) ++ rest =
          utf8 "\"" ++ (Json.base64 (b :: bytes) ++ (utf8 "\"" ++ rest)) := by
        rw [Json.bytes, List.append_assoc, List.append_assoc]
        simp
      have present : expect (utf8 "null")
          (utf8 "\"" ++ (Json.base64 (b :: bytes) ++ (utf8 "\"" ++ rest))) = none := rfl
      have inside : (Json.base64 (b :: bytes) ++ (utf8 "\"" ++ rest)).takeWhile (· ≠ 34) =
          Json.base64 (b :: bytes) := by
        rw [List.takeWhile_append_of_pos
          (fun c member => decide_eq_true (ne_quote_of_mem_base64 _ c member))]
        simp [show utf8 "\"" = [34] from rfl]
      have after : (Json.base64 (b :: bytes) ++ (utf8 "\"" ++ rest)).dropWhile (· ≠ 34) =
          utf8 "\"" ++ rest := by
        rw [List.dropWhile_append_of_pos
          (fun c member => decide_eq_true (ne_quote_of_mem_base64 _ c member))]
        simp [show utf8 "\"" = [34] from rfl]
      rw [quoted, readBytes, present]
      simp only [expect_append, Option.bind_eq_bind, Option.bind_some, inside, after,
        b64decode_base64]

end Readers

def readAfter {α : Type} (literal : Bytes) (read : Bytes → Option (α × Bytes)) (text : Bytes) :
    Option (α × Bytes) :=
  (expect literal text).bind read

/-- An extended proposal and the text after it. -/
def readProposal (text : Bytes) : Option (ExtendedProposal × Bytes) := do
  let (state, text) ← readAfter (utf8 "\x7b\"fsm_state\":") readString text
  let (healthy, text) ← readAfter (utf8 ",\"healthy\":") readBool text
  let (published, text) ←
    readAfter (utf8 ",\"da_receipt\":\x7b\"PublishedBlockHeight\":") readNumber text
  let (attestation, text) ← readAfter (utf8 ",\"Attestation\":") readBool text
  let (checkpoint, text) ←
    readAfter (utf8 "\x7d,\"btc_receipt\":\x7b\"CheckpointBlockHeight\":") readNumber text
  let (tag, text) ← readAfter (utf8 ",\"CheckpointBlockHash\":\x7b\"Tag\":") readString text
  let (height, text) ← readAfter (utf8 ",\"Height\":") readNumber text
  let (zkProofRef, text) ← readAfter (utf8 "\x7d\x7d,\"zk_proof_ref\":") readBytes text
  let text ← expect (utf8 "\x7d") text
  some (⟨.ofText state, healthy, ⟨published, attestation⟩, ⟨checkpoint, ⟨tag, height⟩⟩,
    zkProofRef⟩, text)

private theorem readAfter_bind {α β : Type} {literal value tail : Bytes}
    {read : Bytes → Option (α × Bytes)} {a : α} {next : α × Bytes → Option β}
    (reads : read (value ++ tail) = some (a, tail)) :
    (readAfter literal read (literal ++ (value ++ tail))).bind next = next (a, tail) := by
  rw [readAfter, expect_append, Option.bind_some, reads, Option.bind_some]

private theorem readNumber_before {literal : Bytes} {c : UInt8} {tail : Bytes}
    (starts : literal = c :: tail) (ends : isDigit c = false) (n : UInt64) (rest : Bytes) :
    readNumber (Json.number n ++ (literal ++ rest)) = some (n, literal ++ rest) := by
  rw [starts]
  exact readNumber_number _ n ends

theorem readProposal_marshal (p : ExtendedProposal) (rest : Bytes) :
    readProposal (p.marshal ++ rest) = some (p, rest) := by
  unfold ExtendedProposal.marshal
  simp only [List.append_assoc]
  refine (readAfter_bind (readString_string _ _)).trans ?_
  refine (readAfter_bind (readBool_bool _ _)).trans ?_
  refine (readAfter_bind (readNumber_before rfl (by decide) _ _)).trans ?_
  refine (readAfter_bind (readBool_bool _ _)).trans ?_
  refine (readAfter_bind (readNumber_before rfl (by decide) _ _)).trans ?_
  refine (readAfter_bind (readString_string _ _)).trans ?_
  refine (readAfter_bind (readNumber_before rfl (by decide) _ _)).trans ?_
  refine (readAfter_bind (readBytes_bytes _ _)).trans ?_
  simp only [expect_append, Option.bind_eq_bind, Option.bind_some, FSMState.ofText_toText]

def canonicalExternal (verifyZKProof : Bytes → Bytes → Bool)
    (txDecoder : Option (Bytes → Except String Unit)) : External where
  unmarshal text := (readProposal text).map (fun r => r.1)
  verifyZKProof := verifyZKProof
  txDecoder := txDecoder

end ProposalText

open ProposalText

/-- The text of an extended proposal determines it, whatever its state and tag texts
hold, and no text is the beginning of another; so one decoder serves every proposal of
every run, and the marker is never mistaken for one. -/
theorem proposal_text_faithful :
    (∀ (p : ExtendedProposal) (rest : Bytes),
        readProposal (p.marshal ++ rest) = some (p, rest)) ∧
      (∀ (p q : ExtendedProposal) (rest rest' : Bytes),
        encodeExtendedProposal p ++ rest = encodeExtendedProposal q ++ rest' →
          p = q ∧ rest = rest') ∧
      ∀ verifyZKProof txDecoder (p : ExtendedProposal),
        decodeExtendedProposal (canonicalExternal verifyZKProof txDecoder)
          (encodeExtendedProposal p) = .proposal p := by
  refine ⟨readProposal_marshal, ?_, ?_⟩
  · intro p q rest rest' same
    simp only [encodeExtendedProposal, List.append_assoc, List.append_cancel_left_eq] at same
    have read := readProposal_marshal p rest
    rw [same, readProposal_marshal] at read
    simp only [Option.some.injEq, Prod.mk.injEq] at read
    exact ⟨read.1.symm, read.2.symm⟩
  · intro verifyZKProof txDecoder p
    apply decode_encode
    have read := readProposal_marshal p []
    rw [List.append_nil] at read
    simp only [canonicalExternal, read, Option.map_some]

end Engram.Chain
