import Engram.Node.Receipts
import Engram.Types.RecoveryHeader
import Mathlib.Data.List.Infix

/-!
The extended proposal and its place in a block: a marker followed by its JSON
text, carried as the first transaction. Encoding follows the JSON encoder of
the standard library; decoding is a parameter, since a decoder accepts far more
texts than an encoder produces.
-/

set_option autoImplicit false
set_option relaxedAutoImplicit false

namespace Engram.Node

open Engram.Types

structure ExtendedProposal where
  fsmState : FSMState
  healthy : Bool
  daReceipt : DA.Receipt
  btcReceipt : Anchor.Receipt
  zkProofRef : Bytes
  deriving DecidableEq, Repr

def utf8 (text : String) : Bytes := text.toUTF8.data.toList

namespace Json

def hexDigit (n : Nat) : UInt8 := if n < 10 then (48 + n).toUInt8 else (87 + n).toUInt8

/-- One byte inside a JSON string; the HTML-sensitive characters are escaped as
the encoder does by default. -/
def escapeByte (b : UInt8) : Bytes :=
  if b = 34 ∨ b = 92 then [92, b]
  else if b = 8 then utf8 "\\b"
  else if b = 12 then utf8 "\\f"
  else if b = 10 then utf8 "\\n"
  else if b = 13 then utf8 "\\r"
  else if b = 9 then utf8 "\\t"
  else if b < 32 ∨ b = 60 ∨ b = 62 ∨ b = 38 then
    utf8 "\\u00" ++ [hexDigit (b.toNat / 16), hexDigit (b.toNat % 16)]
  else [b]

/-- The escaped bytes of a string. The line separators U+2028 and U+2029, three
bytes each, are escaped too. -/
def escape : Bytes → Bytes
  | [] => []
  | [a] => escapeByte a
  | [a, b] => escapeByte a ++ escapeByte b
  | a :: b :: c :: rest =>
      if a = 0xE2 ∧ b = 0x80 ∧ (c = 0xA8 ∨ c = 0xA9) then
        utf8 "\\u202" ++ hexDigit (c.toNat % 16) :: escape rest
      else escapeByte a ++ escape (b :: c :: rest)

def string (text : String) : Bytes := utf8 "\"" ++ escape (utf8 text) ++ utf8 "\""

def bool (b : Bool) : Bytes := if b then utf8 "true" else utf8 "false"

def number (n : UInt64) : Bytes := (Nat.toDigits 10 n.toNat).map (fun c => c.toNat.toUInt8)

def base64Digit (n : Nat) : UInt8 :=
  if n < 26 then (65 + n).toUInt8
  else if n < 52 then (71 + n).toUInt8
  else if n < 62 then (n - 4).toUInt8
  else if n = 62 then 43
  else 47

def base64 : Bytes → Bytes
  | [] => []
  | [a] =>
      [base64Digit (a.toNat / 4), base64Digit (a.toNat % 4 * 16), 61, 61]
  | [a, b] =>
      [base64Digit (a.toNat / 4), base64Digit (a.toNat % 4 * 16 + b.toNat / 16),
        base64Digit (b.toNat % 16 * 4), 61]
  | a :: b :: c :: rest =>
      base64Digit (a.toNat / 4) :: base64Digit (a.toNat % 4 * 16 + b.toNat / 16) ::
        base64Digit (b.toNat % 16 * 4 + c.toNat / 64) :: base64Digit (c.toNat % 64) ::
        base64 rest

/-- A byte slice is its base64 text; the absent slice is `null`. -/
def bytes : Bytes → Bytes
  | [] => utf8 "null"
  | b => utf8 "\"" ++ base64 b ++ utf8 "\""

end Json

def ExtendedProposal.marshal (p : ExtendedProposal) : Bytes :=
  utf8 "\x7b\"fsm_state\":" ++ Json.string p.fsmState.toText ++
    utf8 ",\"healthy\":" ++ Json.bool p.healthy ++
    utf8 ",\"da_receipt\":\x7b\"PublishedBlockHeight\":" ++
    Json.number p.daReceipt.publishedBlockHeight ++
    utf8 ",\"Attestation\":" ++ Json.bool p.daReceipt.attestation ++
    utf8 "\x7d,\"btc_receipt\":\x7b\"CheckpointBlockHeight\":" ++
    Json.number p.btcReceipt.checkpointBlockHeight ++
    utf8 ",\"CheckpointBlockHash\":\x7b\"Tag\":" ++
    Json.string p.btcReceipt.checkpointBlockHash.tag ++
    utf8 ",\"Height\":" ++ Json.number p.btcReceipt.checkpointBlockHash.height ++
    utf8 "\x7d\x7d,\"zk_proof_ref\":" ++ Json.bytes p.zkProofRef ++ utf8 "\x7d"

def extendedProposalMarker : Bytes := utf8 "ENGRAM_EXTENDED_PROPOSAL_V1|"

def encodeExtendedProposal (p : ExtendedProposal) : Bytes :=
  extendedProposalMarker ++ p.marshal

/-- What a validator binary uses and this development does not define: the JSON
decoder, the `bb verify` call on a proof with its public inputs, and the
transaction decoder, which may be absent. -/
structure External where
  unmarshal : Bytes → Option ExtendedProposal
  verifyZKProof : Bytes → Bytes → Bool
  txDecoder : Option (Bytes → Except String Unit)

/-- A decoder known on the listed proposals only, with a given proof verifier and
no transaction decoder. -/
def External.ofProposals (proposals : List ExtendedProposal)
    (verifyZKProof : Bytes → Bytes → Bool) : External where
  unmarshal text := proposals.find? (fun p => p.marshal == text)
  verifyZKProof := verifyZKProof
  txDecoder := none

inductive Decoded where
  | absent
  | malformed
  | proposal (p : ExtendedProposal)

/-- A transaction without the marker carries no proposal; one with it may still
fail to parse. -/
def decodeExtendedProposal (ext : External) (tx : Bytes) : Decoded :=
  if extendedProposalMarker.isPrefixOf tx then
    match ext.unmarshal (tx.drop extendedProposalMarker.length) with
    | none => .malformed
    | some p => .proposal p
  else .absent

theorem decode_encode (ext : External) {p : ExtendedProposal}
    (inverse : ext.unmarshal p.marshal = some p) :
    decodeExtendedProposal ext (encodeExtendedProposal p) = .proposal p := by
  have marked : extendedProposalMarker.isPrefixOf (encodeExtendedProposal p) = true :=
    List.isPrefixOf_iff_prefix.mpr (List.prefix_append _ _)
  unfold decodeExtendedProposal
  rw [if_pos marked]
  simp only [encodeExtendedProposal, List.drop_left, inverse]

def containsWithdrawal (tx : Bytes) : Bool := decide (utf8 "TX_WITHDRAWAL" <:+: tx)

example : (⟨.anchored, true, ⟨7, true⟩, ⟨3, Anchor.expectedBlockHash 3⟩, [255]⟩ :
    ExtendedProposal).marshal = utf8 ("\x7b\"fsm_state\":\"ANCHORED\",\"healthy\":true," ++
      "\"da_receipt\":\x7b\"PublishedBlockHeight\":7,\"Attestation\":true\x7d," ++
      "\"btc_receipt\":\x7b\"CheckpointBlockHeight\":3,\"CheckpointBlockHash\":" ++
      "\x7b\"Tag\":\"BTC_BLOCK\",\"Height\":3\x7d\x7d,\"zk_proof_ref\":\"/w==\"\x7d") := by
  decide +kernel

end Engram.Node
