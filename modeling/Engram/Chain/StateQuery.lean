import Engram.Chain.Reanchoring
import Engram.Library.Wire
import Mathlib.Data.List.Nodup

/-!
The `State` query of a node and the script that samples it. The node answers in the
protobuf wire format, whose fields may come in any order; the script decodes the answer by
hand, with one byte for every tag and every length.
-/

set_option autoImplicit false
set_option relaxedAutoImplicit false

namespace Engram.Chain

open Engram.Types Engram.Keeper Engram.Node Engram.Library

structure QueryStateResponse where
  fsmState : String
  safeBlocks : UInt64
  suspiciousDuration : UInt64
  reanchoringProofValid : Bool
  metrics : Option PeripheralMetrics
  deriving DecidableEq

/-- `QueryServerImpl.State`. An item that was never written reads as its zero value, the
FSM state as the empty text. -/
def queryState (st : Store) : QueryStateResponse where
  fsmState := (st.fsmState.map FSMState.toText).getD ""
  safeBlocks := st.safeBlocks
  suspiciousDuration := st.suspiciousDuration
  reanchoringProofValid := st.reanchoringProofValid
  metrics := st.metrics

section Encoding

/-- A `uint64` field, left out when it is zero. -/
def uint64Field (field : ℕ) (value : UInt64) : List Wire.Field :=
  if value = 0 then [] else [.number field value.toNat]

/-- A `bool` field, left out when it is false. -/
def boolField (field : ℕ) (value : Bool) : List Wire.Field :=
  if value then [.number field 1] else []

/-- A `string` field, left out when it is empty. -/
def stringField (field : ℕ) (text : String) : List Wire.Field :=
  if text = "" then [] else [.payload field (utf8 text)]

def metricsFields (m : PeripheralMetrics) : List Wire.Field :=
  uint64Field 1 m.btcGap ++ boolField 2 m.isBtcSpvFailed ++ uint64Field 3 m.daGap ++
    boolField 4 m.isDasFailed ++ boolField 5 m.isAttestationFailed ++
    uint64Field 6 m.subnetDiversity ++ uint64Field 7 m.activeAnchors ++
    uint64Field 8 m.cleanPeers ++ uint64Field 9 m.peerChurnRate ++
    uint64Field 10 m.avgPeerTenure ++ uint64Field 11 m.peerLatency

def QueryStateResponse.fields (r : QueryStateResponse) (metrics : Bytes) : List Wire.Field :=
  stringField 1 r.fsmState ++ uint64Field 2 r.safeBlocks ++
    uint64Field 3 r.suspiciousDuration ++ boolField 4 r.reanchoringProofValid ++
    if r.metrics.isSome then [.payload 5 metrics] else []

/-- The bytes are a serialisation of the response: its fields in some order, the metrics
serialised in turn. -/
def QueryStateResponse.Serialised (r : QueryStateResponse) (bytes : Bytes) : Prop :=
  ∃ fields inner, (∀ m, r.metrics = some m → inner.Perm (metricsFields m)) ∧
    fields.Perm (r.fields (Wire.encode inner)) ∧ bytes = Wire.encode fields

end Encoding

section Script

def base64Value (c : UInt8) : Option ℕ :=
  if 65 ≤ c ∧ c ≤ 90 then some (c.toNat - 65)
  else if 97 ≤ c ∧ c ≤ 122 then some (c.toNat - 71)
  else if 48 ≤ c ∧ c ≤ 57 then some (c.toNat + 4)
  else if c = 43 then some 62
  else if c = 47 then some 63
  else none

/-- `base64.b64decode` from a position in the current group of four, with the bits left
over and the padding seen so far. Characters outside the alphabet are skipped; an
incomplete group at the end is an error. -/
def b64decode : ℕ → ℕ → ℕ → Bytes → Option Bytes
  | quadPos, _, _, [] => if quadPos = 0 then some [] else none
  | quadPos, leftchar, pads, c :: rest =>
      if c = 61 then
        if quadPos < 2 then b64decode quadPos leftchar pads rest
        else if 4 ≤ quadPos + pads + 1 then some []
        else b64decode quadPos leftchar (pads + 1) rest
      else
        match base64Value c with
        | none => b64decode quadPos leftchar pads rest
        | some v =>
            match quadPos with
            | 0 => b64decode 1 v 0 rest
            | 1 => (b64decode 2 (v % 16) 0 rest).map ((leftchar * 4 + v / 16).toUInt8 :: ·)
            | 2 => (b64decode 3 (v % 4) 0 rest).map ((leftchar * 16 + v / 4).toUInt8 :: ·)
            | _ => (b64decode 0 0 0 rest).map ((leftchar * 64 + v).toUInt8 :: ·)

/-- The sample of one node. -/
structure LoggedState where
  fsmState : String := ""
  safeBlocks : ℕ := 0
  suspiciousDuration : ℕ := 0
  reanchoringProofValid : Bool := false
  deriving DecidableEq

/-- A number read under a field number. -/
def LoggedState.setNumber (out : LoggedState) (fieldNum value : ℕ) : LoggedState :=
  if fieldNum = 2 then { out with safeBlocks := value }
  else if fieldNum = 3 then { out with suspiciousDuration := value }
  else if fieldNum = 4 then { out with reanchoringProofValid := value != 0 }
  else out

/-- The loop of `_decode_query_state`. An index past the end, a text that is not UTF-8 and
an unexpected wire type raise. Every round takes a byte at least. -/
def decodeLoop : ℕ → Bytes → LoggedState → Option LoggedState
  | _, [], out => some out
  | 0, _ :: _, _ => none
  | fuel + 1, tag :: raw, out =>
      let fieldNum := tag.toNat >>> 3
      let wireType := tag.toNat &&& 0x7
      if wireType = 2 then
        match raw with
        | [] => none
        | length :: raw =>
            let payload := raw.take length.toNat
            let raw := raw.drop length.toNat
            if fieldNum = 1 then
              match String.fromUTF8? ⟨payload.toArray⟩ with
              | some text => decodeLoop fuel raw { out with fsmState := text }
              | none => none
            else decodeLoop fuel raw out
      else if wireType = 0 then
        match Wire.readVarint 0 0 raw with
        | none => none
        | some (value, raw) => decodeLoop fuel raw (out.setNumber fieldNum value)
      else none

/-- `_decode_query_state`, on the absent or the base64 value of the answer. -/
def decodeQueryState (valueB64 : Option Bytes) : Option LoggedState := do
  let raw ← match valueB64 with
    | none | some [] => some []
    | some text => b64decode 0 0 0 text
  decodeLoop raw.length raw {}

/-- The sample that holds what the node committed. -/
def QueryStateResponse.logged (r : QueryStateResponse) : LoggedState where
  fsmState := r.fsmState
  safeBlocks := r.safeBlocks.toNat
  suspiciousDuration := r.suspiciousDuration.toNat
  reanchoringProofValid := r.reanchoringProofValid

end Script

section Base64

private theorem base64Value_base64Digit {n : ℕ} (digit : n < 64) :
    base64Value (Json.base64Digit n) = some n ∧ Json.base64Digit n ≠ 61 := by
  revert n
  decide

private theorem b64decode_digit {quadPos leftchar pads n : ℕ} (digit : n < 64) (rest : Bytes) :
    b64decode quadPos leftchar pads (Json.base64Digit n :: rest) =
      match quadPos with
      | 0 => b64decode 1 n 0 rest
      | 1 => (b64decode 2 (n % 16) 0 rest).map ((leftchar * 4 + n / 16).toUInt8 :: ·)
      | 2 => (b64decode 3 (n % 4) 0 rest).map ((leftchar * 16 + n / 4).toUInt8 :: ·)
      | _ => (b64decode 0 0 0 rest).map ((leftchar * 64 + n).toUInt8 :: ·) := by
  obtain ⟨value, notPad⟩ := base64Value_base64Digit digit
  rw [b64decode, if_neg notPad, value]

section Groups

variable {rest : Bytes}

private theorem b64decode_two (a : UInt8) {n : ℕ} (digit : a.toNat % 4 * 16 + n < 64)
    (part : n < 16) : b64decode 0 0 0 (Json.base64Digit (a.toNat / 4) ::
        Json.base64Digit (a.toNat % 4 * 16 + n) :: rest) =
      (b64decode 2 n 0 rest).map (a :: ·) := by
  have byte : (a.toNat / 4 * 4 + (a.toNat % 4 * 16 + n) / 16).toUInt8 = a := by
    rw [show a.toNat / 4 * 4 + (a.toNat % 4 * 16 + n) / 16 = a.toNat by omega]
    exact UInt8.ofNat_toNat
  have left : (a.toNat % 4 * 16 + n) % 16 = n := by omega
  have := a.toNat_lt
  rw [b64decode_digit (by omega)]
  simp only []
  rw [b64decode_digit digit]
  simp only [byte, left]

private theorem b64decode_three (b : UInt8) {n : ℕ} (part : n < 4) :
    b64decode 2 (b.toNat / 16) 0 (Json.base64Digit (b.toNat % 16 * 4 + n) :: rest) =
      (b64decode 3 n 0 rest).map (b :: ·) := by
  have byte : (b.toNat / 16 * 16 + (b.toNat % 16 * 4 + n) / 4).toUInt8 = b := by
    rw [show b.toNat / 16 * 16 + (b.toNat % 16 * 4 + n) / 4 = b.toNat by omega]
    exact UInt8.ofNat_toNat
  have left : (b.toNat % 16 * 4 + n) % 4 = n := by omega
  rw [b64decode_digit (by omega)]
  simp only [byte, left]

private theorem b64decode_four (c : UInt8) :
    b64decode 3 (c.toNat / 64) 0 (Json.base64Digit (c.toNat % 64) :: rest) =
      (b64decode 0 0 0 rest).map (c :: ·) := by
  have byte : (c.toNat / 64 * 64 + c.toNat % 64).toUInt8 = c := by
    rw [show c.toNat / 64 * 64 + c.toNat % 64 = c.toNat by omega]
    exact UInt8.ofNat_toNat
  rw [b64decode_digit (by omega)]
  simp only [byte]

end Groups

theorem b64decode_base64 (bytes : Bytes) : b64decode 0 0 0 (Json.base64 bytes) = some bytes := by
  fun_induction Json.base64 bytes with
  | case1 => rfl
  | case2 a =>
      have short : b64decode 0 0 0 [Json.base64Digit (a.toNat / 4),
          Json.base64Digit (a.toNat % 4 * 16 + 0), 61, 61] = some [a] := by
        rw [b64decode_two a (by omega) (by omega)]
        rfl
      exact short
  | case3 a b =>
      have := b.toNat_lt
      have short : b64decode 0 0 0 [Json.base64Digit (a.toNat / 4),
          Json.base64Digit (a.toNat % 4 * 16 + b.toNat / 16),
          Json.base64Digit (b.toNat % 16 * 4 + 0), 61] = some [a, b] := by
        rw [b64decode_two a (by omega) (by omega), b64decode_three b (by omega)]
        rfl
      exact short
  | case4 a b c rest ih =>
      have := b.toNat_lt
      have := c.toNat_lt
      rw [b64decode_two a (by omega) (by omega), b64decode_three b (by omega), b64decode_four c,
        ih]
      rfl

end Base64

section Fields

/-- What one field does to the sample. -/
def LoggedState.set (out : LoggedState) : Wire.Field → LoggedState
  | .number field value => out.setNumber field value
  | .payload field bytes =>
      if field = 1 then { out with fsmState := (String.fromUTF8? ⟨bytes.toArray⟩).getD "" }
      else out

/-- The fields the script reads in full: one byte holds the tag and the length, and the
state is a text. -/
def Readable : Wire.Field → Prop
  | .number field _ => field < 16
  | .payload field bytes => field < 16 ∧ bytes.length < 128 ∧
      (field = 1 → ∃ text, bytes = utf8 text)

def fieldNum : Wire.Field → ℕ
  | .number field _ => field
  | .payload field _ => field

theorem fromUTF8?_utf8 (text : String) :
    String.fromUTF8? ⟨(utf8 text).toArray⟩ = some text := by
  have bytes : (⟨(utf8 text).toArray⟩ : ByteArray) = text.toUTF8 := by
    rw [utf8, Array.toArray_toList]
  rw [bytes, String.fromUTF8?, dif_pos (show text.toUTF8.IsValidUTF8 from text.isValidUTF8)]
  rfl

private theorem tag_of_number {field : ℕ} (small : field < 16) :
    Wire.varint (field * 8) = [(field * 8).toUInt8] ∧
      (field * 8).toUInt8.toNat >>> 3 = field ∧ (field * 8).toUInt8.toNat &&& 0x7 = 0 := by
  refine ⟨Wire.varint_of_lt (by omega), ?_⟩
  revert field
  decide

private theorem tag_of_payload {field : ℕ} (small : field < 16) :
    Wire.varint (field * 8 + 2) = [(field * 8 + 2).toUInt8] ∧
      (field * 8 + 2).toUInt8.toNat >>> 3 = field ∧
      (field * 8 + 2).toUInt8.toNat &&& 0x7 = 2 := by
  refine ⟨Wire.varint_of_lt (by omega), ?_⟩
  revert field
  decide

private theorem decodeLoop_number (fuel : ℕ) {tag : UInt8} (raw : Bytes) (out : LoggedState)
    (type : tag.toNat &&& 0x7 = 0) :
    decodeLoop (fuel + 1) (tag :: raw) out =
      match Wire.readVarint 0 0 raw with
      | none => none
      | some (value, raw) => decodeLoop fuel raw (out.setNumber (tag.toNat >>> 3) value) := by
  change (if tag.toNat &&& 0x7 = 2 then _ else if tag.toNat &&& 0x7 = 0 then _ else none) = _
  rw [type, if_neg (by decide), if_pos rfl]

private theorem decodeLoop_payload (fuel : ℕ) {tag : UInt8} (length : UInt8) (raw : Bytes)
    (out : LoggedState) (type : tag.toNat &&& 0x7 = 2) :
    decodeLoop (fuel + 1) (tag :: length :: raw) out =
      if tag.toNat >>> 3 = 1 then
        match String.fromUTF8? ⟨(raw.take length.toNat).toArray⟩ with
        | some text =>
            decodeLoop fuel (raw.drop length.toNat) { out with fsmState := text }
        | none => none
      else decodeLoop fuel (raw.drop length.toNat) out := by
  change (if tag.toNat &&& 0x7 = 2 then _ else if tag.toNat &&& 0x7 = 0 then _ else none) = _
  rw [type, if_pos rfl]

private theorem decodeLoop_field {field : Wire.Field} (readable : Readable field) (fuel : ℕ)
    (rest : Bytes) (out : LoggedState) :
    decodeLoop (fuel + 1) (field.encode ++ rest) out = decodeLoop fuel rest (out.set field) := by
  cases field with
  | number field value =>
      obtain ⟨tag, num, type⟩ := tag_of_number readable
      rw [Wire.Field.encode, tag, List.append_assoc, List.singleton_append,
        decodeLoop_number _ _ _ type, Wire.readVarint_varint]
      simp only [num, Nat.zero_or, Nat.shiftLeft_zero, LoggedState.set]
  | payload field bytes =>
      obtain ⟨small, short, text⟩ := readable
      obtain ⟨tag, num, type⟩ := tag_of_payload small
      have length : bytes.length.toUInt8.toNat = bytes.length := by
        rw [Nat.toUInt8_eq, UInt8.toNat_ofNat']
        omega
      rw [Wire.Field.encode, tag, Wire.varint_of_lt short, List.append_assoc, List.append_assoc,
        List.singleton_append, List.singleton_append, decodeLoop_payload _ _ _ _ type]
      simp only [num, length, List.take_left, List.drop_left, LoggedState.set]
      by_cases state : field = 1
      · obtain ⟨text, rfl⟩ := text state
        simp only [if_pos state, fromUTF8?_utf8, Option.getD_some]
      · simp only [if_neg state]

private theorem decodeLoop_encode {fields : List Wire.Field}
    (readable : ∀ field ∈ fields, Readable field) {fuel : ℕ} (enough : fields.length ≤ fuel)
    (out : LoggedState) :
    decodeLoop fuel (Wire.encode fields) out = some (fields.foldl LoggedState.set out) := by
  induction fields generalizing fuel out with
  | nil => cases fuel <;> rfl
  | cons field fields ih =>
      obtain ⟨first, rest⟩ := List.forall_mem_cons.mp readable
      cases fuel with
      | zero => simp at enough
      | succ fuel =>
          rw [Wire.encode_cons, decodeLoop_field first,
            ih rest (Nat.le_of_succ_le_succ enough), List.foldl_cons]

private theorem LoggedState.set_comm {x y : Wire.Field} (distinct : fieldNum x ≠ fieldNum y)
    (out : LoggedState) : (out.set x).set y = (out.set y).set x := by
  cases x with
  | number a v =>
      cases y with
      | number b w =>
          simp only [fieldNum] at distinct
          simp only [LoggedState.set, LoggedState.setNumber]
          split_ifs <;> first | rfl | omega
      | payload b bytes =>
          simp only [LoggedState.set, LoggedState.setNumber]
          split_ifs <;> rfl
  | payload a bytes =>
      cases y with
      | number b w =>
          simp only [LoggedState.set, LoggedState.setNumber]
          split_ifs <;> rfl
      | payload b bytes' =>
          simp only [fieldNum] at distinct
          simp only [LoggedState.set]
          split_ifs <;> first | rfl | omega

private theorem foldl_set_perm {fields fields' : List Wire.Field} (perm : fields.Perm fields')
    (distinct : (fields.map fieldNum).Nodup) (out : LoggedState) :
    fields.foldl LoggedState.set out = fields'.foldl LoggedState.set out := by
  refine perm.foldl_eq' ?_ out
  intro x hx y hy z
  by_cases same : x = y
  · rw [same]
  · exact LoggedState.set_comm (fun num => same (List.inj_on_of_nodup_map distinct hx hy num)) z

end Fields

section Response

private theorem mem_uint64Field {field : ℕ} {value : UInt64} {x : Wire.Field}
    (listed : x ∈ uint64Field field value) : x = .number field value.toNat := by
  unfold uint64Field at listed
  split at listed
  · cases listed
  · exact List.mem_singleton.mp listed

private theorem mem_boolField {field : ℕ} {value : Bool} {x : Wire.Field}
    (listed : x ∈ boolField field value) : x = .number field 1 := by
  cases value with
  | false => cases listed
  | true => exact List.mem_singleton.mp listed

private theorem length_uint64Field_le (field : ℕ) (value : UInt64) :
    (uint64Field field value).length ≤ 1 := by
  unfold uint64Field
  split <;> simp

private theorem length_boolField_le (field : ℕ) (value : Bool) :
    (boolField field value).length ≤ 1 := by
  cases value <;> simp [boolField]

private theorem length_metricsFields_le (m : PeripheralMetrics) :
    (metricsFields m).length ≤ 11 := by
  have numbers := length_uint64Field_le
  have flags := length_boolField_le
  simp only [metricsFields, List.length_append]
  have := numbers 1 m.btcGap
  have := flags 2 m.isBtcSpvFailed
  have := numbers 3 m.daGap
  have := flags 4 m.isDasFailed
  have := flags 5 m.isAttestationFailed
  have := numbers 6 m.subnetDiversity
  have := numbers 7 m.activeAnchors
  have := numbers 8 m.cleanPeers
  have := numbers 9 m.peerChurnRate
  have := numbers 10 m.avgPeerTenure
  have := numbers 11 m.peerLatency
  omega

private theorem mem_metricsFields {m : PeripheralMetrics} {x : Wire.Field}
    (listed : x ∈ metricsFields m) :
    ∃ field value, x = .number field value ∧ field < 16 ∧ value < 2 ^ 64 := by
  simp only [metricsFields, List.mem_append, or_assoc] at listed
  rcases listed with h | h | h | h | h | h | h | h | h | h | h
  all_goals
    first
    | exact ⟨_, _, mem_uint64Field h, by decide, UInt64.toNat_lt _⟩
    | exact ⟨_, _, mem_boolField h, by decide, by decide⟩

private theorem length_metrics_lt {m : PeripheralMetrics} {inner : List Wire.Field}
    (perm : inner.Perm (metricsFields m)) : (Wire.encode inner).length < 128 := by
  have each : ∀ x ∈ inner, x.encode.length ≤ 11 := by
    intro x listed
    obtain ⟨field, value, rfl, small, word⟩ := mem_metricsFields (perm.mem_iff.mp listed)
    have tag : (Wire.varint (field * 8)).length ≤ 1 := Wire.length_varint_le (k := 0) (by omega)
    have number : (Wire.varint value).length ≤ 10 :=
      Wire.length_varint_le (k := 9) (word.trans (by decide))
    rw [Wire.Field.encode, List.length_append]
    omega
  have total := Wire.length_encode_le each
  have count := length_metricsFields_le m
  rw [← perm.length_eq] at count
  omega

private theorem nums_uint64Field (field : ℕ) (value : UInt64) :
    ((uint64Field field value).map fieldNum).Sublist [field] := by
  unfold uint64Field
  split <;> simp [fieldNum]

private theorem nums_boolField (field : ℕ) (value : Bool) :
    ((boolField field value).map fieldNum).Sublist [field] := by
  cases value <;> simp [boolField, fieldNum]

private theorem nums_stringField (field : ℕ) (text : String) :
    ((stringField field text).map fieldNum).Sublist [field] := by
  unfold stringField
  split <;> simp [fieldNum]

variable {r : QueryStateResponse}

private theorem nodup_fields (metrics : Bytes) : ((r.fields metrics).map fieldNum).Nodup := by
  have last : ((if r.metrics.isSome = true then [Wire.Field.payload 5 metrics] else []).map
      fieldNum).Sublist [5] := by
    split <;> simp [fieldNum]
  have nums : ((r.fields metrics).map fieldNum).Sublist [1, 2, 3, 4, 5] := by
    simp only [QueryStateResponse.fields, List.map_append]
    exact ((((nums_stringField 1 r.fsmState).append (nums_uint64Field 2 r.safeBlocks)).append
      (nums_uint64Field 3 r.suspiciousDuration)).append
      (nums_boolField 4 r.reanchoringProofValid)).append last
  exact nums.nodup (by decide)

private theorem readable_fields (short : (utf8 r.fsmState).length < 128) {inner : List Wire.Field}
    (metrics : ∀ m, r.metrics = some m → inner.Perm (metricsFields m)) {x : Wire.Field}
    (listed : x ∈ r.fields (Wire.encode inner)) : Readable x := by
  simp only [QueryStateResponse.fields, List.mem_append, or_assoc] at listed
  rcases listed with state | safe | duration | flag | measured
  · unfold stringField at state
    split at state
    · cases state
    · rw [List.mem_singleton.mp state]
      exact ⟨by decide, short, fun _ => ⟨_, rfl⟩⟩
  · rw [mem_uint64Field safe]
    exact (by decide : 2 < 16)
  · rw [mem_uint64Field duration]
    exact (by decide : 3 < 16)
  · rw [mem_boolField flag]
    exact (by decide : 4 < 16)
  · cases present : r.metrics with
    | none => simp [present] at measured
    | some m =>
        obtain rfl : x = .payload 5 (Wire.encode inner) := by simpa [present] using measured
        exact ⟨by decide, length_metrics_lt (metrics m present),
          fun state => absurd state (by decide)⟩

private theorem foldl_set_fields (metrics : Bytes) :
    (r.fields metrics).foldl LoggedState.set {} = r.logged := by
  have state : ∀ out : LoggedState, (stringField 1 r.fsmState).foldl LoggedState.set out =
      { out with fsmState := if r.fsmState = "" then out.fsmState else r.fsmState } := by
    intro out
    unfold stringField
    split
    · rfl
    · rw [List.foldl_cons, LoggedState.set, fromUTF8?_utf8]
      rfl
  have number : ∀ (field : ℕ) (value : UInt64) (out : LoggedState),
      (uint64Field field value).foldl LoggedState.set out =
        if value = 0 then out else out.setNumber field value.toNat := by
    intro field value out
    unfold uint64Field
    split <;> rfl
  have flag : ∀ (value : Bool) (out : LoggedState),
      (boolField 4 value).foldl LoggedState.set out =
        { out with reanchoringProofValid := value || out.reanchoringProofValid } := by
    intro value out
    cases value <;> rfl
  have last : ∀ out : LoggedState, (if r.metrics.isSome = true then
      [Wire.Field.payload 5 metrics] else []).foldl LoggedState.set out = out := by
    intro out
    split <;> rfl
  rw [QueryStateResponse.fields, List.foldl_append, List.foldl_append, List.foldl_append,
    List.foldl_append, last, flag, number, number, state]
  by_cases safe : r.safeBlocks = 0 <;> by_cases duration : r.suspiciousDuration = 0 <;>
    by_cases text : r.fsmState = "" <;>
    simp [safe, duration, text, LoggedState.setNumber, QueryStateResponse.logged]

private theorem decodeQueryState_serialised (short : (utf8 r.fsmState).length < 128) {bytes : Bytes}
    (serialised : r.Serialised bytes) :
    decodeQueryState (some (Json.base64 bytes)) = some r.logged := by
  obtain ⟨fields, inner, metrics, perm, rfl⟩ := serialised
  have readable : ∀ x ∈ fields, Readable x :=
    fun x listed => readable_fields short metrics (perm.mem_iff.mp listed)
  have looped : decodeLoop (Wire.encode fields).length (Wire.encode fields) {} =
      some r.logged := by
    rw [decodeLoop_encode readable (Wire.length_le_length_encode fields),
      foldl_set_perm perm ((perm.map fieldNum).nodup_iff.mpr (nodup_fields _)), foldl_set_fields]
  cases text : Json.base64 (Wire.encode fields) with
  | nil =>
      have empty : Wire.encode fields = [] := by
        have decoded := b64decode_base64 (Wire.encode fields)
        rw [text] at decoded
        exact (Option.some.inj decoded).symm
      rw [empty] at looped
      exact looped
  | cons c rest =>
      have decoded := b64decode_base64 (Wire.encode fields)
      rw [text] at decoded
      simp only [decodeQueryState, decoded, Option.bind_eq_bind, Option.bind_some]
      exact looped

end Response

section Reachable

/-- The sampling script reads what the node committed. It does so for every answer whose
state text has fewer than 128 bytes, in whatever order the fields were serialised and
however large the counters and the metrics are, and every answer of a running chain is
one of these. -/
theorem state_samples_faithful :
    (∀ (r : QueryStateResponse) (bytes : Bytes), (utf8 r.fsmState).length < 128 →
        r.Serialised bytes → decodeQueryState (some (Json.base64 bytes)) = some r.logged) ∧
      ∀ (external : External) (p : Params) (past : List (Move Chain Block)) (now : Chain),
        ChainRun external p past now → ∀ bytes, (queryState now.store).Serialised bytes →
          decodeQueryState (some (Json.base64 bytes)) =
            some ⟨now.state.toText, now.store.safeBlocks.toNat,
              now.store.suspiciousDuration.toNat, now.store.reanchoringProofValid⟩ := by
  refine ⟨fun r bytes short serialised => decodeQueryState_serialised short serialised, ?_⟩
  intro external p past now run bytes serialised
  obtain ⟨state, written, named⟩ := chainRun_named run
  have text : (queryState now.store).fsmState = state.toText := by
    simp only [queryState, written, Option.map_some, Option.getD_some]
  have short : (utf8 (queryState now.store).fsmState).length < 128 := by
    rw [text]
    have names : ∀ name ∈ stateNames, (utf8 name).length < 128 := by decide
    exact names _ named
  have current : now.state = state := by
    rw [Chain.state, Store.currState, written, Option.getD_some]
  rw [decodeQueryState_serialised short serialised, QueryStateResponse.logged, text, current]
  rfl

/-- The fifth block of an outage, with two safe blocks of its recovery behind it, and an
answer in which nothing is zero. -/
theorem state_samples_faithful_recovering :
    (∃ past now, ChainRun outageExternal defaultParams past now ∧ now.height = 5 ∧
      decodeQueryState (some (Json.base64 (Wire.encode
        [.payload 5 [], .number 2 2, .payload 1 (utf8 "RECOVERING")]))) =
          some ⟨now.state.toText, now.store.safeBlocks.toNat,
            now.store.suspiciousDuration.toNat, now.store.reanchoringProofValid⟩) ∧
      decodeQueryState (some (Json.base64 (Wire.encode
        [.number 3 300, .payload 5 (Wire.encode [.number 3 40, .number 1 9]), .number 4 1,
          .payload 1 (utf8 "SUSPICIOUS"), .number 2 7]))) =
            some ⟨"SUSPICIOUS", 7, 300, true⟩ := by
  refine ⟨?_, ?_⟩
  · obtain ⟨past, run⟩ := exists_run_replayFinal (decideBlock outageExternal defaultParams)
      genesisChain (provenOutage.take 5)
    have answer : queryState (replayFinal (decideBlock outageExternal defaultParams) genesisChain
        (provenOutage.take 5)).store = ⟨"RECOVERING", 2, 0, false, some {}⟩ := by
      decide +kernel
    refine ⟨past, _, run, by decide +kernel, ?_⟩
    refine state_samples_faithful.2 _ _ _ _ run _ ⟨_, [], ?_, ?_, rfl⟩
    · intro m present
      rw [answer] at present
      obtain rfl := Option.some.inj present
      exact .refl _
    · rw [answer]
      decide
  · refine state_samples_faithful.1 ⟨"SUSPICIOUS", 7, 300, true,
      some { btcGap := 9, daGap := 40 }⟩ _ (by decide) ⟨_, [.number 3 40, .number 1 9], ?_, ?_, rfl⟩
    · intro m present
      obtain rfl := Option.some.inj present
      decide
    · decide +kernel

end Reachable

end Engram.Chain
