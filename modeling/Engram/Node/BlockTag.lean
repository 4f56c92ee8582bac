import Engram.Library.HexText
import Engram.Node.Sensors

/-!
The OP_RETURN scan behind the re-verification of an anchor. The scan searches the hex
text of a script, so it also finds the tag where no push begins with it.
-/

set_option autoImplicit false
set_option relaxedAutoImplicit false

namespace Engram.Node

open Engram.Types Engram.Keeper Engram.Library.HexText

/-- One output of a block as bitcoind reports it: its script in hex. -/
structure BTCVout where
  hex : List Char

structure BTCTx where
  vout : List BTCVout

structure BTCBlock where
  tx : List BTCTx

def scriptMatches (script tagHex : List Char) : Bool :=
  ['6', 'a'].isPrefixOf script && decide (4 ≤ script.length) &&
    decide (tagHex <:+: script.drop 4)

def blockContainsTag (block : BTCBlock) (tag : List UInt8) : Bool :=
  let tagHex := toHex tag
  block.tx.any fun tx => tx.vout.any fun vout => scriptMatches vout.hex tagHex

/-- A tracker that scans the blocks its bitcoind returns, none on an RPC error. -/
def scanningTracker (kDeepFinality : UInt64) (currentHeight confirmed : Option UInt64)
    (getBlock : UInt64 → Option BTCBlock) (tag : List UInt8) : AnchorTracker where
  kDeepFinality := kDeepFinality
  currentHeight := currentHeight
  blockContainsTag := fun height => (getBlock height).map (blockContainsTag · tag)
  confirmedAnchorHeight := confirmed

/-- A script is given by its bytes, a transaction by its output scripts. -/
def blockOfScripts (txs : List (List (List UInt8))) : BTCBlock :=
  ⟨txs.map fun scripts => ⟨scripts.map fun script => ⟨toHex script⟩⟩⟩

/-- The push opcode of a direct push: the length of the data that ends the script. -/
def DirectPush (opcode : UInt8) (data : List UInt8) : Prop :=
  opcode.toNat = data.length ∧ 1 ≤ data.length ∧ data.length ≤ 75

/-- An OP_RETURN followed by one direct push that begins with the tag. -/
def TaggedScript (tag script : List UInt8) : Prop :=
  ∃ opcode data, script = 0x6a :: opcode :: data ∧ DirectPush opcode data ∧ tag <+: data

/-- An OP_RETURN that carries the tag elsewhere after its second byte: behind another
push opcode, later in the bytes, or shifted by half a byte. -/
def StrayScript (tag script : List UInt8) : Prop :=
  ∃ opcode data, script = 0x6a :: opcode :: data ∧
    (tag <+: data ∧ ¬ DirectPush opcode data ∨ (∃ k, 0 < k ∧ tag <+: data.drop k) ∨
      ∃ k, FoundBetween tag data k)

def SomeOutput (P : List UInt8 → Prop) (txs : List (List (List UInt8))) : Prop :=
  ∃ scripts ∈ txs, ∃ script ∈ scripts, P script

section Scan

variable {tag script : List UInt8} {txs : List (List (List UInt8))}

private theorem scriptMatches_iff : scriptMatches (toHex script) (toHex tag) = true ↔
    ∃ opcode data, script = 0x6a :: opcode :: data ∧ toHex tag <:+: toHex data := by
  have marker : toHex [0x6a] = ['6', 'a'] := by decide
  have start : ['6', 'a'].isPrefixOf (toHex script) = true ↔ [0x6a] <+: script := by
    rw [List.isPrefixOf_iff_prefix, ← marker, toHex_prefix_iff]
  simp only [scriptMatches, Bool.and_eq_true, start, decide_eq_true_eq, length_toHex]
  match script with
  | [] => simp
  | [b] => simp
  | b :: opcode :: data =>
      have rest : (toHex (b :: opcode :: data)).drop 4 = toHex data :=
        (toHex_drop (b :: opcode :: data) 2).symm
      have long : 4 ≤ 2 * (data.length + 1 + 1) := by omega
      simp [rest, long, List.cons_prefix_cons, eq_comm]

private theorem scriptMatches_cases : scriptMatches (toHex script) (toHex tag) = true ↔
    TaggedScript tag script ∨ StrayScript tag script := by
  rw [scriptMatches_iff]
  constructor
  · rintro ⟨opcode, data, rfl, found⟩
    rcases (toHex_infix_iff tag data).mp found with ⟨k, aligned⟩ | between
    · rcases Nat.eq_zero_or_pos k with rfl | later
      · by_cases direct : DirectPush opcode data
        · exact .inl ⟨opcode, data, rfl, direct, aligned⟩
        · exact .inr ⟨opcode, data, rfl, .inl ⟨aligned, direct⟩⟩
      · exact .inr ⟨opcode, data, rfl, .inr (.inl ⟨k, later, aligned⟩)⟩
    · exact .inr ⟨opcode, data, rfl, .inr (.inr between)⟩
  · rintro (⟨opcode, data, rfl, -, start⟩ |
      ⟨opcode, data, rfl, ⟨start, -⟩ | ⟨k, -, aligned⟩ | between⟩)
    · exact ⟨opcode, data, rfl, (toHex_infix_iff tag data).mpr (.inl ⟨0, start⟩)⟩
    · exact ⟨opcode, data, rfl, (toHex_infix_iff tag data).mpr (.inl ⟨0, start⟩)⟩
    · exact ⟨opcode, data, rfl, (toHex_infix_iff tag data).mpr (.inl ⟨k, aligned⟩)⟩
    · exact ⟨opcode, data, rfl, (toHex_infix_iff tag data).mpr (.inr between)⟩

private theorem blockContainsTag_iff : blockContainsTag (blockOfScripts txs) tag = true ↔
    SomeOutput (TaggedScript tag) txs ∨ SomeOutput (StrayScript tag) txs := by
  simp only [blockContainsTag, blockOfScripts, List.any_map, List.any_eq_true, Function.comp_apply,
    scriptMatches_cases, SomeOutput]
  constructor
  · rintro ⟨scripts, listed, script, member, tagged | stray⟩
    · exact .inl ⟨scripts, listed, script, member, tagged⟩
    · exact .inr ⟨scripts, listed, script, member, stray⟩
  · rintro (⟨scripts, listed, script, member, tagged⟩ | ⟨scripts, listed, script, member, stray⟩)
    · exact ⟨scripts, listed, script, member, .inl tagged⟩
    · exact ⟨scripts, listed, script, member, .inr stray⟩

end Scan

structure TagRecognition (txs : List (List (List UInt8))) (tag : List UInt8) : Prop where
  scan : blockContainsTag (blockOfScripts txs) tag = true ↔ SomeOutput (TaggedScript tag) txs
  verifyAnchor : ∀ kDeepFinality currentHeight confirmed getBlock height,
    getBlock height = some (blockOfScripts txs) →
    (scanningTracker kDeepFinality currentHeight confirmed getBlock tag).verifyAnchor height =
      some true → SomeOutput (TaggedScript tag) txs
  spv : ∀ kDeepFinality currentHeight confirmed getBlock (st : Store),
    getBlock st.hBtcAnchored = some (blockOfScripts txs) → st.hBtcAnchored > 0 →
    spvFailed st (some (scanningTracker kDeepFinality currentHeight confirmed getBlock tag)) =
      false → SomeOutput (TaggedScript tag) txs

private theorem scan_of_verifyAnchor {kDeepFinality : UInt64}
    {currentHeight confirmed : Option UInt64}
    {getBlock : UInt64 → Option BTCBlock} {tag : List UInt8} {height : UInt64} {block : BTCBlock}
    (returned : getBlock height = some block)
    (verified : (scanningTracker kDeepFinality currentHeight confirmed getBlock
      tag).verifyAnchor height = some true) : blockContainsTag block tag = true := by
  unfold AnchorTracker.verifyAnchor at verified
  simp only [scanningTracker, returned] at verified
  split at verified
  · cases verified
  · split at verified
    · cases verified
    · simpa using verified

/-- The scan is exact on a block with a tagged output, and on one where no OP_RETURN
carries the tag in a stray place. -/
theorem tagRecognition_iff (txs : List (List (List UInt8))) (tag : List UInt8) :
    TagRecognition txs tag ↔
      SomeOutput (TaggedScript tag) txs ∨ ¬ SomeOutput (StrayScript tag) txs := by
  constructor
  · intro recognition
    by_cases stray : SomeOutput (StrayScript tag) txs
    · exact .inl (recognition.scan.mp (blockContainsTag_iff.mpr (.inr stray)))
    · exact .inr stray
  · intro clean
    have scan : blockContainsTag (blockOfScripts txs) tag = true →
        SomeOutput (TaggedScript tag) txs := by
      intro found
      rcases blockContainsTag_iff.mp found with tagged | stray
      · exact tagged
      · exact clean.resolve_right (fun none => none stray)
    refine ⟨⟨scan, fun tagged => blockContainsTag_iff.mpr (.inl tagged)⟩, ?_, ?_⟩
    · intro kDeepFinality currentHeight confirmed getBlock height returned verified
      exact scan (scan_of_verifyAnchor returned verified)
    · intro kDeepFinality currentHeight confirmed getBlock st returned anchored trusted
      have verified : (scanningTracker kDeepFinality currentHeight confirmed getBlock
          tag).verifyAnchor st.hBtcAnchored = some true := by
        simpa [spvFailed, anchored] using trusted
      exact scan (scan_of_verifyAnchor returned verified)

/-- `AnchorTag`. -/
def anchorTag : List UInt8 := [0x45, 0x4e, 0x47, 0x52]

def shiftedBlock : List (List (List UInt8)) := [[[0x6a, 5, 0] ++ anchorTag]]

private theorem shiftedBlock_untagged : ¬ SomeOutput (TaggedScript anchorTag) shiftedBlock := by
  rintro ⟨scripts, listed, script, member, opcode, data, shape, -, start⟩
  simp only [shiftedBlock, anchorTag, List.mem_singleton] at listed
  subst listed
  rw [List.mem_singleton.mp member] at shape
  simp only [List.cons_append, List.nil_append, List.cons.injEq, true_and] at shape
  rw [← shape.2] at start
  exact absurd start (by decide)

/-- The scan accepts it, and with it a forged anchor verifies. -/
theorem shifted_tag_verifies_anchor :
    blockContainsTag (blockOfScripts shiftedBlock) anchorTag = true ∧
      (scanningTracker 2 (some 105) none (fun _ => some (blockOfScripts shiftedBlock))
        anchorTag).verifyAnchor 100 = some true ∧
      ¬ SomeOutput (TaggedScript anchorTag) shiftedBlock :=
  ⟨by decide, by decide, shiftedBlock_untagged⟩

end Engram.Node
