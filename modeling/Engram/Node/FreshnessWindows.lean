import Engram.Node.Receipts

/-!
The freshness windows over the integers. Both lower bounds are computed modulo the
word size and read as signed, so each check is exact on the inputs whose bound
survives that reading.
-/

set_option autoImplicit false
set_option relaxedAutoImplicit false

namespace Engram.Node

open Engram.Types Engram.Library.Word64

namespace DA

/-- `hEngramCurrent - daThreshold - tolerance`, over the integers. -/
def windowStart (hEngramCurrent daThreshold round : UInt64) : ℤ :=
  hEngramCurrent.toNat - daThreshold.toNat - (tolerance round).toNat

/-- The attested heights of the window. -/
def InWindow (receipt : Receipt) (hEngramCurrent daThreshold round : UInt64) : Prop :=
  receipt.attestation = true ∧
    windowStart hEngramCurrent daThreshold round ≤ receipt.publishedBlockHeight.toNat ∧
    receipt.publishedBlockHeight ≤ hEngramCurrent

/-- Where the check applies it accepts the window and nothing else. -/
def ExactWindow (hEngramCurrent daThreshold round : UInt64) : Prop :=
  ∀ (receipt : Receipt) (fsmState : FSMState) (healthy : Bool),
    requiresCheck fsmState healthy = true →
      (verifyReceipt receipt fsmState healthy hEngramCurrent daThreshold round = true ↔
        InWindow receipt hEngramCurrent daThreshold round)

/-- The start of the window is a signed word, or so far below zero that it wraps to a
negative one. -/
def StartFits (hEngramCurrent daThreshold round : UInt64) : Prop :=
  windowStart hEngramCurrent daThreshold round < 2 ^ 63 ∧
    (-2 ^ 63 ≤ windowStart hEngramCurrent daThreshold round ∨
      windowStart hEngramCurrent daThreshold round ≤ -2 ^ 64)

theorem toNat_lowerBound (hEngramCurrent daThreshold round : UInt64) :
    ((clampSigned (hEngramCurrent.toInt64 - daThreshold.toInt64 -
        (tolerance round).toInt64)).toNat : ℤ) =
      if windowStart hEngramCurrent daThreshold round % 2 ^ 64 < 2 ^ 63 then
        windowStart hEngramCurrent daThreshold round % 2 ^ 64
      else 0 := by
  change ((clampSigned (hEngramCurrent - daThreshold - tolerance round).toInt64).toNat : ℤ) = _
  apply toNat_clampSigned_of_emod
  have tolerated := toNat_tolerance_le round
  have bound := daThreshold.toNat_lt
  rw [UInt64.toNat_sub, UInt64.toNat_sub, windowStart]
  omega

private theorem windowStart_bounds (hEngramCurrent daThreshold round : UInt64) :
    -2 ^ 64 - 4 < windowStart hEngramCurrent daThreshold round ∧
      windowStart hEngramCurrent daThreshold round ≤ hEngramCurrent.toNat := by
  have tolerated := toNat_tolerance_le round
  have bound := daThreshold.toNat_lt
  unfold windowStart
  omega

private theorem exactWindow_iff (hEngramCurrent daThreshold round : UInt64) :
    ExactWindow hEngramCurrent daThreshold round ↔
      StartFits hEngramCurrent daThreshold round := by
  have lower := toNat_lowerBound hEngramCurrent daThreshold round
  obtain ⟨above, below⟩ := windowStart_bounds hEngramCurrent daThreshold round
  have bound := hEngramCurrent.toNat_lt
  unfold StartFits
  generalize start : windowStart hEngramCurrent daThreshold round = d at *
  constructor
  · intro agrees
    have zero := agrees ⟨0, true⟩ .anchored true rfl
    rw [verifyReceipt_iff, InWindow, start] at zero
    simp [UInt64.le_iff_toNat_le, requiresCheck] at zero
    split_ifs at lower <;> omega
  · rintro fits receipt fsmState healthy required
    rw [verifyReceipt_iff, InWindow, start]
    simp only [required, forall_const, UInt64.le_iff_toNat_le]
    refine and_congr_right (fun _ => ?_)
    split_ifs at lower <;> omega

private theorem windowStart_anti {hEngramCurrent daThreshold daThreshold' round round' : UInt64}
    (wider : daThreshold ≤ daThreshold') (later : round ≤ round') :
    windowStart hEngramCurrent daThreshold' round' ≤
      windowStart hEngramCurrent daThreshold round := by
  have tolerated : (tolerance round).toNat ≤ (tolerance round').toNat := by
    rw [UInt64.le_iff_toNat_le] at later
    simp only [tolerance, UInt64.le_iff_toNat_le, ← UInt64.toNat_inj]
    split_ifs <;> simp_all <;> omega
  have wider' := UInt64.le_iff_toNat_le.mp wider
  unfold windowStart
  omega

private theorem verifyReceipt_mono {hEngramCurrent daThreshold daThreshold' round round' : UInt64}
    (narrow : ExactWindow hEngramCurrent daThreshold round)
    (wide : ExactWindow hEngramCurrent daThreshold' round')
    (wider : daThreshold ≤ daThreshold') (later : round ≤ round') (receipt : Receipt)
    (fsmState : FSMState) (healthy : Bool)
    (accepted : verifyReceipt receipt fsmState healthy hEngramCurrent daThreshold round = true) :
    verifyReceipt receipt fsmState healthy hEngramCurrent daThreshold' round' = true := by
  by_cases required : requiresCheck fsmState healthy = true
  · obtain ⟨attested, lower, upper⟩ := (narrow receipt fsmState healthy required).mp accepted
    exact (wide receipt fsmState healthy required).mpr
      ⟨attested, Int.le_trans (windowStart_anti wider later) lower, upper⟩
  · rw [verifyReceipt_iff]
    exact fun required' => absurd required' required

end DA

namespace Anchor

/-- `hBTCCurrent - (kDeepFinality + 2 + round)`, over the integers. -/
def windowStart (hBTCCurrent round kDeepFinality : UInt64) : ℤ :=
  hBTCCurrent.toNat - (kDeepFinality.toNat + 2 + round.toNat)

def InWindow (receipt : Receipt) (hBTCCurrent hBTCAnchored round kDeepFinality : UInt64) : Prop :=
  max (windowStart hBTCCurrent round kDeepFinality) hBTCAnchored.toNat ≤
      receipt.checkpointBlockHeight.toNat ∧
    receipt.checkpointBlockHeight ≤ hBTCCurrent ∧
    receipt.checkpointBlockHash = expectedBlockHash receipt.checkpointBlockHeight

/-- Where the check applies it accepts the window and nothing else. -/
def ExactWindow (hBTCCurrent hBTCAnchored round kDeepFinality : UInt64) : Prop :=
  ∀ (receipt : Receipt) (fsmState : FSMState) (healthy : Bool),
    requiresCheck fsmState healthy = true →
      (verifyReceipt receipt fsmState healthy hBTCCurrent hBTCAnchored round kDeepFinality =
          true ↔
        InWindow receipt hBTCCurrent hBTCAnchored round kDeepFinality)

/-- The window is empty, or wherever its start does not survive the signed reading the
committed anchor is above both the start and what is read for it. -/
def StartFits (hBTCCurrent hBTCAnchored round kDeepFinality : UInt64) : Prop :=
  let start := windowStart hBTCCurrent round kDeepFinality
  hBTCCurrent < hBTCAnchored ∨
    (2 ^ 63 ≤ start → start ≤ hBTCAnchored.toNat) ∧
    (-2 ^ 64 ≤ start ∧ start < -2 ^ 63 → start + 2 ^ 64 ≤ hBTCAnchored.toNat) ∧
    (start < -2 ^ 64 - 2 ^ 63 → start + 2 ^ 65 ≤ hBTCAnchored.toNat)

theorem toNat_lowerBound (hBTCCurrent round kDeepFinality : UInt64) :
    ((clampSigned (hBTCCurrent.toInt64 - (tolerance round kDeepFinality).toInt64)).toNat : ℤ) =
      if windowStart hBTCCurrent round kDeepFinality % 2 ^ 64 < 2 ^ 63 then
        windowStart hBTCCurrent round kDeepFinality % 2 ^ 64
      else 0 := by
  change ((clampSigned (hBTCCurrent - tolerance round kDeepFinality).toInt64).toNat : ℤ) = _
  apply toNat_clampSigned_of_emod
  have bound := (tolerance round kDeepFinality).toNat_lt
  have sum : (tolerance round kDeepFinality).toNat =
      ((kDeepFinality.toNat + 2) % 2 ^ 64 + round.toNat) % 2 ^ 64 := by
    rw [tolerance, UInt64.toNat_add, UInt64.toNat_add]
    rfl
  rw [UInt64.toNat_sub, windowStart]
  omega

private theorem exactWindow_iff (hBTCCurrent hBTCAnchored round kDeepFinality : UInt64) :
    ExactWindow hBTCCurrent hBTCAnchored round kDeepFinality ↔
      StartFits hBTCCurrent hBTCAnchored round kDeepFinality := by
  have lower := toNat_lowerBound hBTCCurrent round kDeepFinality
  have bounds : -2 ^ 65 ≤ windowStart hBTCCurrent round kDeepFinality ∧
      windowStart hBTCCurrent round kDeepFinality < hBTCCurrent.toNat := by
    have deep := kDeepFinality.toNat_lt
    have late := round.toNat_lt
    unfold windowStart
    omega
  have current := hBTCCurrent.toNat_lt
  unfold StartFits
  generalize start : windowStart hBTCCurrent round kDeepFinality = d at *
  simp only [UInt64.lt_iff_toNat_lt]
  constructor
  · intro agrees
    have anchored := agrees ⟨hBTCAnchored, expectedBlockHash hBTCAnchored⟩ .anchored true rfl
    rw [verifyReceipt_iff, InWindow, start] at anchored
    simp [UInt64.le_iff_toNat_le, requiresCheck] at anchored
    split_ifs at lower <;> omega
  · rintro fits receipt fsmState healthy required
    rw [verifyReceipt_iff, InWindow, start]
    simp only [required, forall_const, UInt64.le_iff_toNat_le]
    generalize clampSigned (hBTCCurrent.toInt64 - (tolerance round kDeepFinality).toInt64) =
      lowerBound at lower
    have heights : (lowerBound.toNat ≤ receipt.checkpointBlockHeight.toNat ∧
        receipt.checkpointBlockHeight.toNat ≤ hBTCCurrent.toNat ∧
        hBTCAnchored.toNat ≤ receipt.checkpointBlockHeight.toNat) ↔
      max d hBTCAnchored.toNat ≤ receipt.checkpointBlockHeight.toNat ∧
        receipt.checkpointBlockHeight.toNat ≤ hBTCCurrent.toNat := by
      split_ifs at lower <;> omega
    tauto

private theorem verifyReceipt_mono {hBTCCurrent hBTCAnchored round round' kDeepFinality : UInt64}
    (narrow : ExactWindow hBTCCurrent hBTCAnchored round kDeepFinality)
    (wide : ExactWindow hBTCCurrent hBTCAnchored round' kDeepFinality)
    (later : round ≤ round') (receipt : Receipt) (fsmState : FSMState) (healthy : Bool)
    (accepted : verifyReceipt receipt fsmState healthy hBTCCurrent hBTCAnchored round
      kDeepFinality = true) :
    verifyReceipt receipt fsmState healthy hBTCCurrent hBTCAnchored round' kDeepFinality =
      true := by
  by_cases required : requiresCheck fsmState healthy = true
  · obtain ⟨lower, rest⟩ := (narrow receipt fsmState healthy required).mp accepted
    refine (wide receipt fsmState healthy required).mpr ⟨?_, rest⟩
    have earlier : windowStart hBTCCurrent round' kDeepFinality ≤
        windowStart hBTCCurrent round kDeepFinality := by
      have later' := UInt64.le_iff_toNat_le.mp later
      unfold windowStart
      omega
    omega
  · rw [verifyReceipt_iff]
    exact fun required' => absurd required' required

end Anchor

/-- Both windows at two inputs that differ in the round and the threshold: exact, and
what the narrower one accepts the wider one accepts. -/
structure ExactWindows (hEngramCurrent daThreshold daThreshold' hBTCCurrent hBTCAnchored
    kDeepFinality round round' : UInt64) : Prop where
  da : DA.ExactWindow hEngramCurrent daThreshold round
  da' : DA.ExactWindow hEngramCurrent daThreshold' round'
  anchor : Anchor.ExactWindow hBTCCurrent hBTCAnchored round kDeepFinality
  anchor' : Anchor.ExactWindow hBTCCurrent hBTCAnchored round' kDeepFinality
  daMonotone : daThreshold ≤ daThreshold' → round ≤ round' →
    ∀ receipt fsmState healthy,
      DA.verifyReceipt receipt fsmState healthy hEngramCurrent daThreshold round = true →
      DA.verifyReceipt receipt fsmState healthy hEngramCurrent daThreshold' round' = true
  anchorMonotone : round ≤ round' → ∀ receipt fsmState healthy,
    Anchor.verifyReceipt receipt fsmState healthy hBTCCurrent hBTCAnchored round kDeepFinality =
      true →
    Anchor.verifyReceipt receipt fsmState healthy hBTCCurrent hBTCAnchored round' kDeepFinality =
      true

/-- The windows are the integer ones exactly where every start fits. -/
theorem exactWindows_iff (hEngramCurrent daThreshold daThreshold' hBTCCurrent hBTCAnchored
    kDeepFinality round round' : UInt64) :
    ExactWindows hEngramCurrent daThreshold daThreshold' hBTCCurrent hBTCAnchored kDeepFinality
        round round' ↔
      DA.StartFits hEngramCurrent daThreshold round ∧
        DA.StartFits hEngramCurrent daThreshold' round' ∧
        Anchor.StartFits hBTCCurrent hBTCAnchored round kDeepFinality ∧
        Anchor.StartFits hBTCCurrent hBTCAnchored round' kDeepFinality := by
  simp only [← DA.exactWindow_iff, ← Anchor.exactWindow_iff]
  constructor
  · intro windows
    exact ⟨windows.da, windows.da', windows.anchor, windows.anchor'⟩
  · rintro ⟨da, da', anchor, anchor'⟩
    exact ⟨da, da', anchor, anchor', DA.verifyReceipt_mono da da',
      Anchor.verifyReceipt_mono anchor anchor'⟩

/-- A threshold or a depth with the top bit set turns the window around at ordinary
heights: the current height itself is refused, and a checkpoint three blocks old. -/
theorem windows_not_exact_at_large_thresholds :
    (DA.InWindow ⟨100, true⟩ 100 0xffffffffffffffff 0 ∧
      DA.verifyReceipt ⟨100, true⟩ .anchored true 100 0xffffffffffffffff 0 = false) ∧
    (Anchor.InWindow ⟨97, Anchor.expectedBlockHash 97⟩ 100 90 0 0xffffffffffffffff ∧
      Anchor.verifyReceipt ⟨97, Anchor.expectedBlockHash 97⟩ .anchored true 100 90 0
        0xffffffffffffffff = false) := by
  refine ⟨⟨⟨rfl, ?_, ?_⟩, by decide⟩, ⟨?_, ?_, rfl⟩, by decide⟩ <;> decide

end Engram.Node
