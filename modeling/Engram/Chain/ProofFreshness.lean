import Engram.Chain.Reanchoring

/-!
The DA height of a block that carries a proof reference. The gate compares it with
the height the block before committed; that height may have fallen since the last
proof block, inside the tolerance window or where the DA check is not applied.
-/

set_option autoImplicit false
set_option relaxedAutoImplicit false

namespace Engram.Chain

open Engram.Types Engram.Keeper Engram.Node Engram.Library Engram.Fsm Engram.Library.Word64

def ProofBlock (external : External) (m : Move Chain Block) (ext : ExtendedProposal) : Prop :=
  m.input.proposal external = some ext ∧ ext.zkProofRef ≠ []

/-- Along one locked interval every proof block names a DA height above that of
every proof block before it. -/
def FreshnessNeverReused (external : External) (past : List (Move Chain Block)) : Prop :=
  ∀ newer between older m m' ext ext', past = newer ++ m' :: (between ++ m :: older) →
    (∀ x ∈ m' :: (between ++ [m]), withdrawLocked x.target.state = true) →
    ProofBlock external m ext → ProofBlock external m' ext' →
    ext.daReceipt.publishedBlockHeight < ext'.daReceipt.publishedBlockHeight

/-- The DA check applies to the block: it commits ANCHORED or RECOVERING, or the
validator that accepted it has a healthy DA reading. -/
def AvailabilityChecked (p : Params) (m : Move Chain Block) : Prop :=
  m.target.state = .anchored ∨ m.target.state = .recovering ∨
    isDAHealthy (reading p m.source m.input.sensors).metrics p = true

/-- The Engram height the validator of the block measures freshness from. -/
def currentEngramHeight (p : Params) (m : Move Chain Block) : UInt64 :=
  (refreshMetrics p m.source.nextHeight m.source.store m.input.sensors).hEngramCurrent

/-- The committed DA height lies in the tolerance window of the block's round. -/
def InToleranceWindow (p : Params) (m : Move Chain Block) : Prop :=
  clampSigned ((currentEngramHeight p m).toInt64 - p.daThreshold.toInt64 -
      (DA.tolerance m.input.round).toInt64) ≤ m.target.store.hEngramVerified ∧
    m.target.store.hEngramVerified ≤ currentEngramHeight p m

section Blocks

variable {external : External} {p : Params} {c c' : Chain} {b : Block} {ext : ExtendedProposal}

private theorem proofBlock_above (decided : decideBlock external p c b = some c')
    (proof : ProofBlock external ⟨c, b, c'⟩ ext) :
    c.store.hEngramVerified < ext.daReceipt.publishedBlockHeight ∧
      c'.store.hEngramVerified = ext.daReceipt.publishedBlockHeight := by
  obtain ⟨ext', innerTxs, carries, committed⟩ := decideBlock_committed decided
  obtain ⟨proposed, referenced⟩ := proof
  obtain rfl : ext' = ext := Option.some.inj (carries.proposed.symm.trans proposed)
  obtain ⟨_, _, _, _, _, _, _, gate⟩ := (processExtended_iff _ _ _ _ _ _ _).mp carries.accepted
  unfold ReanchoringGate at gate
  split at gate
  · exact ⟨by simpa using gate.2.2, committed.hEngramVerified⟩
  · exact absurd gate referenced

theorem window_of_checked (decided : decideBlock external p c b = some c')
    (checked : AvailabilityChecked p ⟨c, b, c'⟩) : InToleranceWindow p ⟨c, b, c'⟩ := by
  obtain ⟨ext, innerTxs, carries, committed⟩ := decideBlock_committed decided
  obtain ⟨_, _, _, available, _⟩ := (processExtended_iff _ _ _ _ _ _ _).mp carries.accepted
  have state : c'.state = ext.fsmState := committed.currState
  have required : requiresCheck ext.fsmState (isDAHealthy
      (refreshMetrics p c.nextHeight c.store b.sensors).currentFSMInput.metrics p) = true := by
    simp only [AvailabilityChecked, state] at checked
    simp only [requiresCheck, Bool.or_eq_true, beq_iff_eq, or_assoc]
    exact checked
  obtain ⟨_, below, above⟩ := (DA.verifyReceipt_iff _ _ _ _ _ _).mp available required
  rw [← committed.hEngramVerified] at below above
  exact ⟨above, below⟩

end Blocks

private theorem fell_back_or_kept {external : External} {p : Params} {now : Chain}
    {between older : List (Move Chain Block)} {m : Move Chain Block}
    (run : ChainRun external p (between ++ m :: older) now) {floor : UInt64}
    (reached : floor ≤ m.target.store.hEngramVerified) :
    floor ≤ now.store.hEngramVerified ∨
      ∃ x ∈ between, x.target.store.hEngramVerified < floor := by
  cases between with
  | nil =>
      cases run with
      | extend _ _ => exact .inl reached
  | cons x rest =>
      cases run with
      | extend _ _ =>
          rcases le_or_gt floor now.store.hEngramVerified with kept | fell
          · exact .inl kept
          · exact .inr ⟨_, List.mem_cons_self, fell⟩

/-- In every run a proof block names a DA height above the one committed right
before it, and above that of an earlier proof block unless a block in between
committed a lower height, unchecked or inside its tolerance window. -/
theorem proof_freshness {external : External} {p : Params} {now : Chain}
    {newer between older : List (Move Chain Block)} {m m' : Move Chain Block}
    (run : ChainRun external p (newer ++ m' :: (between ++ m :: older)) now)
    {ext ext' : ExtendedProposal} (earlier : ProofBlock external m ext)
    (later : ProofBlock external m' ext') :
    m'.source.store.hEngramVerified < ext'.daReceipt.publishedBlockHeight ∧
      (ext.daReceipt.publishedBlockHeight < ext'.daReceipt.publishedBlockHeight ∨
        ∃ x ∈ between, x.target.store.hEngramVerified < ext.daReceipt.publishedBlockHeight ∧
          (AvailabilityChecked p x → InToleranceWindow p x)) := by
  obtain ⟨before, taken⟩ := run.cut
  obtain ⟨_, taken'⟩ := before.cut
  obtain ⟨above, _⟩ := proofBlock_above taken later
  obtain ⟨_, committed⟩ := proofBlock_above taken' earlier
  refine ⟨above, ?_⟩
  rcases fell_back_or_kept before committed.ge with kept | ⟨x, member, fell⟩
  · exact .inl (lt_of_le_of_lt kept above)
  · refine .inr ⟨x, member, fell, ?_⟩
    obtain ⟨_, _, _, _, decided⟩ := before.cut_of_mem (List.mem_append_left _ member)
    exact window_of_checked decided

section ReusedHeight

def proofProposal (published : UInt64) : ExtendedProposal :=
  { attestedProposal .recovering true published 2 with zkProofRef := [1] }

def reuseExternal : External :=
  .ofProposals [outageProposal .recovering true, outageProposal .anchored true,
    outageProposal .sovereign false, proofProposal 1, proofProposal 5, proofProposal 6]
    (fun _ _ => false)

def recoveredOutage : List Block :=
  [liveBlock (outageProposal .anchored true) 1 [],
    degradingBlock 2,
    liveBlock (outageProposal .recovering true) 3 [],
    liveBlock (outageProposal .recovering true) 4 [],
    liveBlock (outageProposal .recovering true) 5 [],
    liveBlock (proofProposal 5) 6 []]

/-- Bitcoin fails again; the SOVEREIGN block names DA height 0 and the next proof
block height 1. -/
def relapse : List Block :=
  [degradingBlock 7,
    liveBlock (outageProposal .recovering true) 8 [],
    liveBlock (outageProposal .recovering true) 9 [],
    liveBlock (outageProposal .recovering true) 10 [],
    liveBlock (proofProposal 1) 11 []]

/-- Two proof blocks in a row name heights 5 and 6. -/
theorem proof_freshness_consecutive :
    ∃ m m' older now, ChainRun reuseExternal defaultParams (m' :: m :: older) now ∧
      ProofBlock reuseExternal m (proofProposal 5) ∧
      ProofBlock reuseExternal m' (proofProposal 6) ∧
      m'.source.store.hEngramVerified < 6 := by
  obtain ⟨past, now, run, passed⟩ := exists_run_of_replayPasses
    (decideBlock reuseExternal defaultParams) genesisChain
    (recoveredOutage ++ [liveBlock (proofProposal 6) 7 []])
    (fun past _ => match past with
      | m' :: m :: _ => decide (m.input.proposal reuseExternal = some (proofProposal 5) ∧
          m'.input.proposal reuseExternal = some (proofProposal 6))
      | _ => false)
    (by decide +kernel)
  match past with
  | m' :: m :: older =>
      obtain ⟨earlier, later⟩ := of_decide_eq_true passed
      have first : ProofBlock reuseExternal m (proofProposal 5) := ⟨earlier, by decide⟩
      have second : ProofBlock reuseExternal m' (proofProposal 6) := ⟨later, by decide⟩
      have split : ChainRun reuseExternal defaultParams ([] ++ m' :: ([] ++ m :: older)) now := run
      exact ⟨m, m', older, now, run, first, second, (proof_freshness split first second).1⟩

/-- After height 5 the same interval accepts a proof block at height 1. -/
theorem proof_height_reused :
    ∃ past now, ChainRun reuseExternal defaultParams past now ∧
      ¬ FreshnessNeverReused reuseExternal past := by
  obtain ⟨past, now, run, passed⟩ := exists_run_of_replayPasses
    (decideBlock reuseExternal defaultParams) genesisChain (recoveredOutage ++ relapse)
    (fun past _ => match past with
      | m' :: x :: y :: z :: w :: m :: _ =>
          decide (m.input.proposal reuseExternal = some (proofProposal 5) ∧
            m'.input.proposal reuseExternal = some (proofProposal 1)) &&
          [m', x, y, z, w, m].all (fun x => withdrawLocked x.target.state)
      | _ => false)
    (by decide +kernel)
  refine ⟨past, now, run, fun fresh => ?_⟩
  match past with
  | m' :: x :: y :: z :: w :: m :: older =>
      rw [Bool.and_eq_true, List.all_eq_true] at passed
      obtain ⟨earlier, later⟩ := of_decide_eq_true passed.1
      have above := fresh [] [x, y, z, w] older m m' (proofProposal 5) (proofProposal 1) rfl
        passed.2 ⟨earlier, by decide⟩ ⟨later, by decide⟩
      exact absurd above (by decide)

end ReusedHeight

end Engram.Chain
