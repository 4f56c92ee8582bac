import Engram.Chain.Step

/-!
The committed Bitcoin anchor over a run. The monotonicity test is part of the
settlement check, which a block degrading under a Bitcoin outage is exempt from;
every other block keeps the anchor from rolling back.
-/

set_option autoImplicit false
set_option relaxedAutoImplicit false

namespace Engram.Chain

open Engram.Types Engram.Keeper Engram.Node Engram.Library Engram.Fsm

/-- The settlement check applies to the block taken by `m`: it commits ANCHORED
or RECOVERING, or the validator that accepted it has a healthy Bitcoin reading. -/
def SettlementChecked (p : Params) (m : Move Chain Block) : Prop :=
  m.target.state = .anchored ∨ m.target.state = .recovering ∨
    isBTCHealthy (reading p m.source m.input.sensors).metrics p = true

private theorem decideBlock_anchor_le {external : External} {p : Params} {c c' : Chain} {b : Block}
    (decided : decideBlock external p c b = some c') (checked : SettlementChecked p ⟨c, b, c'⟩) :
    c.store.hBtcAnchored ≤ c'.store.hBtcAnchored := by
  obtain ⟨ext, innerTxs, carries, committed⟩ := decideBlock_committed decided
  obtain ⟨_, _, _, _, settled, _⟩ := (processExtended_iff _ _ _ _ _ _ _).mp carries.accepted
  have state : c'.state = ext.fsmState := committed.currState
  have required : requiresCheck ext.fsmState (isBTCHealthy
      (refreshMetrics p c.nextHeight c.store b.sensors).currentFSMInput.metrics p) = true := by
    simp only [SettlementChecked, state] at checked
    simp only [requiresCheck, Bool.or_eq_true, beq_iff_eq, or_assoc]
    exact checked
  obtain ⟨_, _, above, _⟩ := (Anchor.verifyReceipt_iff _ _ _ _ _ _ _).mp settled required
  rw [committed.hBtcAnchored]
  rwa [refreshMetrics_hBtcAnchored] at above

/-- In every run the anchor never decreases at a block the settlement check
applies to, whoever led it. -/
theorem anchor_monotone_where_checked {external : External} {p : Params}
    {past : List (Move Chain Block)} {now : Chain} (run : ChainRun external p past now)
    {m : Move Chain Block} (member : m ∈ past) (checked : SettlementChecked p m) :
    m.source.store.hBtcAnchored ≤ m.target.store.hBtcAnchored := by
  obtain ⟨_, _, _, _, taken⟩ := run.cut_of_mem member
  exact decideBlock_anchor_le taken checked

/-- An ANCHORED block that settles at Bitcoin height 2, and a degrading block
that names height 0 while bitcoind is unreachable. -/
def settledProposal : ExtendedProposal := attestedProposal .anchored true 0 2

def rolledBackProposal : ExtendedProposal := attestedProposal .sovereign false 0 0

def rollbackExternal : External :=
  .ofProposals [settledProposal, rolledBackProposal] (fun _ _ => false)

theorem anchor_monotone_settled :
    ∃ past now m, ChainRun rollbackExternal defaultParams past now ∧ m ∈ past ∧
      m.target.store.hBtcAnchored = 2 ∧
      m.source.store.hBtcAnchored ≤ m.target.store.hBtcAnchored := by
  obtain ⟨m, older, now, run, passed⟩ := exists_run_of_newestPasses
    (decideBlock rollbackExternal defaultParams) genesisChain
    [proposalBlock (liveSensors 4 0) settledProposal [] []]
    (fun m _ => m.target.state == .anchored && m.target.store.hBtcAnchored == 2)
    (by decide +kernel)
  simp only [Bool.and_eq_true, beq_iff_eq] at passed
  exact ⟨_, now, m, run, List.mem_cons_self, passed.2,
    anchor_monotone_where_checked run List.mem_cons_self (.inl passed.1)⟩

/-- The anchor settled at height 2 is rolled back to 0 by the next block. -/
theorem anchor_rolls_back_under_outage :
    ∃ past now, ChainRun rollbackExternal defaultParams past now ∧
      ¬ ∀ m ∈ past, m.source.store.hBtcAnchored ≤ m.target.store.hBtcAnchored := by
  obtain ⟨past, now, run, passed⟩ := exists_run_of_replayPasses
    (decideBlock rollbackExternal defaultParams) genesisChain
    [proposalBlock (liveSensors 4 0) settledProposal [] [],
      proposalBlock (outageSensors 0) rolledBackProposal [] []]
    (fun past _ => past.any
      (fun m => m.source.store.hBtcAnchored > m.target.store.hBtcAnchored))
    (by decide +kernel)
  simp only [List.any_eq_true, decide_eq_true_eq] at passed
  obtain ⟨m, member, lowered⟩ := passed
  exact ⟨past, now, run, fun monotone => absurd (monotone m member) (not_le.mpr lowered)⟩

end Engram.Chain
