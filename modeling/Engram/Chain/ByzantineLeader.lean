import Engram.Chain.DataAvailabilityOutage

/-!
A leader that lies about its own proposal. The environment variable
`ENGRAM_BYZANTINE_BEHAVIOR` names four lies; each is set against the block the
same leader would have proposed honestly. Which lies a validator lets through is
decided here exactly, and what a lie that got through can change.
-/

set_option autoImplicit false
set_option relaxedAutoImplicit false

namespace Engram.Chain

open Engram.Types Engram.Keeper Engram.Node Engram.Library Engram.Library.Word64

def leaderBlock (p : Params) (leader : Option Sensors) (c : Chain) (txs : List Bytes)
    (behavior : ByzantineBehavior) : ExtendedProposal × List Bytes :=
  let ext := leaderProposal p leader c.nextHeight c.store
  applyByzantineBehavior ext (leaderTxs ext.fsmState txs) behavior

private theorem prepareProposal_eq (p : Params) (leader : Option Sensors) (c : Chain)
    (txs : List Bytes) (behavior : ByzantineBehavior) :
    prepareProposal p leader c.nextHeight c.store behavior txs =
      encodeExtendedProposal (leaderBlock p leader c txs behavior).1 ::
        (leaderBlock p leader c txs behavior).2 := rfl

/-- The condition under which a validator cannot tell the lie from the honest
proposal `ext`. -/
def Undetected (p : Params) (validator : Option Sensors) (c : Chain) (round : UInt64)
    (ext : ExtendedProposal) : ByzantineBehavior → Prop
  | .honest => True
  | .fakeFsmState state => state = ext.fsmState
  | .forgeBtcHash =>
      -- outside the states that need Bitcoin the hash is never looked at
      requiresCheck ext.fsmState
        (isBTCHealthy (reading p c validator).metrics p) = false
  | .falseDaAttestation =>
      -- the height is compared with the current one and with nothing else
      requiresCheck ext.fsmState (isDAHealthy (reading p c validator).metrics p) = true →
        ext.daReceipt.publishedBlockHeight <
          (refreshMetrics p c.nextHeight c.store validator).hEngramCurrent
  | .censorTx target =>
      round < p.maxCensorshipRounds →
        target ∈ c.store.forcedTxQueueSlice → c.store.ignoredRounds target < p.maxIgnoreRounds

section Detection

variable {p : Params} {validator : Option Sensors} {c : Chain} {round : UInt64}
  {ext : ExtendedProposal} {innerTxs : List Bytes}

private theorem fake_state_detected
    (honest : processExtended p validator c.nextHeight c.store ext innerTxs round = true)
    (state : FSMState) :
    processExtended p validator c.nextHeight c.store { ext with fsmState := state } innerTxs
      round = true ↔ state = ext.fsmState := by
  constructor
  · intro accepted
    obtain ⟨_, claimed, _⟩ := (processExtended_iff _ _ _ _ _ _ _).mp accepted
    obtain ⟨_, computed, _⟩ := (processExtended_iff _ _ _ _ _ _ _).mp honest
    exact claimed.trans computed.symm
  · rintro rfl
    exact honest

private theorem forged_hash_detected
    (honest : processExtended p validator c.nextHeight c.store ext innerTxs round = true)
    {hash : Anchor.BlockHash}
    (forged : hash ≠ Anchor.expectedBlockHash ext.btcReceipt.checkpointBlockHeight) :
    processExtended p validator c.nextHeight c.store
        { ext with btcReceipt := { ext.btcReceipt with checkpointBlockHash := hash } } innerTxs
        round = true ↔
      requiresCheck ext.fsmState (isBTCHealthy (reading p c validator).metrics p) = false := by
  rw [processExtended_iff] at honest ⊢
  obtain ⟨included, state, healthy, available, _, confirmed, unlocked, gate⟩ := honest
  constructor
  · intro ⟨_, _, _, _, settled, _⟩
    refine Bool.eq_false_iff.mpr fun checked => ?_
    exact forged ((Anchor.verifyReceipt_iff _ _ _ _ _ _ _).mp settled checked).2.2.2
  · intro unchecked
    refine ⟨included, state, healthy, available, ?_, confirmed, unlocked, gate⟩
    rw [Anchor.verifyReceipt_iff]
    intro checked
    exact absurd (unchecked.symm.trans checked) (by decide)

private theorem false_attestation_detected
    (honest : processExtended p validator c.nextHeight c.store ext innerTxs round = true)
    (room : (refreshMetrics p c.nextHeight c.store validator).hEngramCurrent.toNat + 1 < 2 ^ 64) :
    processExtended p validator c.nextHeight c.store
        { ext with daReceipt := ⟨ext.daReceipt.publishedBlockHeight + 1, true⟩ } innerTxs
        round = true ↔
      (requiresCheck ext.fsmState (isDAHealthy (reading p c validator).metrics p) = true →
        ext.daReceipt.publishedBlockHeight <
          (refreshMetrics p c.nextHeight c.store validator).hEngramCurrent) := by
  rw [processExtended_iff] at honest ⊢
  obtain ⟨included, state, healthy, available, settled, confirmed, unlocked, gate⟩ := honest
  rw [DA.verifyReceipt_iff] at available
  constructor
  · intro ⟨_, _, _, available', _⟩ checked
    obtain ⟨_, below, _⟩ := available checked
    obtain ⟨_, below', _⟩ := (DA.verifyReceipt_iff _ _ _ _ _ _).mp available' checked
    rw [UInt64.le_iff_toNat_le] at below below'
    rw [UInt64.lt_iff_toNat_lt]
    rw [toNat_add_one (by omega)] at below'
    omega
  · intro behind
    refine ⟨included, state, healthy, ?_, settled, confirmed, unlocked, ?_⟩
    · rw [DA.verifyReceipt_iff]
      intro checked
      obtain ⟨_, _, fresh⟩ := available checked
      have strict := UInt64.lt_iff_toNat_lt.mp (behind checked)
      rw [UInt64.le_iff_toNat_le] at fresh
      refine ⟨rfl, ?_, ?_⟩
      · rw [UInt64.le_iff_toNat_le, toNat_add_one (by omega)]
        omega
      · rw [UInt64.le_iff_toNat_le, toNat_add_one (by omega)]
        omega
    · unfold ReanchoringGate at gate ⊢
      split at gate
      · rename_i waiting
        rw [if_pos waiting]
        have checked : requiresCheck ext.fsmState
            (isDAHealthy (reading p c validator).metrics p) = true := by
          simp [requiresCheck, waiting.1]
        have strict := UInt64.lt_iff_toNat_lt.mp (behind checked)
        have newer := UInt64.lt_iff_toNat_lt.mp gate.2.2
        refine ⟨gate.1, rfl, ?_⟩
        rw [UInt64.lt_iff_toNat_lt, toNat_add_one (by omega)]
        omega
      · rename_i elsewhere
        rw [if_neg elsewhere]
        exact gate

private theorem censorship_detected
    (honest : processExtended p validator c.nextHeight c.store ext innerTxs round = true)
    (target : Bytes) :
    processExtended p validator c.nextHeight c.store ext
        (innerTxs.filter (fun tx => tx ≠ target)) round = true ↔
      (round < p.maxCensorshipRounds →
        target ∈ c.store.forcedTxQueueSlice →
        c.store.ignoredRounds target < p.maxIgnoreRounds) := by
  have queue : (refreshMetrics p c.nextHeight c.store validator).forcedTxQueueSlice =
      c.store.forcedTxQueueSlice := by cases validator <;> rfl
  have ignored : (refreshMetrics p c.nextHeight c.store validator).ignoredRounds =
      c.store.ignoredRounds := by cases validator <;> rfl
  rw [processExtended_iff] at honest ⊢
  obtain ⟨included, state, healthy, available, settled, confirmed, unlocked, gate⟩ := honest
  simp only [queue, ignored, isCensoring_iff] at included
  constructor
  · intro ⟨kept, _⟩ early queued
    simp only [queue, ignored, isCensoring_iff] at kept
    refine not_le.mp fun overdue => kept ⟨early, target, queued, overdue, ?_⟩
    simp
  · intro punctual
    refine ⟨?_, state, healthy, available, settled, confirmed, ?_, gate⟩
    · simp only [queue, ignored, isCensoring_iff]
      rintro ⟨early, tx, queued, overdue, missing⟩
      by_cases same : tx = target
      · subst same
        exact absurd overdue (not_le.mpr (punctual early queued))
      · refine included ⟨early, tx, queued, overdue, ?_⟩
        simpa [same] using missing
    · intro locked tx member
      exact unlocked locked tx (List.mem_of_mem_filter member)

end Detection

/-- What a lie that got through can leave behind: other forced-inclusion bookkeeping
and another DA height, which a block that closes a recovery also makes the current one. -/
def Contained (published : UInt64) (closing : Bool) (honest attacked : Store) : Prop :=
  ∃ queue ignored, attacked = { honest with
    forcedTxQueue := queue
    txIgnoredRounds := ignored
    hEngramVerified := published
    hEngramCurrent := if closing then published else honest.hEngramCurrent }

private theorem updateForcedTxTracking_maps (p : Params) (st : Store) (txs : List Bytes) :
    ∃ queue ignored, updateForcedTxTracking p st txs =
      { st with
        forcedTxQueue := queue
        txIgnoredRounds := ignored } := by
  unfold updateForcedTxTracking
  generalize nextIgnoredRounds _ _ _ _ = entries
  induction entries generalizing st with
  | nil => exact ⟨st.forcedTxQueue, st.txIgnoredRounds, rfl⟩
  | cons entry entries ih =>
      obtain ⟨queue, ignored, tracked⟩ := ih (trackForcedTx txs.contains st entry)
      refine ⟨queue, ignored, ?_⟩
      rw [List.foldl_cons, tracked]
      unfold trackForcedTx
      split <;> rfl

private theorem commitFSMTransition_contained (p : Params) (height : UInt64) (appHash : Bytes)
    {st st' : Store} (maps : ∃ queue ignored, st' =
      { st with
        forcedTxQueue := queue
        txIgnoredRounds := ignored })
    {honest attacked : ExtendedProposal} (state : attacked.fsmState = honest.fsmState)
    (healthy : attacked.healthy = honest.healthy)
    (checkpoint : attacked.btcReceipt.checkpointBlockHeight =
      honest.btcReceipt.checkpointBlockHeight)
    (reference : attacked.zkProofRef = honest.zkProofRef) :
    Contained attacked.daReceipt.publishedBlockHeight (reanchors st honest)
      (commitFSMTransition p height appHash st honest)
      (commitFSMTransition p height appHash st' attacked) := by
  obtain ⟨queue, ignored, rfl⟩ := maps
  refine ⟨queue, ignored, ?_⟩
  have closes : reanchors
      { st with
        forcedTxQueue := queue
        txIgnoredRounds := ignored } attacked = reanchors st honest := by
    simp only [reanchors, Store.currState, state]
  have claims : claimsProof attacked = claimsProof honest := by
    simp only [claimsProof, state, reference]
  cases closing : reanchors st honest with
  | true =>
      simp only [commitFSMTransition, closes, claims, closing, state, healthy, checkpoint, if_true]
      rfl
  | false =>
      simp only [commitFSMTransition, closes, claims, closing, state, healthy, checkpoint,
        Bool.false_eq_true, if_false]
      rfl

section Outcome

variable {external : External} {p : Params} {past : List (Move Chain Block)} {now : Chain}
  {leader validator : Option Sensors} {round : UInt64} {txs : List Bytes}

private theorem processProposal_leaderBlock (c : Chain) (behavior : ByzantineBehavior)
    (inverse : external.unmarshal (leaderBlock p leader c txs behavior).1.marshal =
      some (leaderBlock p leader c txs behavior).1) :
    processProposal external p validator c.nextHeight c.store
        ⟨prepareProposal p leader c.nextHeight c.store behavior txs, round⟩ =
      processExtended p validator c.nextHeight c.store (leaderBlock p leader c txs behavior).1
        (leaderBlock p leader c txs behavior).2 round := by
  simp only [prepareProposal_eq, processProposal, decode_encode external inverse]

private theorem undetected_iff (run : ChainRun external p past now)
    (below : now.height + 1 < 2 ^ 63) (honest : processExtended p validator now.nextHeight now.store
      (leaderBlock p leader now txs .honest).1 (leaderBlock p leader now txs .honest).2 round =
        true) (behavior : ByzantineBehavior) :
    processExtended p validator now.nextHeight now.store
        (leaderBlock p leader now txs behavior).1 (leaderBlock p leader now txs behavior).2
        round = true ↔
      Undetected p validator now round (leaderBlock p leader now txs .honest).1 behavior := by
  have current := (engram_heights_of_run run).1
  have room : (refreshMetrics p now.nextHeight now.store validator).hEngramCurrent.toNat + 1 <
      2 ^ 64 := by
    have next : now.nextHeight.toNat = now.height + 1 := Nat.mod_eq_of_lt (by omega)
    cases validator with
    | none =>
        change now.store.hEngramCurrent.toNat + 1 < _
        omega
    | some s =>
        change (if s.da.source.isSome then now.nextHeight
          else now.store.hEngramCurrent).toNat + 1 < _
        split <;> omega
  cases behavior with
  | honest => simp only [honest, Undetected]
  | fakeFsmState state => exact fake_state_detected honest state
  | forgeBtcHash =>
      refine forged_hash_detected honest ?_
      intro same
      have tags : "FORGED" = "BTC_BLOCK" := congrArg Anchor.BlockHash.tag same
      exact absurd tags (by decide)
  | falseDaAttestation => exact false_attestation_detected honest room
  | censorTx target => exact censorship_detected honest target

private theorem leaderBlock_agrees {c : Chain} {behavior : ByzantineBehavior}
    (undetected : Undetected p validator c round (leaderBlock p leader c txs .honest).1 behavior) :
    let honest := (leaderBlock p leader c txs .honest).1
    let attacked := (leaderBlock p leader c txs behavior).1
    attacked.fsmState = honest.fsmState ∧ attacked.healthy = honest.healthy ∧
      attacked.btcReceipt.checkpointBlockHeight = honest.btcReceipt.checkpointBlockHeight ∧
      attacked.zkProofRef = honest.zkProofRef := by
  cases behavior with
  | fakeFsmState state => exact ⟨undetected, rfl, rfl, rfl⟩
  | _ => exact ⟨rfl, rfl, rfl, rfl⟩

private theorem preBlocker_contained (c : Chain) (behavior : ByzantineBehavior) (appHash : Bytes)
    (misbehavior : List Misbehavior) (decodes : ∀ lie, lie = .honest ∨ lie = behavior →
      external.unmarshal (leaderBlock p leader c txs lie).1.marshal =
        some (leaderBlock p leader c txs lie).1)
    (undetected : Undetected p validator c round (leaderBlock p leader c txs .honest).1 behavior) :
    Contained (leaderBlock p leader c txs behavior).1.daReceipt.publishedBlockHeight
      (reanchors c.store (leaderBlock p leader c txs .honest).1)
      (preBlocker external p c.nextHeight appHash c.store misbehavior
        (prepareProposal p leader c.nextHeight c.store .honest txs))
      (preBlocker external p c.nextHeight appHash c.store misbehavior
        (prepareProposal p leader c.nextHeight c.store behavior txs)) := by
  obtain ⟨state, healthy, checkpoint, reference⟩ := leaderBlock_agrees undetected
  simp only [prepareProposal_eq, preBlocker, decode_encode external (decodes _ (.inl rfl)),
    decode_encode external (decodes _ (.inr rfl))]
  generalize encodeExtendedProposal (leaderBlock p leader c txs .honest).1 ::
    (leaderBlock p leader c txs .honest).2 = honestTxs
  generalize encodeExtendedProposal (leaderBlock p leader c txs behavior).1 ::
    (leaderBlock p leader c txs behavior).2 = attackedTxs
  obtain ⟨_, _, tracked⟩ := updateForcedTxTracking_maps p
    (recordDetectedEvidence c.nextHeight c.store misbehavior) honestTxs
  obtain ⟨queue, ignored, tracked'⟩ := updateForcedTxTracking_maps p
    (recordDetectedEvidence c.nextHeight c.store misbehavior) attackedTxs
  have before := ((recordDetectedEvidence_bookkeeping c.nextHeight c.store misbehavior).trans
    (updateForcedTxTracking_bookkeeping p _ honestTxs)).currState
  rw [reanchors, ← before, ← reanchors]
  refine commitFSMTransition_contained p _ _ ⟨queue, ignored, ?_⟩ state healthy checkpoint
    reference
  rw [tracked', tracked]

/-- Every lie of a leader whose honest block the validator accepts: it gets through
exactly when it is not looked at, and then it commits what the honest block commits,
the DA heights and the forced-inclusion bookkeeping apart. -/
theorem byzantine_leader_contained (run : ChainRun external p past now)
    (below : now.height + 1 < 2 ^ 63) {behavior : ByzantineBehavior}
    (decodes : ∀ lie, lie = .honest ∨ lie = behavior →
      external.unmarshal (leaderBlock p leader now txs lie).1.marshal =
        some (leaderBlock p leader now txs lie).1)
    (honest : processProposal external p validator now.nextHeight now.store
      ⟨prepareProposal p leader now.nextHeight now.store .honest txs, round⟩ = true) :
    let ext := (leaderBlock p leader now txs .honest).1
    (processProposal external p validator now.nextHeight now.store
        ⟨prepareProposal p leader now.nextHeight now.store behavior txs, round⟩ = true ↔
      Undetected p validator now round ext behavior) ∧
    (Undetected p validator now round ext behavior → ∀ appHash misbehavior,
      Contained (leaderBlock p leader now txs behavior).1.daReceipt.publishedBlockHeight
        (reanchors now.store ext)
        (preBlocker external p now.nextHeight appHash now.store misbehavior
          (prepareProposal p leader now.nextHeight now.store .honest txs))
        (preBlocker external p now.nextHeight appHash now.store misbehavior
          (prepareProposal p leader now.nextHeight now.store behavior txs))) := by
  intro ext
  rw [processProposal_leaderBlock now _ (decodes _ (.inl rfl))] at honest
  refine ⟨?_, ?_⟩
  · rw [processProposal_leaderBlock now _ (decodes _ (.inr rfl))]
    exact undetected_iff run below honest behavior
  · intro undetected appHash misbehavior
    exact preBlocker_contained now behavior appHash misbehavior decodes undetected

end Outcome

def forgedOutageExternal : External :=
  .ofProposals
    [(leaderBlock defaultParams (some (outageSensors 1)) genesisChain [] .honest).1,
      (leaderBlock defaultParams (some (outageSensors 1)) genesisChain [] .forgeBtcHash).1]
    (fun _ _ => false)

/-- While bitcoind is out of reach the forged checkpoint hash gets through. -/
theorem byzantine_leader_contained_outage :
    processProposal forgedOutageExternal defaultParams (some (outageSensors 1))
        genesisChain.nextHeight genesisChain.store
        ⟨prepareProposal defaultParams (some (outageSensors 1)) genesisChain.nextHeight
          genesisChain.store .forgeBtcHash [], 0⟩ = true := by
  have decodes : ∀ lie, lie = .honest ∨ lie = .forgeBtcHash →
      forgedOutageExternal.unmarshal (leaderBlock defaultParams (some (outageSensors 1))
        genesisChain [] lie).1.marshal =
          some (leaderBlock defaultParams (some (outageSensors 1)) genesisChain [] lie).1 := by
    rintro lie (rfl | rfl) <;> decide +kernel
  have honest : processProposal forgedOutageExternal defaultParams (some (outageSensors 1))
      genesisChain.nextHeight genesisChain.store
      ⟨prepareProposal defaultParams (some (outageSensors 1)) genesisChain.nextHeight
        genesisChain.store .honest [], 0⟩ = true := by
    decide +kernel
  refine (byzantine_leader_contained .initial (by decide) decodes honest).1.mpr ?_
  unfold Undetected
  decide +kernel

end Engram.Chain
