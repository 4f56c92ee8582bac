import Engram.Spec.FsmStep
import Engram.Chain.Step

/-!
The validity predicate of `EngramTendermint.tla` over unbounded integers, and the
proof that the validator's handler decides it on every committed state. The
predicate is read with the tolerances the implementation documents; the timestamp
conjunct belongs to the consensus engine and is left to it.
-/

set_option autoImplicit false
set_option relaxedAutoImplicit false

namespace Engram.Spec

open Engram.Types Engram.Keeper Engram.Node Engram.Library Engram.Library.Word64

structure ConsensusConstants extends Constants where
  kDeepFinality : ℕ
  maxIgnoreRounds : ℕ
  maxCensorshipRounds : ℕ

structure ServerVars extends Vars where
  hEngramCurrent : ℤ
  hEngramVerified : ℤ
  hBtcCurrent : ℤ
  hBtcAnchored : ℤ
  forcedTxQueue : Set Bytes
  txIgnoredRounds : Bytes → ℕ

/-- A proposal of the specification; its value is the list of inner transactions. -/
structure Proposal where
  value : List Bytes
  round : ℤ
  fsmState : FSMState
  healthy : Bool
  publishedBlockHeight : ℤ
  attestation : Bool
  checkpointBlockHeight : ℤ
  checkpointBlockHash : String × ℤ
  zkProofRef : Bool

section Operators

variable (k : ConsensusConstants) (v : ServerVars) (prop : Proposal)

def DATolerance (r : ℤ) : ℤ := if r ≤ 1 then 0 else if r = 2 then 2 else 4

/-- The documented settlement tolerance, in place of the model's own. -/
def BTCTolerance (r : ℤ) : ℤ := k.kDeepFinality + 2 + r

def ContainsWithdrawal : Prop := ∃ tx ∈ prop.value, containsWithdrawal tx = true

def VerifyZkProof : Prop :=
  prop.zkProofRef = true ∧ prop.attestation = true ∧
    prop.publishedBlockHeight > v.hEngramVerified

def VerifySPVProof : Prop :=
  prop.checkpointBlockHeight ≤ v.hBtcCurrent ∧ prop.checkpointBlockHeight ≥ v.hBtcAnchored ∧
    prop.checkpointBlockHash = ("BTC_BLOCK", prop.checkpointBlockHeight)

def IsValidProposal : Prop :=
  prop.fsmState = CalculateNextFSMState k.toConstants v.toVars ∧
  (prop.healthy = true ↔ IsHealthyCondition k.toConstants v.toVars) ∧
  ((prop.fsmState = .anchored ∨ prop.fsmState = .recovering) ∨
      IsDAHealthy k.toConstants v.toVars →
    prop.attestation = true ∧ prop.publishedBlockHeight ≤ v.hEngramCurrent ∧
      prop.publishedBlockHeight ≥ v.hEngramCurrent - k.daThreshold - DATolerance prop.round) ∧
  ((prop.fsmState = .anchored ∨ prop.fsmState = .recovering) ∨
      IsBTCHealthy k.toConstants v.toVars →
    prop.checkpointBlockHeight ≥ v.hBtcCurrent - BTCTolerance k prop.round ∧
      VerifySPVProof v prop) ∧
  (prop.fsmState = .sovereign ∨ prop.fsmState = .recovering → ¬ ContainsWithdrawal prop) ∧
  if prop.fsmState = .recovering ∧ v.safeBlocks = k.hysteresisWait then VerifyZkProof v prop
  else prop.zkProofRef = false

def IsCensoring : Prop :=
  prop.round < k.maxCensorshipRounds ∧
    ∃ tx ∈ v.forcedTxQueue, v.txIgnoredRounds tx ≥ k.maxIgnoreRounds ∧ tx ∉ prop.value

end Operators

def consensusConstantsOf (p : Params) : ConsensusConstants where
  toConstants := constantsOf p
  kDeepFinality := p.kDeepFinality.toNat
  maxIgnoreRounds := p.maxIgnoreRounds.toNat
  maxCensorshipRounds := p.maxCensorshipRounds.toNat

/-- The specification's variables in a refreshed store. -/
def serverVarsOf (st : Store) : ServerVars where
  toVars := varsOf st.currState st.currentFSMInput
  hEngramCurrent := st.hEngramCurrent.toNat
  hEngramVerified := st.hEngramVerified.toNat
  hBtcCurrent := st.hBtcCurrent.toNat
  hBtcAnchored := st.hBtcAnchored.toNat
  forcedTxQueue := {tx | tx ∈ st.forcedTxQueueSlice}
  txIgnoredRounds tx := (st.ignoredRounds tx).toNat

def proposalOf (ext : ExtendedProposal) (innerTxs : List Bytes) (round : UInt64) : Proposal where
  value := innerTxs
  round := round.toNat
  fsmState := ext.fsmState
  healthy := ext.healthy
  publishedBlockHeight := ext.daReceipt.publishedBlockHeight.toNat
  attestation := ext.daReceipt.attestation
  checkpointBlockHeight := ext.btcReceipt.checkpointBlockHeight.toNat
  checkpointBlockHash := (ext.btcReceipt.checkpointBlockHash.tag,
    ext.btcReceipt.checkpointBlockHash.height.toNat)
  zkProofRef := !ext.zkProofRef.isEmpty

section Conjuncts

variable {p : Params} {st : Store} (ext : ExtendedProposal)

private theorem requiresCheck_iff (state : FSMState) (healthy : Bool) :
    requiresCheck state healthy = true ↔
      (state = .anchored ∨ state = .recovering) ∨ healthy = true := by
  simp [requiresCheck]

private theorem toNat_daTolerance (round : UInt64) :
    ((DA.tolerance round).toNat : ℤ) = DATolerance round.toNat := by
  unfold DA.tolerance DATolerance
  simp only [UInt64.le_iff_toNat_le, ← UInt64.toNat_inj]
  split_ifs <;> first | rfl | (exfalso; simp at *; omega)

private theorem da_check_iff {round : UInt64} (small : p.daThreshold.toNat < 2 ^ 62)
    (current : st.hEngramCurrent.toNat < 2 ^ 62) (healthy : Bool) :
    DA.verifyReceipt ext.daReceipt ext.fsmState healthy st.hEngramCurrent p.daThreshold round =
        true ↔
      ((ext.fsmState = .anchored ∨ ext.fsmState = .recovering) ∨ healthy = true →
        ext.daReceipt.attestation = true ∧
          (ext.daReceipt.publishedBlockHeight.toNat : ℤ) ≤ st.hEngramCurrent.toNat ∧
          (ext.daReceipt.publishedBlockHeight.toNat : ℤ) ≥
            st.hEngramCurrent.toNat - p.daThreshold.toNat - DATolerance round.toNat) := by
  have tolerance := DA.toNat_tolerance_le round
  have window := toNat_clampSigned_sub_sub (a := st.hEngramCurrent) (b := p.daThreshold)
    (c := DA.tolerance round) (by omega) (by omega)
  rw [DA.verifyReceipt_iff, requiresCheck_iff, ← toNat_daTolerance, UInt64.le_iff_toNat_le,
    UInt64.le_iff_toNat_le, window]
  refine imp_congr_right (fun _ => and_congr_right (fun _ => ?_))
  omega

private theorem hash_iff (receipt : Anchor.Receipt) :
    receipt.checkpointBlockHash = Anchor.expectedBlockHash receipt.checkpointBlockHeight ↔
      (receipt.checkpointBlockHash.tag, (receipt.checkpointBlockHash.height.toNat : ℤ)) =
        ("BTC_BLOCK", (receipt.checkpointBlockHeight.toNat : ℤ)) := by
  obtain ⟨height, tag, height'⟩ := receipt
  simp only [Anchor.expectedBlockHash, Anchor.BlockHash.mk.injEq, Prod.mk.injEq, Int.ofNat_inj,
    UInt64.toNat_inj]

private theorem settlement_check_iff (innerTxs : List Bytes) {round : UInt64}
    (small : p.kDeepFinality.toNat < 2 ^ 62) (rounds : round.toNat < 2 ^ 62)
    (current : st.hBtcCurrent.toNat < 2 ^ 62) (healthy : Bool) :
    Anchor.verifyReceipt ext.btcReceipt ext.fsmState healthy st.hBtcCurrent st.hBtcAnchored
        round p.kDeepFinality = true ↔
      ((ext.fsmState = .anchored ∨ ext.fsmState = .recovering) ∨ healthy = true →
        (ext.btcReceipt.checkpointBlockHeight.toNat : ℤ) ≥
            st.hBtcCurrent.toNat - BTCTolerance (consensusConstantsOf p) round.toNat ∧
          VerifySPVProof (serverVarsOf st) (proposalOf ext innerTxs round)) := by
  have tolerance := Anchor.toNat_tolerance round p.kDeepFinality (by omega)
  have window := toNat_clampSigned_sub (a := st.hBtcCurrent)
    (b := Anchor.tolerance round p.kDeepFinality) (by omega) (by omega)
  rw [Anchor.verifyReceipt_iff, requiresCheck_iff, hash_iff, VerifySPVProof,
    UInt64.le_iff_toNat_le, UInt64.le_iff_toNat_le, UInt64.le_iff_toNat_le, window, tolerance]
  refine imp_congr_right (fun _ => ?_)
  simp only [serverVarsOf, BTCTolerance, consensusConstantsOf, proposalOf]
  constructor
  · rintro ⟨fresh, below, above, same⟩
    exact ⟨by omega, by omega, by omega, same⟩
  · rintro ⟨fresh, below, above, same⟩
    exact ⟨by omega, by omega, by omega, same⟩

private theorem censoring_iff {innerTxs : List Bytes} {round : UInt64} :
    (round < p.maxCensorshipRounds ∧ isCensoring st.forcedTxQueueSlice st.ignoredRounds
        innerTxs.contains p.maxIgnoreRounds = true) ↔
      IsCensoring (consensusConstantsOf p) (serverVarsOf st) (proposalOf ext innerTxs round) := by
  rw [isCensoring_iff, UInt64.lt_iff_toNat_lt]
  simp only [IsCensoring, consensusConstantsOf, serverVarsOf, proposalOf, Int.ofNat_lt,
    UInt64.le_iff_toNat_le, Set.mem_ofPred_eq, ge_iff_le, List.contains_eq_mem,
    decide_eq_false_iff_not]

private theorem breaker_iff (innerTxs : List Bytes) (round : UInt64) :
    (withdrawLocked ext.fsmState = true → ∀ tx ∈ innerTxs, containsWithdrawal tx = false) ↔
      (ext.fsmState = .sovereign ∨ ext.fsmState = .recovering →
        ¬ ContainsWithdrawal (proposalOf ext innerTxs round)) := by
  have locked : withdrawLocked ext.fsmState = true ↔
      ext.fsmState = .sovereign ∨ ext.fsmState = .recovering := by
    cases ext.fsmState <;> simp [withdrawLocked]
  rw [locked]
  simp [ContainsWithdrawal, proposalOf]

private theorem reanchoring_gate_iff (innerTxs : List Bytes) (round : UInt64) :
    ReanchoringGate p st ext ↔
      if ext.fsmState = .recovering ∧
          (serverVarsOf st).safeBlocks = (consensusConstantsOf p).hysteresisWait then
        VerifyZkProof (serverVarsOf st) (proposalOf ext innerTxs round)
      else (proposalOf ext innerTxs round).zkProofRef = false := by
  have waited : st.safeBlocks = p.hysteresisWait ↔
      (serverVarsOf st).safeBlocks = (consensusConstantsOf p).hysteresisWait :=
    UInt64.toNat_inj.symm
  unfold ReanchoringGate
  simp only [← waited]
  split
  · simp [VerifyZkProof, serverVarsOf, proposalOf, UInt64.lt_iff_toNat_lt]
  · simp [proposalOf]

end Conjuncts

private theorem anchorConfirmed_iff (s : Option Sensors) (checkpoint anchored : UInt64) :
    anchorConfirmed s checkpoint anchored = true ↔
      ∀ tracker, s.bind Sensors.anchor = some tracker → anchored < checkpoint →
        tracker.verifyAnchor checkpoint = some true := by
  unfold anchorConfirmed
  cases s.bind Sensors.anchor with
  | none => simp
  | some tracker => by_cases advanced : anchored < checkpoint <;> simp [advanced]

private theorem processExtended_iff_spec {p : Params} (small : p.Small) {s : Option Sensors}
    {height : UInt64} {committed : Store} {ext : ExtendedProposal} {innerTxs : List Bytes}
    {round : UInt64} (rounds : round.toNat < 2 ^ 62)
    (engramHeight : (refreshMetrics p height committed s).hEngramCurrent.toNat < 2 ^ 62)
    (btcHeight : (refreshMetrics p height committed s).hBtcCurrent.toNat < 2 ^ 62)
    (streakRoom : committed.unhealthyStreak.toNat + 1 < 2 ^ 64)
    (safeRoom : committed.suspiciousSafeBlocks.toNat + 1 < 2 ^ 64) :
    processExtended p s height committed ext innerTxs round = true ↔
      let k := consensusConstantsOf p
      let v := serverVarsOf (refreshMetrics p height committed s)
      let prop := proposalOf ext innerTxs round
      IsValidProposal k v prop ∧ ¬ IsCensoring k v prop ∧
        ∀ tracker, s.bind Sensors.anchor = some tracker →
          committed.hBtcAnchored < ext.btcReceipt.checkpointBlockHeight →
          tracker.verifyAnchor ext.btcReceipt.checkpointBlockHeight = some true := by
  have ceiling : p.maxDownHysteresisThreshold.toNat < 2 ^ 62 := small _ (by simp [Params.fields])
  have threshold : p.daThreshold.toNat < 2 ^ 62 := small _ (by simp [Params.fields])
  have depth : p.kDeepFinality.toNat < 2 ^ 62 := small _ (by simp [Params.fields])
  have streak : (refreshMetrics p height committed s).currentFSMInput.unhealthyStreak =
      committed.unhealthyStreak := by cases s <;> rfl
  have safe : (refreshMetrics p height committed s).currentFSMInput.suspiciousSafeBlocks =
      committed.suspiciousSafeBlocks := by cases s <;> rfl
  have anchored := refreshMetrics_hBtcAnchored p height committed s
  rw [processExtended_iff]
  generalize refreshMetrics p height committed s = st at *
  have target : calculateNextState st.currState st.currentFSMInput p =
      CalculateNextFSMState (consensusConstantsOf p).toConstants (serverVarsOf st).toVars :=
    calculateNextState_eq_spec st.currState (by omega) (by rw [streak]; omega) (by rw [safe]; omega)
  have health : ext.healthy = isHealthyCondition st.currentFSMInput.metrics p ↔
      (ext.healthy = true ↔ IsHealthyCondition (consensusConstantsOf p).toConstants
        (serverVarsOf st).toVars) := by
    rw [Bool.eq_iff_iff, healthy_iff p st.currState]
    rfl
  have da := da_healthy_iff p st.currState st.currentFSMInput
  have btc := btc_healthy_iff p st.currState st.currentFSMInput
  dsimp only
  rw [censoring_iff ext, target, health, da_check_iff ext threshold engramHeight, da,
    settlement_check_iff ext innerTxs depth rounds btcHeight, btc, anchorConfirmed_iff,
    breaker_iff ext innerTxs round, reanchoring_gate_iff ext innerTxs round, anchored]
  constructor
  · rintro ⟨included, state, healthy, available, settled, confirmed, locked, gate⟩
    exact ⟨⟨state, healthy, available, settled, locked, gate⟩, included, confirmed⟩
  · rintro ⟨⟨state, healthy, available, settled, locked, gate⟩, included, confirmed⟩
    exact ⟨included, state, healthy, available, settled, confirmed, locked, gate⟩

/-- The two counters the FSM step increments never exceed the number of blocks,
and the number of blocks stays below `2 ^ 63`. -/
structure CountersBelowHeight (c : Chain) : Prop where
  unhealthyStreak : c.store.unhealthyStreak.toNat ≤ c.height
  suspiciousSafeBlocks : c.store.suspiciousSafeBlocks.toNat ≤ c.height
  below : c.height < 2 ^ 63

theorem CountersBelowHeight.step {external : External} {p : Params} {c c' : Chain} {b : Block}
    (held : CountersBelowHeight c) (decided : decideBlock external p c b = some c') :
    CountersBelowHeight c' := by
  obtain ⟨ext, innerTxs, carries, committed⟩ := Chain.decideBlock_committed decided
  have grown : c'.height = c.height + 1 := Chain.decideBlock_height decided
  have streak := toNat_add_one_le c.store.unhealthyStreak
  have streakMoved : c'.store.unhealthyStreak = nextUnhealthyStreak c.store.currState
      ext.fsmState c.store.unhealthyStreak ext.healthy := congrArg Fsm.Core.unhealthyStreak
        committed.fsm
  have safeMoved : c'.store.suspiciousSafeBlocks = nextSuspiciousSafeBlocks c.store.currState
      ext.fsmState c.store.suspiciousSafeBlocks ext.healthy p :=
    congrArg Fsm.Core.suspiciousSafeBlocks committed.fsm
  have bound := carries.below
  have heldStreak := held.unhealthyStreak
  have heldSafe := held.suspiciousSafeBlocks
  refine ⟨?_, ?_, by omega⟩
  · rw [streakMoved, nextUnhealthyStreak]
    split
    · omega
    · simp
  · rw [safeMoved]
    exact le_trans (toNat_nextLeaky_le _ _ _ _ _ _) (by split <;> omega)

/-- On every committed state of every chain, whatever its genesis, the handler
accepts a decodable proposal exactly when the specification calls it valid and
not censoring and the node's own bitcoind confirms an advanced checkpoint. -/
theorem processProposal_decides_spec {external : External} {gs : GenesisState}
    {genesis : Process} (installed : initChainer (newEngramApp {}) gs = .ok genesis)
    {past : List (Move Chain Block)} {now : Chain}
    (run : Run (decideBlock external genesis.params) ⟨0, genesis.store⟩ past now)
    (s : Option Sensors) {tx : Bytes} {ext : ExtendedProposal} (innerTxs : List Bytes)
    {round : UInt64} (decoded : decodeExtendedProposal external tx = .proposal ext)
    (small : genesis.params.Small) (rounds : round.toNat < 2 ^ 62)
    (engramHeight : (refreshMetrics genesis.params now.nextHeight now.store
      s).hEngramCurrent.toNat < 2 ^ 62)
    (btcHeight : (refreshMetrics genesis.params now.nextHeight now.store
      s).hBtcCurrent.toNat < 2 ^ 62) :
    processProposal external genesis.params s now.nextHeight now.store ⟨tx :: innerTxs, round⟩ =
        true ↔
      let k := consensusConstantsOf genesis.params
      let v := serverVarsOf (refreshMetrics genesis.params now.nextHeight now.store s)
      let prop := proposalOf ext innerTxs round
      IsValidProposal k v prop ∧ ¬ IsCensoring k v prop ∧
        ∀ tracker, s.bind Sensors.anchor = some tracker →
          now.store.hBtcAnchored < ext.btcReceipt.checkpointBlockHeight →
          tracker.verifyAnchor ext.btcReceipt.checkpointBlockHeight = some true := by
  have bounded : CountersBelowHeight now := by
    refine run.invariant ?_ (fun _ _ _ held taken => held.step taken)
    obtain ⟨_, _, rfl⟩ := initChainer_cases installed
    exact ⟨by simp [newEngramApp], by simp [newEngramApp], by simp⟩
  have streak := bounded.unhealthyStreak
  have safe := bounded.suspiciousSafeBlocks
  have below := bounded.below
  simp only [processProposal, decoded]
  exact processExtended_iff_spec small rounds engramHeight btcHeight (by omega) (by omega)

/-- The first block of a live chain, settled two Bitcoin blocks below the tip. -/
theorem settled_proposal_valid :
    let external := External.ofProposals [attestedProposal .anchored true 1 2] (fun _ _ => false)
    let st := refreshMetrics defaultParams 1 genesisStore (some (liveSensors 4 0))
    decodeExtendedProposal external
        (encodeExtendedProposal (attestedProposal .anchored true 1 2)) =
          .proposal (attestedProposal .anchored true 1 2) ∧
      IsValidProposal (consensusConstantsOf defaultParams) (serverVarsOf st)
        (proposalOf (attestedProposal .anchored true 1 2) [] 0) := by
  intro external st
  have decoded : decodeExtendedProposal external
      (encodeExtendedProposal (attestedProposal .anchored true 1 2)) =
        .proposal (attestedProposal .anchored true 1 2) :=
    decode_encode external (by decide +kernel)
  refine ⟨decoded, ((processProposal_decides_spec (initChainer_default (by decide)) .initial
    (some (liveSensors 4 0)) [] decoded (by decide) (by decide) (by decide)
    (by decide)).mp ?_).1⟩
  decide +kernel

end Engram.Spec
