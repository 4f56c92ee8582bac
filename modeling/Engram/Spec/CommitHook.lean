import Engram.Node.PreBlock
import Engram.Spec.FsmStep
import Engram.Spec.Server.Actions

/-!
The commit hook against the decision hook it ports. `CommitFSMTransition` writes 64-bit
words and reads the agreed health flag; steps 3 to 5 of the decision hook write unbounded
integers and read three conditions of the sensors.
-/

set_option autoImplicit false
set_option relaxedAutoImplicit false

namespace Engram.Spec.Server

open Engram.Types Engram.Keeper Engram.Node Engram.Library.Word64

/-- The fifteen items that both hooks write or leave. -/
@[ext]
structure HookItems where
  state : FSMState
  suspiciousDuration : ℕ
  unhealthyStreak : ℕ
  failedRecoveryAttempts : ℕ
  safeBlocks : ℕ
  suspiciousSafeBlocks : ℕ
  hBtcAnchored : ℕ
  hEngramVerified : ℕ
  hBtcSubmitted : ℕ
  reanchoringProofValid : Bool
  hBtcCurrent : ℕ
  hEngramCurrent : ℕ
  isDasFailed : Bool
  isAttestationFailed : Bool
  isBtcSpvFailed : Bool
  deriving DecidableEq

def Environment.hookItems (e : Environment) : HookItems where
  state := e.state
  suspiciousDuration := e.suspiciousDuration
  unhealthyStreak := e.unhealthyStreak
  failedRecoveryAttempts := e.failedRecoveryAttempts
  safeBlocks := e.safeBlocks
  suspiciousSafeBlocks := e.suspiciousSafeBlocks
  hBtcAnchored := e.hBtcAnchored
  hEngramVerified := e.hEngramVerified
  hBtcSubmitted := e.hBtcSubmitted
  reanchoringProofValid := e.reanchoringProofValid
  hBtcCurrent := e.hBtcCurrent
  hEngramCurrent := e.hEngramCurrent
  isDasFailed := e.isDasFailed
  isAttestationFailed := e.isAttestationFailed
  isBtcSpvFailed := e.isBtcSpvFailed

def storeItems (st : Store) : HookItems where
  state := st.currState
  suspiciousDuration := st.suspiciousDuration.toNat
  unhealthyStreak := st.unhealthyStreak.toNat
  failedRecoveryAttempts := st.failedRecoveryAttempts.toNat
  safeBlocks := st.safeBlocks.toNat
  suspiciousSafeBlocks := st.suspiciousSafeBlocks.toNat
  hBtcAnchored := st.hBtcAnchored.toNat
  hEngramVerified := st.hEngramVerified.toNat
  hBtcSubmitted := st.hBtcSubmitted.toNat
  reanchoringProofValid := st.reanchoringProofValid
  hBtcCurrent := st.hBtcCurrent.toNat
  hEngramCurrent := st.hEngramCurrent.toNat
  isDasFailed := (st.metrics.getD {}).isDasFailed
  isAttestationFailed := (st.metrics.getD {}).isAttestationFailed
  isBtcSpvFailed := (st.metrics.getD {}).isBtcSpvFailed

/-- What `ExecuteFSMTransition` reads of the sensors. -/
structure Readings where
  healthy : Bool
  warning : Bool
  critical : Bool
  lawful : critical = false → warning = !healthy

private theorem warning_iff_of_calm {k : Constants} {v : Vars} (calm : ¬ IsCriticalCondition k v) :
    IsWarningCondition k v ↔ ¬ IsHealthyCondition k v := by
  have gap : ¬ IsBTCGapSovereign k v := fun wide => calm (.inl wide)
  have spv : ¬ v.isBtcSpvFailed = true := fun failed => calm (.inr (.inl failed))
  unfold IsWarningCondition IsHealthyCondition
  tauto

def readingsOf (k : Constants) (v : Vars) : Readings where
  healthy := decide (IsHealthyCondition k v)
  warning := decide (IsWarningCondition k v)
  critical := decide (IsCriticalCondition k v)
  lawful := by
    intro calm
    rw [decide_eq_decide.mpr (warning_iff_of_calm (of_decide_eq_false calm)), decide_not]

/-- Steps 3 to 5 of `ServerUponProposalInPrecommitNoDecision` on the items, with the
conditions read from `r`. -/
def hookWrites (k : Constants) (r : Readings) (c : HookItems) (prop : Proposal) : HookItems :=
  let target := prop.fsmState
  let submits := target = .recovering ∧ prop.zkProofRef = true
  let reanchors := c.state = .recovering ∧ target = .anchored
  { state := target
    suspiciousDuration :=
      if target = .suspicious then MinVal (c.suspiciousDuration + 1) (k.maxSuspiciousTime + 1)
      else 0
    unhealthyStreak :=
      if (c.state = .anchored ∧ target = .anchored ∧ r.warning = true ∧ r.critical = false) ∨
          (c.state = .recovering ∧ target = .recovering ∧ r.healthy = false ∧
            r.critical = false) then c.unhealthyStreak + 1
      else 0
    failedRecoveryAttempts :=
      if c.state = .recovering ∧ target = .sovereign then
        if k.downHysteresisThreshold * 2 ^ c.failedRecoveryAttempts ≥
            k.maxDownHysteresisThreshold then c.failedRecoveryAttempts
        else c.failedRecoveryAttempts + 1
      else if c.state = .recovering ∧ target = .anchored then 0
      else c.failedRecoveryAttempts
    safeBlocks :=
      if target = .recovering ∧ c.state = .recovering then
        if r.healthy = true then MinVal (c.safeBlocks + 1) k.hysteresisWait
        else if c.safeBlocks ≥ 1 then c.safeBlocks - 1 else 0
      else 0
    suspiciousSafeBlocks :=
      if target = .suspicious ∧ c.state = .suspicious then
        if r.healthy = true then MinVal (c.suspiciousSafeBlocks + 1) k.suspiciousHysteresisWait
        else if c.suspiciousSafeBlocks ≥ 1 then c.suspiciousSafeBlocks - 1 else 0
      else 0
    hBtcAnchored := prop.btcReceipt.checkpointBlockHeight
    hEngramVerified := prop.daReceipt.publishedBlockHeight
    hBtcSubmitted := if submits then c.hBtcCurrent else c.hBtcSubmitted
    reanchoringProofValid := if submits then false else c.reanchoringProofValid
    hBtcCurrent := if reanchors then prop.btcReceipt.checkpointBlockHeight else c.hBtcCurrent
    hEngramCurrent :=
      if reanchors then prop.daReceipt.publishedBlockHeight else c.hEngramCurrent
    isDasFailed := if reanchors then false else c.isDasFailed
    isAttestationFailed := if reanchors then false else c.isAttestationFailed
    isBtcSpvFailed := if reanchors then false else c.isBtcSpvFailed }

/-- The hook the keeper is ported from writes what the specification's decision primes. -/
theorem hookItems_syncDecision {Node : Type} [DecidableEq Node] (k : ServerConstants Node)
    (e : Environment) (prop : Proposal) :
    (syncDecision k e prop).hookItems =
      hookWrites k.toConstants (readingsOf k.toConstants e.vars) e.hookItems prop := by
  simp only [syncDecision, Environment.hookItems, hookWrites, readingsOf, ExecuteFSMTransition,
    decide_eq_true_eq, decide_eq_false_iff_not]
  rfl

/-! Each counter of the keeper takes its specified value exactly while its word has room. -/

private theorem nextLeaky_of_full (home : FSMState) {count : UInt64} (cap : UInt64)
    (full : ¬ count.toNat + 1 < 2 ^ 64) : nextLeaky home home home count true cap = 0 := by
  have wrapped := add_one_eq_zero_of_full full
  have capped : ¬ count + 1 > cap := by
    rw [wrapped, gt_iff_lt, UInt64.lt_iff_toNat_lt]
    exact Nat.not_lt_zero _
  simp only [nextLeaky, ne_eq, not_true_eq_false, or_self, if_false, if_true, if_neg capped]
  exact wrapped

private theorem nextLeaky_eq_iff (home current target : FSMState) (count cap : UInt64)
    (healthy : Bool) : (nextLeaky home current target count healthy cap).toNat =
        (if target = home ∧ current = home then
          if healthy = true then MinVal (count.toNat + 1) cap.toNat
          else if count.toNat ≥ 1 then count.toNat - 1 else 0
        else 0) ↔
      (target = home → current = home → healthy = true → cap ≠ 0 →
        count.toNat + 1 < 2 ^ 64) := by
  by_cases room : count.toNat + 1 < 2 ^ 64
  · rw [toNat_nextLeaky home current target cap healthy room, MinVal_eq_min]
    exact ⟨fun _ _ _ _ _ => room, fun _ => rfl⟩
  · by_cases stays : target = home ∧ current = home
    · obtain ⟨rfl, rfl⟩ := stays
      cases healthy with
      | true =>
          rw [nextLeaky_of_full _ cap room, if_pos ⟨rfl, rfl⟩, if_pos rfl, MinVal_eq_min]
          constructor
          · intro same _ _ _ positive
            have zero : cap.toNat = 0 := by
              change 0 = _ at same
              omega
            exact absurd (UInt64.toNat_inj.mp zero) positive
          · intro opened
            have zero : cap = 0 := by
              by_contra positive
              exact room (opened rfl rfl rfl positive)
            rw [zero]
            exact (Nat.min_zero _).symm
      | false =>
          have positive : count ≠ 0 := by
            rintro rfl
            exact room (by decide)
          have occupied : count.toNat ≥ 1 := by omega
          have less := toNat_sub_one positive
          simp [nextLeaky, positive, occupied, less]
    · have left : target ≠ home ∨ current ≠ home := by tauto
      rw [nextLeaky, if_pos left, if_neg stays]
      exact ⟨fun _ here there => absurd ⟨here, there⟩ stays, fun _ => rfl⟩

private theorem nextSuspiciousDuration_eq_iff (p : Params) (current target : FSMState)
    (duration : UInt64) :
    (nextSuspiciousDuration current target duration p).toNat =
        (if target = .suspicious then
          MinVal (duration.toNat + 1) (p.maxSuspiciousTime.toNat + 1) else 0) ↔
      (target = .suspicious →
        duration.toNat + 1 < 2 ^ 64 ∧ p.maxSuspiciousTime.toNat + 1 < 2 ^ 64) := by
  by_cases held : target = .suspicious
  · rw [MinVal_eq_min]
    by_cases room : duration.toNat + 1 < 2 ^ 64 ∧ p.maxSuspiciousTime.toNat + 1 < 2 ^ 64
    · rw [toNat_nextSuspiciousDuration current target room.1 room.2]
      exact ⟨fun _ _ => room, fun _ => rfl⟩
    · have zero : (nextSuspiciousDuration current target duration p).toNat = 0 := by
        simp only [nextSuspiciousDuration, held, ne_eq, not_true_eq_false, if_false]
        by_cases full : duration.toNat + 1 < 2 ^ 64
        · have cap := add_one_eq_zero_of_full (fun limit => room ⟨full, limit⟩)
          have more := toNat_add_one full
          rw [cap, if_pos]
          · rfl
          · rw [gt_iff_lt, UInt64.lt_iff_toNat_lt, more]
            exact Nat.succ_pos _
        · rw [add_one_eq_zero_of_full full, if_neg]
          · rfl
          · rw [gt_iff_lt, UInt64.lt_iff_toNat_lt]
            exact Nat.not_lt_zero _
      rw [zero, if_pos held]
      constructor
      · intro same
        omega
      · intro opened
        exact absurd (opened held) room
  · simp [nextSuspiciousDuration, held]

private theorem nextFailedRecoveryAttempts_eq_iff (p : Params) (current target : FSMState)
    (attempts : UInt64) :
    (nextFailedRecoveryAttempts current target attempts p).toNat =
        (if current = .recovering ∧ target = .sovereign then
          if p.downHysteresisThreshold.toNat * 2 ^ attempts.toNat ≥
              p.maxDownHysteresisThreshold.toNat then attempts.toNat
          else attempts.toNat + 1
        else if current = .recovering ∧ target = .anchored then 0
        else attempts.toNat) ↔
      (current = .recovering → target = .sovereign →
        (effectiveDownHysteresisThreshold attempts p ≥ p.maxDownHysteresisThreshold ↔
          p.downHysteresisThreshold.toNat * 2 ^ attempts.toNat ≥
            p.maxDownHysteresisThreshold.toNat) ∧
        (effectiveDownHysteresisThreshold attempts p ≥ p.maxDownHysteresisThreshold ∨
          attempts.toNat + 1 < 2 ^ 64)) := by
  by_cases regresses : current = .recovering ∧ target = .sovereign
  · rw [nextFailedRecoveryAttempts, if_pos regresses, if_pos regresses]
    split_ifs with word number number
    · exact ⟨fun _ _ _ => ⟨⟨fun _ => number, fun _ => word⟩, .inl word⟩, fun _ => rfl⟩
    · constructor
      · intro same
        omega
      · intro agree
        exact absurd ((agree regresses.1 regresses.2).1.mp word) number
    · constructor
      · intro same
        exact absurd same (toNat_add_one_ne attempts)
      · intro agree
        exact absurd ((agree regresses.1 regresses.2).1.mpr number) word
    · rw [toNat_add_one_eq_iff]
      constructor
      · intro room _ _
        exact ⟨⟨fun reached => absurd reached word, fun reached => absurd reached number⟩,
          .inr room⟩
      · intro agree
        exact (agree regresses.1 regresses.2).2.resolve_left word
  · rw [nextFailedRecoveryAttempts, if_neg regresses, if_neg regresses]
    refine ⟨fun _ here there => absurd ⟨here, there⟩ regresses, fun _ => ?_⟩
    split <;> rfl

private theorem nextUnhealthyStreak_eq_iff (r : Readings) (current target : FSMState)
    (streak : UInt64) :
    (nextUnhealthyStreak current target streak r.healthy).toNat =
        (if (current = .anchored ∧ target = .anchored ∧ r.warning = true ∧
              r.critical = false) ∨
            (current = .recovering ∧ target = .recovering ∧ r.healthy = false ∧
              r.critical = false) then streak.toNat + 1
        else 0) ↔
      (current = target → current = .anchored ∨ current = .recovering → r.healthy = false →
        (r.critical = false ↔ streak.toNat + 1 < 2 ^ 64)) := by
  have law := r.lawful
  have absorbed : ((current = .anchored ∧ target = .anchored ∧ r.warning = true ∧
        r.critical = false) ∨
      (current = .recovering ∧ target = .recovering ∧ r.healthy = false ∧ r.critical = false)) ↔
      (current = target ∧ (current = .anchored ∨ current = .recovering) ∧
        r.healthy = false) ∧ r.critical = false := by
    constructor
    · rintro (⟨rfl, rfl, warning, calm⟩ | ⟨rfl, rfl, sick, calm⟩)
      · rw [law calm, Bool.not_eq_true'] at warning
        exact ⟨⟨rfl, .inl rfl, warning⟩, calm⟩
      · exact ⟨⟨rfl, .inr rfl, sick⟩, calm⟩
    · rintro ⟨⟨rfl, rfl | rfl, sick⟩, calm⟩
      · exact .inl ⟨rfl, rfl, by rw [law calm, sick]; rfl, calm⟩
      · exact .inr ⟨rfl, rfl, sick, calm⟩
  rw [if_congr absorbed rfl rfl, nextUnhealthyStreak]
  by_cases counts : current = target ∧ (current = .anchored ∨ current = .recovering) ∧
      r.healthy = false
  · rw [if_pos counts]
    obtain ⟨same, home, sick⟩ := counts
    by_cases calm : r.critical = false
    · rw [if_pos ⟨⟨same, home, sick⟩, calm⟩]
      constructor
      · intro grown _ _ _
        exact ⟨fun _ => (toNat_add_one_eq_iff streak).mp grown, fun _ => calm⟩
      · intro room
        exact toNat_add_one ((room same home sick).mp calm)
    · rw [if_neg (fun both => calm both.2)]
      constructor
      · intro zero _ _ _
        refine ⟨fun quiet => absurd quiet calm, fun room => ?_⟩
        rw [toNat_add_one room] at zero
        omega
      · intro room
        rw [add_one_eq_zero_of_full (fun fits => calm ((room same home sick).mpr fits))]
        rfl
  · rw [if_neg counts, if_neg (fun both => counts both.1)]
    exact ⟨fun _ same home sick => absurd ⟨same, home, sick⟩ counts, fun _ => rfl⟩

section Hook

variable (p : Params) (r : Readings) (st : Store) (ext : ExtendedProposal)

/-- The spec's view of a decoded proposal. -/
structure Corresponds (prop : Proposal) : Prop where
  fsmState : prop.fsmState = ext.fsmState
  anchored : prop.btcReceipt.checkpointBlockHeight = ext.btcReceipt.checkpointBlockHeight.toNat
  published : prop.daReceipt.publishedBlockHeight = ext.daReceipt.publishedBlockHeight.toNat
  zkProofRef : prop.zkProofRef = !ext.zkProofRef.isEmpty

/-- The blocks on which the two hooks write the same: a recovery closes with the SPV flag
clear, an unhealthy block that stays is not under a critical reading, and no word that is
incremented is full. (A full streak wraps to the zero that a critical reading asks for.) -/
structure WritesAsSpecified : Prop where
  spvFlag : st.currState = .recovering → ext.fsmState = .anchored →
    (st.metrics.getD {}).isBtcSpvFailed = false
  unhealthyStreak : st.currState = ext.fsmState →
    st.currState = .anchored ∨ st.currState = .recovering → ext.healthy = false →
    (r.critical = false ↔ st.unhealthyStreak.toNat + 1 < 2 ^ 64)
  safeBlocks : ext.fsmState = .recovering → st.currState = .recovering → ext.healthy = true →
    p.hysteresisWait ≠ 0 → st.safeBlocks.toNat + 1 < 2 ^ 64
  suspiciousSafeBlocks : ext.fsmState = .suspicious → st.currState = .suspicious →
    ext.healthy = true → p.suspiciousHysteresisWait ≠ 0 →
    st.suspiciousSafeBlocks.toNat + 1 < 2 ^ 64
  suspiciousDuration : ext.fsmState = .suspicious →
    st.suspiciousDuration.toNat + 1 < 2 ^ 64 ∧ p.maxSuspiciousTime.toNat + 1 < 2 ^ 64
  failedRecoveryAttempts : st.currState = .recovering → ext.fsmState = .sovereign →
    (effectiveDownHysteresisThreshold st.failedRecoveryAttempts p ≥
        p.maxDownHysteresisThreshold ↔
      p.downHysteresisThreshold.toNat * 2 ^ st.failedRecoveryAttempts.toNat ≥
        p.maxDownHysteresisThreshold.toNat) ∧
    (effectiveDownHysteresisThreshold st.failedRecoveryAttempts p ≥
        p.maxDownHysteresisThreshold ∨
      st.failedRecoveryAttempts.toNat + 1 < 2 ^ 64)

variable {p r st ext}

private theorem writesAsSpecified_of_small (small : p.Small)
    (counters : CountersSmall st.currentFSMInput)
    (calm : st.currState = ext.fsmState → r.critical = false)
    (flag : st.currState = .recovering → ext.fsmState = .anchored →
      (st.metrics.getD {}).isBtcSpvFailed = false) : WritesAsSpecified p r st ext := by
  obtain ⟨safe, duration, suspiciousSafe, streak, attempts⟩ := counters
  have safeRoom : st.safeBlocks.toNat < 2 ^ 62 := safe
  have durationRoom : st.suspiciousDuration.toNat < 2 ^ 62 := duration
  have suspiciousSafeRoom : st.suspiciousSafeBlocks.toNat < 2 ^ 62 := suspiciousSafe
  have streakRoom : st.unhealthyStreak.toNat < 2 ^ 62 := streak
  have attemptsRoom : st.failedRecoveryAttempts.toNat < 2 ^ 62 := attempts
  have ceiling : p.maxDownHysteresisThreshold.toNat < 2 ^ 62 := small _ (by simp [Params.fields])
  have limit : p.maxSuspiciousTime.toNat < 2 ^ 62 := small _ (by simp [Params.fields])
  refine ⟨flag, fun stays _ _ => ⟨fun _ => by omega, fun _ => calm stays⟩,
    fun _ _ _ _ => by omega, fun _ _ _ _ => by omega, fun _ => ⟨by omega, by omega⟩,
    fun _ _ => ⟨?_, .inr (by omega)⟩⟩
  have effective := toNat_effectiveDownHysteresisThreshold (p := p) (by omega)
    st.failedRecoveryAttempts
  rw [ge_iff_le, UInt64.le_iff_toNat_le, effective]
  omega

variable (p st ext)

private theorem claimsProof_iff : claimsProof ext = true ↔
    ext.fsmState = .recovering ∧ (!ext.zkProofRef.isEmpty) = true := by
  simp [claimsProof]

theorem reanchors_iff : reanchors st ext = true ↔
    st.currState = .recovering ∧ ext.fsmState = .anchored := by
  simp [reanchors]

private theorem storeItems_commit_flags (height : UInt64) (appHash : Bytes) :
    let written := storeItems (commitFSMTransition p height appHash st ext)
    let closes := st.currState = .recovering ∧ ext.fsmState = .anchored
    (written.isDasFailed = if closes then false else (st.metrics.getD {}).isDasFailed) ∧
      (written.isAttestationFailed =
        if closes then false else (st.metrics.getD {}).isAttestationFailed) ∧
      written.isBtcSpvFailed = (st.metrics.getD {}).isBtcSpvFailed := by
  intro written closes
  have reset : (commitFSMTransition p height appHash st ext).metrics.getD {} =
      if closes then
        { st.metrics.getD {} with isDasFailed := false, isAttestationFailed := false }
      else st.metrics.getD {} := by
    change (if reanchors st ext then some _ else st.metrics).getD {} = _
    rw [if_congr (reanchors_iff st ext) rfl rfl]
    split <;> rfl
  simp only [written, storeItems, reset]
  by_cases closed : closes
  · simp only [closed, if_true, and_self]
  · simp only [closed, if_false, and_self]

variable {p st ext}

/-- The commit hook writes what steps 3 to 5 assign, exactly on those blocks. -/
theorem commitFSMTransition_writes_iff (height : UInt64) (appHash : Bytes) {prop : Proposal}
    (corresponds : Corresponds ext prop) (agreed : r.healthy = ext.healthy) :
    storeItems (commitFSMTransition p height appHash st ext) =
        hookWrites (constantsOf p) r (storeItems st) prop ↔
      WritesAsSpecified p r st ext := by
  obtain ⟨target, checkpoint, published, reference⟩ := corresponds
  have duration := nextSuspiciousDuration_eq_iff p st.currState ext.fsmState
    st.suspiciousDuration
  have streak := nextUnhealthyStreak_eq_iff r st.currState ext.fsmState st.unhealthyStreak
  rw [agreed] at streak
  have attempts := nextFailedRecoveryAttempts_eq_iff p st.currState ext.fsmState
    st.failedRecoveryAttempts
  have safe := nextLeaky_eq_iff .recovering st.currState ext.fsmState st.safeBlocks
    p.hysteresisWait ext.healthy
  have suspiciousSafe := nextLeaky_eq_iff .suspicious st.currState ext.fsmState
    st.suspiciousSafeBlocks p.suspiciousHysteresisWait ext.healthy
  obtain ⟨dasReset, attestationReset, spvKept⟩ := storeItems_commit_flags p st ext height appHash
  simp only [hookWrites, target, checkpoint, published, reference, agreed]
  constructor
  · intro same
    refine ⟨?_, streak.mp ?_, safe.mp ?_, suspiciousSafe.mp ?_, duration.mp ?_,
      attempts.mp ?_⟩
    · intro recovering anchors
      have flag := congrArg HookItems.isBtcSpvFailed same
      exact spvKept.symm.trans (flag.trans (if_pos ⟨recovering, anchors⟩))
    · exact congrArg HookItems.unhealthyStreak same
    · exact congrArg HookItems.safeBlocks same
    · exact congrArg HookItems.suspiciousSafeBlocks same
    · exact congrArg HookItems.suspiciousDuration same
    · exact congrArg HookItems.failedRecoveryAttempts same
  · rintro ⟨flag, counted, kept, suspiciousKept, lasted, regressed⟩
    refine HookItems.ext rfl (duration.mpr lasted) (streak.mpr counted) (attempts.mpr regressed)
      (safe.mpr kept) (suspiciousSafe.mpr suspiciousKept) rfl rfl ?_ ?_ ?_ ?_ dasReset
      attestationReset (spvKept.trans ?_)
    · simp only [storeItems, commitFSMTransition, claimsProof_iff, apply_ite UInt64.toNat]
    · simp only [storeItems, commitFSMTransition, claimsProof_iff]
    · simp only [storeItems, commitFSMTransition, reanchors_iff, apply_ite UInt64.toNat]
      rfl
    · simp only [storeItems, commitFSMTransition, reanchors_iff, apply_ite UInt64.toNat]
      rfl
    · by_cases closed : st.currState = .recovering ∧ ext.fsmState = .anchored
      · exact (flag closed.1 closed.2).trans (if_pos closed).symm
      · exact (if_neg closed).symm

end Hook

section Closing

def closingStore (spvFailed : Bool) : Store where
  fsmState := some .recovering
  safeBlocks := 2
  reanchoringProofValid := true
  metrics := some { isBtcSpvFailed := spvFailed, isDasFailed := true }
  hBtcCurrent := 110
  hEngramCurrent := 60

def closingExt : ExtendedProposal where
  fsmState := .anchored
  healthy := true
  daReceipt := ⟨58, true⟩
  btcReceipt := ⟨104, Anchor.expectedBlockHash 104⟩
  zkProofRef := []

def closingProposal : Proposal where
  value := .txNormal
  timestamp := 0
  round := 0
  fsmState := .anchored
  daReceipt := ⟨58, true⟩
  btcReceipt := ⟨104, ExpectedBlockHash 104⟩
  zkProofRef := false
  healthy := true

def healthyReadings : Readings := ⟨true, false, false, fun _ => rfl⟩

private theorem closingCorresponds : Corresponds closingExt closingProposal := ⟨rfl, rfl, rfl, rfl⟩

/-- With the flag clear the closing block is written as specified. -/
theorem commitFSMTransition_writes_closing :
    storeItems (commitFSMTransition defaultParams 7 [] (closingStore false) closingExt) =
      hookWrites (constantsOf defaultParams) healthyReadings (storeItems (closingStore false))
        closingProposal := by
  have counters : CountersSmall (closingStore false).currentFSMInput :=
    ⟨by decide, by decide, by decide, by decide, by decide⟩
  exact (commitFSMTransition_writes_iff 7 [] closingCorresponds rfl).mpr
    (writesAsSpecified_of_small (by decide) counters (fun _ => rfl) (fun _ _ => rfl))

/-- With the flag set, the closing block keeps what the specification clears. -/
theorem commitFSMTransition_keeps_spvFlag :
    Corresponds closingExt closingProposal ∧ healthyReadings.healthy = closingExt.healthy ∧
      (storeItems (commitFSMTransition defaultParams 7 [] (closingStore true)
        closingExt)).isBtcSpvFailed = true ∧
      (hookWrites (constantsOf defaultParams) healthyReadings (storeItems (closingStore true))
        closingProposal).isBtcSpvFailed = false ∧
      storeItems (commitFSMTransition defaultParams 7 [] (closingStore true) closingExt) ≠
        hookWrites (constantsOf defaultParams) healthyReadings (storeItems (closingStore true))
          closingProposal := by
  have kept : (storeItems (commitFSMTransition defaultParams 7 [] (closingStore true)
      closingExt)).isBtcSpvFailed = true := rfl
  have cleared : (hookWrites (constantsOf defaultParams) healthyReadings
      (storeItems (closingStore true)) closingProposal).isBtcSpvFailed = false := rfl
  refine ⟨closingCorresponds, rfl, kept, cleared, fun same => ?_⟩
  rw [same, cleared] at kept
  cases kept

end Closing

end Engram.Spec.Server
