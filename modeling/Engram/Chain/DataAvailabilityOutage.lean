import Engram.Chain.HeaderHistory
import Engram.Chain.LeaderAgreement
import Engram.Chain.ProofFreshness
import Engram.Chain.ProposalText

/-!
A DA outage while everything else is healthy. The receipt of the last verified
height stays acceptable for a few blocks beyond the DA threshold; the FSM absorbs
the unhealthy readings for as many blocks as its grace allows. Whether the chain
keeps moving is a race between the two, and a recovery that has waited long enough
stops at the re-anchoring gate.
-/

set_option autoImplicit false
set_option relaxedAutoImplicit false

namespace Engram.Chain

open Engram.Types Engram.Keeper Engram.Node Engram.Library Engram.Fsm Engram.Library.Word64

/-- The readings all nodes share after `c`: the DA source and the publisher stop at `v`,
with whatever they report about failures, and everything else is healthy. -/
structure OutageReadings (p : Params) (v : UInt64) (c : Chain) (s : Sensors) : Prop where
  stopped : ∃ publisher, s.da.source = some publisher ∧ s.daPublisher = some publisher ∧
    publisher.verifiedHeight = some v
  btc : isBTCHealthy (reading p c (some s)).metrics p = true
  p2p : isP2PQualityHealthy (reading p c (some s)).metrics p = true
  anchors : (reading p c (some s)).metrics.activeAnchors ≠ 0
  tip : ∃ tip, s.btc.observedHeight = some tip ∧ c.store.hBtcAnchored ≤ tip ∧ tip.toNat < 2 ^ 63
  confirmed : anchorConfirmed (some s) (leaderCheckpoint p (some s) c.nextHeight c.store)
    c.store.hBtcAnchored = true

section Scenario

variable (external : External) (p : Params) (now : Chain) (v : UInt64) (s : ℕ → Sensors)
  (mempool : ℕ → List Bytes)

/-- The chain `n` blocks after `now`: whoever proposed them, their validators read the
shared sensors, and the committed DA height stays `v`. -/
inductive Outage : ℕ → Chain → Prop
  | start : Outage 0 now
  | block {n : ℕ} {c c' : Chain} {b : Block} (before : Outage n c) (shared : b.sensors = some (s n))
      (decided : decideBlock external p c b = some c') (kept : c'.store.hEngramVerified = v) :
      Outage (n + 1) c'

/-- The two states whose blocks must pass the DA check whatever the sensor says. -/
def Trusting (state : FSMState) : Prop := state = .anchored ∨ state = .recovering

/-- The number of unhealthy blocks in a row that the FSM leaves its state on. -/
def grace (c : Core) : UInt64 :=
  if c.state = .anchored then p.downHysteresisThreshold
  else effectiveDownHysteresisThreshold c.failedRecoveryAttempts p

end Scenario

/-! What a reachable state promises about the outage that starts in it. -/

section Reachable

variable {external : External} {p : Params} {past : List (Move Chain Block)} {now : Chain}

theorem engram_heights_of_run (run : ChainRun external p past now) :
    now.store.hEngramCurrent.toNat ≤ now.height ∧
      (Trusting now.state → now.store.hEngramVerified.toNat ≤ now.height) := by
  induction run with
  | initial => exact ⟨le_rfl, fun _ => le_rfl⟩
  | @extend past c c' b before decided ih =>
      have height := decideBlock_height decided
      have next := decided_nextHeight decided
      have current : (currentEngramHeight p ⟨c, b, c'⟩).toNat ≤ c'.height := by
        have old := ih.1
        unfold currentEngramHeight
        cases b.sensors with
        | none =>
            change c.store.hEngramCurrent.toNat ≤ _
            omega
        | some s =>
            change (if s.da.source.isSome then c.nextHeight else c.store.hEngramCurrent).toNat ≤ _
            split <;> omega
      have verified : Trusting c'.state → c'.store.hEngramVerified.toNat ≤ c'.height := by
        intro trusting
        have checked : AvailabilityChecked p ⟨c, b, c'⟩ := or_assoc.mp (.inl trusting)
        exact (UInt64.le_iff_toNat_le.mp (window_of_checked decided checked).2).trans current
      refine ⟨?_, verified⟩
      obtain ⟨ext, _, carries, committed⟩ := decideBlock_committed decided
      have published := committed.hEngramVerified
      rw [committed.hEngramCurrent]
      split
      · rename_i closing
        have anchored : c'.state = .anchored := by
          rw [Chain.state, committed.currState]
          simp only [reanchors, Bool.and_eq_true, beq_iff_eq] at closing
          exact closing.2
        rw [← published]
        exact verified (.inl anchored)
      · have old := ih.1
        omega

/-- Outside SUSPICIOUS the duration counter is zero, and the streak counts blocks. -/
structure OutageInvariant (c : Core) (blocks : ℕ) : Prop where
  duration : c.state ≠ .suspicious → c.suspiciousDuration = 0
  streak : c.unhealthyStreak.toNat ≤ blocks

theorem OutageInvariant.advance {c : Core} {blocks : ℕ} (inv : OutageInvariant c blocks)
    (p : Params) (r : Reading) : OutageInvariant (c.advance p r) (blocks + 1) := by
  refine ⟨?_, ?_⟩
  · intro left
    exact if_pos left
  · change (nextUnhealthyStreak _ _ _ _).toNat ≤ _
    have more := toNat_add_one_le c.unhealthyStreak
    have bound := inv.streak
    unfold nextUnhealthyStreak
    split
    · omega
    · exact Nat.zero_le _

private theorem outageInvariant_of_run (run : ChainRun external p past now) :
    OutageInvariant (core now.store) now.height := by
  induction run with
  | initial => exact ⟨fun _ => rfl, le_rfl⟩
  | extend _ decided ih =>
      rw [(decideBlock_advance decided).1, decideBlock_height decided]
      exact ih.advance p _

private theorem streak_room (run : ChainRun external p past now)
    (below : now.height + 1 < 2 ^ 63) :
    (now.store.unhealthyStreak + 1).toNat = now.store.unhealthyStreak.toNat + 1 := by
  have bound : now.store.unhealthyStreak.toNat ≤ now.height := (outageInvariant_of_run run).streak
  exact toNat_add_one (by omega)

end Reachable

/-! One unhealthy block. -/

section UnhealthyBlock

variable {p : Params} {c : Core} {r : Reading}

private theorem absorbed_of_trusting (sick : isHealthyCondition r.metrics p = false)
    (trusting : Trusting (c.target p r)) :
    c.target p r = c.state ∧ ¬ c.unhealthyStreak + 1 ≥ grace p c ∧
      isCriticalCondition r.metrics p c.suspiciousDuration = false := by
  have guards := c.target_cases p r
  unfold grace
  rcases trusting with state | state <;> grind

end UnhealthyBlock

/-! The whole outage. -/

section Outage

variable {external : External} {p : Params} {past : List (Move Chain Block)} {now c : Chain}
  {v : UInt64} {s : ℕ → Sensors} {mempool : ℕ → List Bytes} {n : ℕ}

private theorem Outage.chainRun (run : ChainRun external p past now)
    (path : Outage external p now v s n c) : ∃ past, ChainRun external p past c := by
  induction path with
  | start => exact ⟨past, run⟩
  | block _ _ decided _ ih =>
      obtain ⟨older, before⟩ := ih
      exact ⟨_, before.extend decided⟩

theorem Outage.verified (start : now.store.hEngramVerified = v)
    (path : Outage external p now v s n c) : c.store.hEngramVerified = v := by
  cases path with
  | start => exact start
  | block _ _ _ kept => exact kept

private theorem outage_advance {c' : Chain} {b : Block} (shared : b.sensors = some (s n))
    (decided : decideBlock external p c b = some c') :
    core c'.store = (core c.store).advance p (reading p c (some (s n))) := by
  rw [← shared]
  exact (decideBlock_advance decided).1

theorem OutageReadings.sick (readings : OutageReadings p v c (s n)) (known : v.toNat ≤ c.height)
    (below : c.height + 1 < 2 ^ 63) (reached : v.toNat + p.daThreshold.toNat ≤ c.height + 1) :
    isHealthyCondition (reading p c (some (s n))).metrics p = false := by
  obtain ⟨publisher, source, _, verified⟩ := readings.stopped
  have height : c.nextHeight.toNat = c.height + 1 := Nat.mod_eq_of_lt (by omega)
  have ahead : ¬ c.nextHeight ≤ v := by
    rw [UInt64.le_iff_toNat_le]
    omega
  have gap : (reading p c (some (s n))).metrics.daGap = c.nextHeight - v := by
    simp [reading, refreshMetrics, Store.currentFSMInput, Sensors.snapshot, daGapMetric, source,
      verified, ahead]
  have large : ¬ (reading p c (some (s n))).metrics.daGap < p.daThreshold := by
    rw [gap, UInt64.lt_iff_toNat_lt,
      UInt64.toNat_sub_of_le _ _ (UInt64.le_iff_toNat_le.mpr (by omega))]
    omega
  simp [isHealthyCondition, isDAHealthy, large]

theorem OutageReadings.calm (readings : OutageReadings p v c (s n))
    (patient : p.maxSuspiciousTime ≠ 0) {duration : UInt64} (zero : duration = 0) :
    isCriticalCondition (reading p c (some (s n))).metrics p duration = false := by
  have btc := readings.btc
  simp only [isBTCHealthy, Bool.and_eq_true, Bool.not_eq_true'] at btc
  have short : ¬ p.maxSuspiciousTime ≤ 0 := by
    rw [UInt64.le_iff_toNat_le]
    intro none
    exact patient (UInt64.toNat_inj.mp (Nat.le_zero.mp none))
  simp [isCriticalCondition, btc.1.2, btc.2, readings.anchors, zero, short]

end Outage

section StoppedPublisher

open ProposalText

def withGrace (d : UInt64) : Params := { defaultParams with downHysteresisThreshold := d }

def availableExternal : External := canonicalExternal (fun _ _ => false) none

def stoppedSensors (_ : ℕ) : Sensors := liveSensors 4 1

structure StoppedInvariant (n : ℕ) (c : Chain) : Prop where
  height : c.height = n + 1
  anchored : c.store.hBtcAnchored ≤ 2
  left : c.state ≠ .recovering
  early : n ≤ 29 → c.state = .anchored ∧ c.store.unhealthyStreak = 0

section Readings

variable {d : UInt64} {n : ℕ} {c c' : Chain}

private theorem stopped_btc (anchored : c.store.hBtcAnchored ≤ 2) :
    isBTCHealthy (reading (withGrace d) c (some (stoppedSensors n))).metrics (withGrace d) =
      true := by
  have few : c.store.hBtcAnchored = 0 ∨ c.store.hBtcAnchored = 1 ∨ c.store.hBtcAnchored = 2 := by
    simp only [← UInt64.toNat_inj]
    have low : c.store.hBtcAnchored.toNat ≤ 2 := UInt64.le_iff_toNat_le.mp anchored
    change _ = 0 ∨ _ = 1 ∨ _ = 2
    omega
  rcases few with height | height | height <;>
    simp [isBTCHealthy, isBTCGapSuspicious, isBTCGapSovereign, reading, refreshMetrics,
      Store.currentFSMInput, Sensors.snapshot, btcGapMetric, spvFailed,
      AnchorTracker.verifyAnchor, BTCSensor.observedHeight, stoppedSensors, liveSensors,
      withGrace, defaultParams, height]

private theorem stopped_readings (anchored : c.store.hBtcAnchored ≤ 2) :
    OutageReadings (withGrace d) 1 c (stoppedSensors n) where
  stopped := ⟨_, rfl, rfl, rfl⟩
  btc := stopped_btc anchored
  p2p := by
    change isP2PQualityHealthy
      { subnetDiversity := 2, activeAnchors := 2, cleanPeers := 3, avgPeerTenure := 300 }
      defaultParams = true
    decide
  anchors := by
    change (2 : UInt64) ≠ 0
    decide
  tip := ⟨4, rfl, le_trans anchored (by decide), by decide⟩
  confirmed := by
    have kept : leaderCheckpoint (withGrace d) (some (stoppedSensors n)) c.nextHeight c.store =
        c.store.hBtcAnchored := by
      simp [leaderCheckpoint, stoppedSensors, liveSensors]
    rw [kept]
    simp [anchorConfirmed, stoppedSensors, liveSensors]

private theorem stopped_healthy (anchored : c.store.hBtcAnchored ≤ 2) (height : c.height ≤ 29) :
    isHealthyCondition (reading (withGrace d) c (some (stoppedSensors n))).metrics
      (withGrace d) = true := by
  have readings : OutageReadings (withGrace d) 1 c (stoppedSensors n) := stopped_readings anchored
  have available : isDAHealthy (reading (withGrace d) c (some (stoppedSensors n))).metrics
      (withGrace d) = true := by
    have next : c.nextHeight.toNat = c.height + 1 := Nat.mod_eq_of_lt (by omega)
    have gap : (if c.nextHeight ≤ 1 then 0 else c.nextHeight - 1) < 30 := by
      split
      · decide
      · rename_i above
        rw [UInt64.lt_iff_toNat_lt, UInt64.toNat_sub_of_le _ _ (le_of_lt (not_le.mp above)), next]
        change c.height + 1 - 1 < 30
        omega
    simp [isDAHealthy, reading, refreshMetrics, Store.currentFSMInput, Sensors.snapshot,
      daGapMetric, stoppedSensors, liveSensors, withGrace, defaultParams, gap]
  have btc := readings.btc
  simp only [isBTCHealthy, Bool.and_eq_true] at btc
  simp only [isHealthyCondition, btc, available, readings.p2p, Bool.and_self]

private theorem stopped_checkpoint {b : Block} (shared : b.sensors = some (stoppedSensors n))
    (decided : decideBlock availableExternal (withGrace d) c b = some c')
    (anchored : c.store.hBtcAnchored ≤ 2) : c'.store.hBtcAnchored ≤ 2 := by
  obtain ⟨ext, innerTxs, carries, committed⟩ := decideBlock_committed decided
  obtain ⟨_, _, _, _, _, confirmed, _⟩ := (processExtended_iff _ _ _ _ _ _ _).mp carries.accepted
  rw [committed.hBtcAnchored]
  by_contra high
  have advanced : ext.btcReceipt.checkpointBlockHeight > c.store.hBtcAnchored :=
    lt_of_le_of_lt anchored (not_le.mp high)
  rw [refreshMetrics_hBtcAnchored, shared] at confirmed
  simp only [anchorConfirmed, stoppedSensors, liveSensors, Option.bind_some, if_pos advanced,
    AnchorTracker.verifyAnchor] at confirmed
  have deep : ext.btcReceipt.checkpointBlockHeight.toNat > 2 :=
    UInt64.lt_iff_toNat_lt.mp (not_le.mp high)
  split at confirmed
  · simp at confirmed
  · rename_i close
    simp only [Bool.or_eq_true, decide_eq_true_eq, not_or, not_lt] at close
    obtain ⟨below, depth⟩ := close
    rw [UInt64.le_iff_toNat_le, UInt64.toNat_sub_of_le _ _ below] at depth
    change 2 ≤ 4 - _ at depth
    omega

end Readings

section Defaults

variable {d : UInt64} {past : List (Move Chain Block)} {n : ℕ} {c c' : Chain}

theorem StoppedInvariant.healthy (inv : StoppedInvariant n c)
    (run : ChainRun availableExternal (withGrace d) past c) (early : n ≤ 28) :
    (core c.store).target (withGrace d) (reading (withGrace d) c (some (stoppedSensors n))) =
        .anchored ∧
      ((core c.store).advance (withGrace d)
        (reading (withGrace d) c (some (stoppedSensors n)))).unhealthyStreak = 0 := by
  obtain ⟨state, streak⟩ := inv.early (by omega)
  have healthy : isHealthyCondition (reading (withGrace d) c (some (stoppedSensors n))).metrics
      (withGrace d) = true :=
    stopped_healthy inv.anchored (by rw [inv.height]; omega)
  have held : (core c.store).state = .anchored := state
  have calm := (stopped_readings (d := d) (n := n) inv.anchored).calm
    (show (24 : UInt64) ≠ 0 by decide) ((outageInvariant_of_run run).duration (by simp [held]))
  have target : (core c.store).target (withGrace d)
      (reading (withGrace d) c (some (stoppedSensors n))) = .anchored := by
    have guards := (core c.store).target_cases (withGrace d)
      (reading (withGrace d) c (some (stoppedSensors n)))
    grind
  refine ⟨target, ?_⟩
  change nextUnhealthyStreak _ _ _ _ = _
  rw [nextUnhealthyStreak, if_neg]
  rintro ⟨_, _, sick⟩
  simp [healthy] at sick

theorem StoppedInvariant.quiet (inv : StoppedInvariant n c)
    (run : ChainRun availableExternal (withGrace d) past c) (below : c.height + 1 < 2 ^ 63) :
    (core c.store).target (withGrace d) (reading (withGrace d) c (some (stoppedSensors n))) ≠
      .recovering := by
  intro target
  by_cases early : n ≤ 28
  · have stays := (inv.healthy run early).1
    rw [target] at stays
    cases stays
  · have sick := (stopped_readings (d := d) (n := n) inv.anchored).sick
      (by rw [inv.height]; exact Nat.succ_le_succ (Nat.zero_le n)) below
      (by rw [inv.height]; change 1 + 30 ≤ _; omega)
    obtain ⟨stays, _⟩ := absorbed_of_trusting sick (.inr target)
    exact inv.left (stays.symm.trans target)

theorem StoppedInvariant.block {b : Block} (inv : StoppedInvariant n c)
    (run : ChainRun availableExternal (withGrace d) past c)
    (shared : b.sensors = some (stoppedSensors n))
    (decided : decideBlock availableExternal (withGrace d) c b = some c') :
    StoppedInvariant (n + 1) c' := by
  have moved := outage_advance shared decided
  have below : c.height + 1 < 2 ^ 63 := by
    obtain ⟨_, _, carries, _⟩ := decideBlock_committed decided
    exact carries.below
  refine ⟨by rw [decideBlock_height decided, inv.height], stopped_checkpoint shared decided
    inv.anchored, ?_, ?_⟩
  · change (core c'.store).state ≠ _
    rw [moved]
    exact inv.quiet run below
  · intro early
    obtain ⟨target, streak⟩ := inv.healthy run (by omega : n ≤ 28)
    change (core c'.store).state = _ ∧ (core c'.store).unhealthyStreak = _
    rw [moved]
    exact ⟨target, streak⟩

theorem StoppedInvariant.outage {now : Chain} (start : StoppedInvariant 0 now)
    (run : ChainRun availableExternal (withGrace d) past now)
    (path : Outage availableExternal (withGrace d) now 1 stoppedSensors n c) :
    StoppedInvariant n c := by
  induction path with
  | start => exact start
  | block before shared decided _ ih =>
      obtain ⟨older, chain⟩ := before.chainRun run
      exact ih.block chain shared decided

end Defaults

end StoppedPublisher

end Engram.Chain
