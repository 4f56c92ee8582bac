import Engram.Chain.Step

/-!
Leader and validator on the same healthy readings. The block an honest leader
builds is accepted from some round on, unless the re-anchoring gate is open and
no DA height beyond the agreed one has been verified.
-/

set_option autoImplicit false
set_option relaxedAutoImplicit false

namespace Engram.Chain

open Engram.Types Engram.Keeper Engram.Node Engram.Library Engram.Fsm Engram.Library.Word64

section Root

def RootSet (st : Store) : Prop := ∃ root, st.lastAnchoredRoot = some root ∧ root ≠ []

theorem RootSet.deliver {external : External} {st : Store} (held : RootSet st) (msg : Msg) :
    RootSet (deliver external st msg) := by
  obtain same | ⟨_, _, same⟩ | ⟨_, _, same⟩ | ⟨_, _, _, accepted, same⟩ :=
    deliver_cases external st msg
  · rwa [same]
  · rwa [same]
  · rwa [same]
  · obtain ⟨_, length, _, _, _, _, rfl⟩ := submitRecoveryProof_cases accepted
    rw [same]
    refine ⟨_, rfl, fun empty => ?_⟩
    have counted := congrArg List.length empty
    simp [length] at counted

theorem RootSet.deliverAll {external : External} {st : Store} (held : RootSet st)
    (msgs : List Msg) : RootSet (deliverAll external st msgs) := by
  induction msgs generalizing st with
  | nil => exact held
  | cons msg msgs ih => exact ih (held.deliver msg)

private theorem rootSet_of_locked {external : External} {p : Params}
    {past : List (Move Chain Block)} {now : Chain} (run : ChainRun external p past now) :
    withdrawLocked now.state = true → RootSet now.store := by
  refine run.invariant (I := fun c => withdrawLocked c.state = true → RootSet c.store)
    (fun locked => by cases locked) ?_
  intro c b c' held decided locked
  obtain ⟨ext, innerTxs, st, carries, kept, _, moved⟩ := decideBlock_cases decided
  have state : c'.state = ext.fsmState := (decided_committed decided carries).currState
  rw [state] at locked
  have committed : RootSet (commitFSMTransition p c.nextHeight b.appHash st ext) := by
    cases before : withdrawLocked st.currState with
    | true =>
        obtain ⟨root, set, nonempty⟩ := held (by rw [← before, kept.currState]; rfl)
        refine ⟨root, ?_, nonempty⟩
        simp only [commitFSMTransition, before, Bool.not_true, Bool.and_false, Bool.false_eq_true,
          if_false]
        rw [kept.recovery.2.1, set]
    | false =>
        refine ⟨reduceToField b.appHash, ?_, fun empty => ?_⟩
        · simp [commitFSMTransition, before, locked]
        · have counted := congrArg List.length empty
          simp [length_reduceToField] at counted
  rw [moved]
  exact committed.deliverAll b.msgs

end Root

/-- Live sources shared by leader and validator, under which the network is
healthy and the leader has something to publish. -/
structure SharedReadings (p : Params) (c : Chain) (s : Sensors) : Prop where
  btcWired : s.btc.source.isSome = true
  anchorWired : ∃ tracker, s.anchor = some tracker ∧
    tracker.verifyAnchor (leaderCheckpoint p (some s) c.nextHeight c.store) = some true
  daWired : ∃ publisher, s.da.source = some publisher ∧ s.daPublisher = some publisher
  healthy : isHealthyCondition (reading p c (some s)).metrics p = true
  tip : ∀ tip, s.btc.observedHeight = some tip → c.store.hBtcAnchored ≤ tip
  daPublished : 1 ≤ leaderDAHeight (some s) c.store
  daBelow : leaderDAHeight (some s) c.store ≤ c.nextHeight

/-- Where the re-anchoring gate is open, the leader publishes a DA height above
the agreed one. -/
def GatePassable (p : Params) (c : Chain) (s : Sensors) : Prop :=
  (leaderProposal p (some s) c.nextHeight c.store).fsmState = .recovering →
    c.store.safeBlocks = p.hysteresisWait →
    c.store.hEngramVerified < leaderDAHeight (some s) c.store

section Checks

variable {p : Params} {c : Chain} {s : Sensors}

private theorem observed_of_healthy (shared : SharedReadings p c s) :
    ∃ tip, s.btc.observedHeight = some tip ∧
      (refreshMetrics p c.nextHeight c.store (some s)).hBtcCurrent = tip := by
  obtain ⟨src, wired⟩ := Option.isSome_iff_exists.mp shared.btcWired
  cases observed : s.btc.observedHeight with
  | some tip => exact ⟨tip, rfl, by simp [refreshMetrics, observed]⟩
  | none =>
      -- an outage reports the sovereign threshold, which is not healthy
      exfalso
      have healthy := shared.healthy
      have gap : (reading p c (some s)).metrics.btcGap = p.sovereignThreshold := by
        simp [reading, refreshMetrics, Store.currentFSMInput, Sensors.snapshot, btcGapMetric,
          wired, observed]
      simp [isHealthyCondition, isBTCGapSovereign, gap] at healthy

private theorem le_leaderDAHeight (s : Sensors) (st : Store) :
    st.hEngramVerified ≤ leaderDAHeight (some s) st ∧
      (s.daPublisher.bind DAAvailabilitySource.verifiedHeight).getD 0 ≤
        leaderDAHeight (some s) st := by
  unfold leaderDAHeight
  simp only [Option.bind_some]
  cases s.daPublisher.bind DAAvailabilitySource.verifiedHeight with
  | none => exact ⟨le_refl _, by simp [UInt64.le_iff_toNat_le]⟩
  | some verified =>
      simp only [Option.getD_some]
      split
      · rename_i above
        exact ⟨le_of_lt above, le_refl _⟩
      · rename_i below
        exact ⟨le_refl _, not_lt.mp below⟩

theorem leaderCheckpoint_between {tip : UInt64} (observed : s.btc.observedHeight = some tip)
    (above : c.store.hBtcAnchored ≤ tip) :
    c.store.hBtcAnchored ≤ leaderCheckpoint p (some s) c.nextHeight c.store ∧
      leaderCheckpoint p (some s) c.nextHeight c.store ≤ tip := by
  have current : (refreshMetrics p c.nextHeight c.store (some s)).hBtcCurrent = tip := by
    simp [refreshMetrics, observed]
  unfold leaderCheckpoint
  simp only [refreshMetrics_hBtcAnchored, current]
  split
  · split
    · rename_i confirmed _ advanced
      simp only [Bool.and_eq_true, decide_eq_true_eq] at advanced
      exact ⟨le_of_lt advanced.1, advanced.2⟩
    · exact ⟨le_refl _, above⟩
  · exact ⟨le_refl _, above⟩

private theorem leaderCheckpoint_bounds (shared : SharedReadings p c s) :
    c.store.hBtcAnchored ≤ leaderCheckpoint p (some s) c.nextHeight c.store ∧
      leaderCheckpoint p (some s) c.nextHeight c.store ≤
        (refreshMetrics p c.nextHeight c.store (some s)).hBtcCurrent := by
  obtain ⟨tip, observed, current⟩ := observed_of_healthy shared
  rw [current]
  exact leaderCheckpoint_between observed (shared.tip tip observed)

private theorem leader_da_fresh (shared : SharedReadings p c s)
    (threshold : p.daThreshold.toNat + 4 ≤ 2 ^ 63) (height : c.nextHeight.toNat < 2 ^ 63)
    (round : UInt64) :
    clampSigned (c.nextHeight.toInt64 - p.daThreshold.toInt64 - (DA.tolerance round).toInt64) ≤
      leaderDAHeight (some s) c.store := by
  obtain ⟨publisher, source, wired⟩ := shared.daWired
  have tolerance := DA.toNat_tolerance_le round
  have window := toNat_clampSigned_sub_sub (a := c.nextHeight) (b := p.daThreshold)
    (c := DA.tolerance round) height (by omega)
  have verified := (le_leaderDAHeight s c.store).2
  rw [wired, Option.bind_some, UInt64.le_iff_toNat_le] at verified
  have available := (btc_and_da_of_healthy _ _ shared.healthy).2
  have gap : (reading p c (some s)).metrics.daGap =
      if c.nextHeight ≤ publisher.verifiedHeight.getD 0 then 0
      else c.nextHeight - publisher.verifiedHeight.getD 0 := by
    simp [reading, refreshMetrics, Store.currentFSMInput, Sensors.snapshot, daGapMetric, source]
  simp only [isDAHealthy, Bool.and_eq_true, decide_eq_true_eq, gap] at available
  have close := available.1.1
  rw [UInt64.le_iff_toNat_le, window]
  rw [UInt64.lt_iff_toNat_lt] at close
  split at close
  · rename_i caught
    rw [UInt64.le_iff_toNat_le] at caught
    omega
  · rename_i behind
    rw [not_le] at behind
    rw [UInt64.toNat_sub_of_le _ _ (le_of_lt behind)] at close
    omega

theorem checkpoint_fresh {tip round kDeepFinality anchored checkpoint : UInt64}
    (above : anchored ≤ checkpoint) (height : tip.toNat < 2 ^ 63)
    (signed : kDeepFinality.toNat + 2 + round.toNat ≤ 2 ^ 63)
    (late : tip.toNat - anchored.toNat ≤ kDeepFinality.toNat + 2 + round.toNat) :
    clampSigned (tip.toInt64 - (Anchor.tolerance round kDeepFinality).toInt64) ≤ checkpoint := by
  have tolerance := Anchor.toNat_tolerance round kDeepFinality (by omega)
  have window := toNat_clampSigned_sub (a := tip) (b := Anchor.tolerance round kDeepFinality)
    height (by omega)
  rw [UInt64.le_iff_toNat_le] at above
  rw [UInt64.le_iff_toNat_le, window, tolerance]
  omega

private theorem leader_gate (rootSet : withdrawLocked c.state = true → RootSet c.store)
    (shared : SharedReadings p c s) (passable : GatePassable p c s) :
    ReanchoringGate p (refreshMetrics p c.nextHeight c.store (some s))
      (leaderProposal p (some s) c.nextHeight c.store) := by
  unfold ReanchoringGate
  split
  · rename_i gated
    obtain ⟨target, waited⟩ := gated
    have fresh := passable target (by rwa [refreshMetrics_safeBlocks] at waited)
    rw [← refreshMetrics_hEngramVerified p c.nextHeight c.store (some s)] at fresh
    have attested := pos_of_one_le shared.daPublished
    have locked : withdrawLocked c.state = true := by
      have moved : (core c.store).target p (reading p c (some s)) = .recovering := target
      by_cases stays : (core c.store).state = .recovering
      · change c.state = .recovering at stays
        rw [stays]
        rfl
      · have entered := Core.entry_of_recovering moved stays
        change c.state = .sovereign at entered
        rw [entered]
        rfl
    obtain ⟨root, set, nonempty⟩ := rootSet locked
    have reference : (leaderProposal p (some s) c.nextHeight c.store).zkProofRef = root := by
      simp only [leaderProposal]
      rw [if_pos ⟨target, waited, decide_eq_true attested, fresh⟩,
        refreshMetrics_lastAnchoredRoot, set, Option.getD_some]
    exact ⟨by rwa [reference], decide_eq_true attested, fresh⟩
  · rename_i closed
    simp only [leaderProposal]
    rw [if_neg (fun gated => closed ⟨gated.1, gated.2.1⟩)]

end Checks

/-- On every reachable state without queued transactions, the block an honest
leader builds under healthy shared readings is accepted from some round on,
provided the gate is passable. The heights and the two tolerances fit the
`int64` the checks convert them to. -/
theorem leader_block_accepted {external : External} {p : Params}
    {past : List (Move Chain Block)} {now : Chain} (run : ChainRun external p past now)
    (emptyQueue : now.store.forcedTxQueue.entries = []) (txs : List Bytes) {s : Sensors}
    (shared : SharedReadings p now s) (passable : GatePassable p now s)
    (inverse : external.unmarshal (leaderProposal p (some s) now.nextHeight now.store).marshal =
      some (leaderProposal p (some s) now.nextHeight now.store))
    (threshold : p.daThreshold.toNat + 4 ≤ 2 ^ 63) (depth : p.kDeepFinality.toNat + 2 ≤ 2 ^ 63)
    (height : now.nextHeight.toNat < 2 ^ 63)
    (tips : ∀ tip, s.btc.observedHeight = some tip → tip.toNat < 2 ^ 63) :
    ∃ r0 : UInt64, p.kDeepFinality.toNat + 2 + r0.toNat ≤ 2 ^ 63 ∧
      ∀ round, r0 ≤ round → p.kDeepFinality.toNat + 2 + round.toNat ≤ 2 ^ 63 →
        processProposal external p (some s) now.nextHeight now.store
          ⟨prepareProposal p (some s) now.nextHeight now.store .honest txs, round⟩ = true := by
  obtain ⟨tip, observed, current⟩ := observed_of_healthy shared
  have tipSigned := tips tip observed
  -- the first round whose tolerance covers the gap
  obtain ⟨r0, first⟩ : ∃ r0 : UInt64, r0.toNat =
      tip.toNat - now.store.hBtcAnchored.toNat - (p.kDeepFinality.toNat + 2) :=
    ⟨.ofNat _, UInt64.toNat_ofNat_of_lt' (by rw [UInt64.size]; omega)⟩
  refine ⟨r0, by omega, ?_⟩
  intro round late signed
  rw [UInt64.le_iff_toNat_le] at late
  have decoded := decode_encode external inverse
  simp only [processProposal, prepareProposal, applyByzantineBehavior, decoded]
  rw [processExtended_iff]
  refine ⟨?_, rfl, rfl, ?_, ?_, ?_, ?_, leader_gate (rootSet_of_locked run) shared passable⟩
  · rintro ⟨_, censoring⟩
    obtain ⟨tx, queued, _⟩ := (isCensoring_iff _ _ _ _).mp censoring
    simp [Store.forcedTxQueueSlice, OrderedMap.keys, emptyQueue] at queued
  · obtain ⟨publisher, source, _⟩ := shared.daWired
    have refreshed : (refreshMetrics p now.nextHeight now.store (some s)).hEngramCurrent =
        now.nextHeight := by
      simp [refreshMetrics, source]
    have attested := pos_of_one_le shared.daPublished
    rw [DA.verifyReceipt_iff, refreshed]
    exact fun _ => ⟨decide_eq_true attested, shared.daBelow,
      leader_da_fresh shared threshold height round⟩
  · obtain ⟨above, below⟩ := leaderCheckpoint_bounds shared
    rw [Anchor.verifyReceipt_iff, refreshMetrics_hBtcAnchored]
    refine fun _ => ⟨?_, below, above, rfl⟩
    rw [current]
    exact checkpoint_fresh above tipSigned signed (by omega)
  · obtain ⟨tracker, wired, confirmed⟩ := shared.anchorWired
    simp only [anchorConfirmed, Option.bind_some, wired]
    split
    · exact beq_iff_eq.mpr confirmed
    · rfl
  · intro locked tx member
    rw [leaderTxs, if_pos locked, List.mem_filter] at member
    simpa using member.2

private theorem reference_of_accepted {p : Params} {s : Option Sensors} {height : UInt64}
    {committed : Store} {ext : ExtendedProposal} {innerTxs : List Bytes} {round : UInt64}
    (recovering : ext.fsmState = .recovering) (waited : committed.safeBlocks = p.hysteresisWait)
    (accepted : processExtended p s height committed ext innerTxs round = true) :
    ext.zkProofRef ≠ [] := by
  obtain ⟨_, _, _, _, _, _, _, gate⟩ := (processExtended_iff _ _ _ _ _ _ _).mp accepted
  rw [ReanchoringGate, if_pos ⟨recovering, by rw [refreshMetrics_safeBlocks, waited]⟩] at gate
  exact gate.1

section Stall

def resumedProposal : ExtendedProposal :=
  { attestedProposal .recovering true 2 0 with zkProofRef := fillBytes 0 }

def stalledExternal : External :=
  .ofProposals [attestedProposal .sovereign false 1 0, attestedProposal .recovering true 1 0,
    resumedProposal] (fun _ _ => false)

def stalledChain : Chain :=
  replayFinal (decideBlock stalledExternal defaultParams) genesisChain
    [proposalBlock (outageSensors 1) (attestedProposal .sovereign false 1 0) [] [],
      proposalBlock (liveSensors 4 1) (attestedProposal .recovering true 1 0) [] [],
      proposalBlock (liveSensors 4 1) (attestedProposal .recovering true 1 0) [] [],
      proposalBlock (liveSensors 4 1) (attestedProposal .recovering true 1 0) [] []]

private theorem stalledChain_reachable :
    ∃ past, ChainRun stalledExternal defaultParams past stalledChain :=
  exists_run_replayFinal _ _ _

private theorem stalledChain_facts :
    stalledChain.nextHeight = 5 ∧ stalledChain.store.hBtcAnchored = 0 ∧
      stalledChain.store.safeBlocks = defaultParams.hysteresisWait ∧
      stalledChain.store.forcedTxQueue.entries = [] := by
  decide +kernel

private theorem stalledChain_shared {verified : UInt64}
    (published : leaderDAHeight (some (liveSensors 4 verified)) stalledChain.store = verified)
    (positive : 1 ≤ verified) (below : verified ≤ 5) (healthy : isHealthyCondition
      (reading defaultParams stalledChain (some (liveSensors 4 verified))).metrics
      defaultParams = true) :
    SharedReadings defaultParams stalledChain (liveSensors 4 verified) := by
  obtain ⟨height, anchored, _, _⟩ := stalledChain_facts
  have checkpoint : leaderCheckpoint defaultParams (some (liveSensors 4 verified))
      stalledChain.nextHeight stalledChain.store = 0 := by
    simp [leaderCheckpoint, liveSensors, anchored]
  refine ⟨rfl, ⟨_, rfl, ?_⟩, ⟨_, rfl, rfl⟩, healthy, ?_, ?_, ?_⟩
  · rw [checkpoint]
    rfl
  · intro tip _
    rw [anchored]
    simp [UInt64.le_iff_toNat_le]
  · rwa [published]
  · rwa [published, height]

theorem leader_block_accepted_resumed :
    ∃ r0 : UInt64, defaultParams.kDeepFinality.toNat + 2 + r0.toNat ≤ 2 ^ 63 ∧
      ∀ round, r0 ≤ round → defaultParams.kDeepFinality.toNat + 2 + round.toNat ≤ 2 ^ 63 →
        processProposal stalledExternal defaultParams (some (liveSensors 4 2))
          stalledChain.nextHeight stalledChain.store
          ⟨prepareProposal defaultParams (some (liveSensors 4 2)) stalledChain.nextHeight
            stalledChain.store .honest [], round⟩ = true := by
  obtain ⟨past, run⟩ := stalledChain_reachable
  obtain ⟨height, _, _, emptyQueue⟩ := stalledChain_facts
  have published : leaderDAHeight (some (liveSensors 4 2)) stalledChain.store = 2 := by
    decide +kernel
  have shared : SharedReadings defaultParams stalledChain (liveSensors 4 2) :=
    stalledChain_shared published (by decide) (by decide) (by decide +kernel)
  have passable : GatePassable defaultParams stalledChain (liveSensors 4 2) :=
    fun _ _ => by decide +kernel
  exact leader_block_accepted run emptyQueue [] shared passable (by decide +kernel) (by decide)
    (by decide) (by rw [height]; decide) (fun tip observed => by cases observed; decide)

/-- At every round the validator rejects the leader's block, although readings,
queue and heights are as they should be. -/
theorem leader_block_stalled :
    ∃ past, ChainRun stalledExternal defaultParams past stalledChain ∧
      stalledChain.store.forcedTxQueue.entries = [] ∧
      SharedReadings defaultParams stalledChain (liveSensors 4 1) ∧
      ¬ ∃ r0 : UInt64, ∀ round, r0 ≤ round →
        processProposal stalledExternal defaultParams (some (liveSensors 4 1))
          stalledChain.nextHeight stalledChain.store
          ⟨prepareProposal defaultParams (some (liveSensors 4 1)) stalledChain.nextHeight
            stalledChain.store .honest [], round⟩ = true := by
  obtain ⟨past, run⟩ := stalledChain_reachable
  obtain ⟨_, _, waited, emptyQueue⟩ := stalledChain_facts
  refine ⟨past, run, emptyQueue,
    stalledChain_shared (by decide +kernel) (by decide) (by decide) (by decide +kernel), ?_⟩
  rintro ⟨r0, accepted⟩
  have proposed : leaderProposal defaultParams (some (liveSensors 4 1)) stalledChain.nextHeight
      stalledChain.store = attestedProposal .recovering true 1 0 := by
    decide +kernel
  have decoded : decodeExtendedProposal stalledExternal
      (encodeExtendedProposal (attestedProposal .recovering true 1 0)) =
        .proposal (attestedProposal .recovering true 1 0) :=
    decode_encode _ (by decide +kernel)
  have taken := accepted r0 (le_refl _)
  simp only [processProposal, prepareProposal, applyByzantineBehavior, proposed, decoded] at taken
  exact reference_of_accepted rfl waited taken rfl

end Stall

end Engram.Chain
