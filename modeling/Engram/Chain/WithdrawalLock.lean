import Engram.Chain.History
import Engram.Chain.Reanchoring

/-!
The withdrawal lock over a run. An anchor rises only to a checkpoint the accepting
validator found in its own bitcoind, so a leader cannot hide that Bitcoin has moved on; a
chain whose anchor is stale locks, and only a recovery unlocks it.
-/

set_option autoImplicit false
set_option relaxedAutoImplicit false

namespace Engram.Chain

open Engram.Types Engram.Keeper Engram.Node Engram.Library Engram.Fsm

/-- Some transaction behind the proposal carries a withdrawal. -/
def withdraws (b : Block) : Bool := b.txs.tail.any containsWithdrawal

/-- The accepting validator found the checkpoint in its own bitcoind. -/
def Confirms (b : Block) (height : UInt64) : Prop :=
  ∃ tracker, b.sensors.bind Sensors.anchor = some tracker ∧
    tracker.verifyAnchor height = some true

section Backing

variable {external : External} {p : Params} {c c' : Chain} {b : Block}

private theorem verifyAnchor_eq_true {tracker : AnchorTracker} {height : UInt64}
    (verified : tracker.verifyAnchor height = some true) :
    ∃ tip, tracker.currentHeight = some tip ∧
      height.toNat + tracker.kDeepFinality.toNat ≤ tip.toNat ∧
      tracker.blockContainsTag height = some true := by
  unfold AnchorTracker.verifyAnchor at verified
  split at verified
  · cases verified
  · rename_i tip here
    split at verified
    · cases verified
    · rename_i deep
      simp only [Bool.or_eq_true, decide_eq_true_eq, not_or, UInt64.not_lt,
        UInt64.le_iff_toNat_le] at deep
      obtain ⟨above, confirmed⟩ := deep
      rw [UInt64.toNat_sub_of_le _ _ (UInt64.le_iff_toNat_le.mpr above)] at confirmed
      exact ⟨tip, here, by omega, verified⟩

private theorem decideBlock_raises (decided : decideBlock external p c b = some c')
    (wired : (b.sensors.bind Sensors.anchor).isSome) :
    c'.store.hBtcAnchored ≤ c.store.hBtcAnchored ∨ Confirms b c'.store.hBtcAnchored := by
  obtain ⟨ext, innerTxs, carries, committed⟩ := decideBlock_committed decided
  obtain ⟨_, _, _, _, _, confirmed, _⟩ := (processExtended_iff _ _ _ _ _ _ _).mp carries.accepted
  obtain ⟨tracker, here⟩ := Option.isSome_iff_exists.mp wired
  rw [refreshMetrics_hBtcAnchored, anchorConfirmed, here] at confirmed
  rw [committed.hBtcAnchored]
  by_cases raised : ext.btcReceipt.checkpointBlockHeight > c.store.hBtcAnchored
  · simp only [if_pos raised, beq_iff_eq] at confirmed
    exact .inr ⟨tracker, here, confirmed⟩
  · exact .inl (UInt64.not_lt.mp raised)

private theorem anchor_backed {past : List (Move Chain Block)} {now : Chain}
    (run : ChainRun external p past now)
    (wired : ∀ m ∈ past, (m.input.sensors.bind Sensors.anchor).isSome) :
    now.store.hBtcAnchored = 0 ∨ ∃ m ∈ past, ∃ height, Confirms m.input height ∧
      now.store.hBtcAnchored ≤ height := by
  induction run with
  | initial => exact .inl rfl
  | @extend past now next b before decided ih =>
      obtain ⟨latest, earlier⟩ := List.forall_mem_cons.mp wired
      rcases decideBlock_raises decided latest with kept | confirmed
      · rcases ih earlier with zero | ⟨m, member, height, confirms, below⟩
        · rw [zero] at kept
          exact .inl (UInt64.le_antisymm kept UInt64.zero_le)
        · exact .inr ⟨m, List.mem_cons_of_mem _ member, height, confirms, kept.trans below⟩
      · exact .inr ⟨_, List.mem_cons_self, _, confirmed, UInt64.le_refl _⟩

/-- The tips of the accepting validators when they accepted stay at or below `tip`, and
their trackers demand the depth of the parameters. -/
def TipsBelow (p : Params) (past : List (Move Chain Block)) (tip : ℕ) : Prop :=
  ∀ m ∈ past, ∃ tracker, m.input.sensors.bind Sensors.anchor = some tracker ∧
    tracker.kDeepFinality = p.kDeepFinality ∧
    ∀ current, tracker.currentHeight = some current → current.toNat ≤ tip

private theorem anchor_deep {past : List (Move Chain Block)} {now : Chain} {tip : ℕ}
    (run : ChainRun external p past now) (tips : TipsBelow p past tip)
    (started : p.kDeepFinality.toNat ≤ tip) :
    now.store.hBtcAnchored.toNat + p.kDeepFinality.toNat ≤ tip := by
  have wired : ∀ m ∈ past, (m.input.sensors.bind Sensors.anchor).isSome := by
    intro m member
    obtain ⟨tracker, here, _⟩ := tips m member
    rw [here, Option.isSome_some]
  rcases anchor_backed run wired with zero | ⟨m, member, height, ⟨tracker, here, verified⟩, below⟩
  · rw [zero]
    simpa using started
  · obtain ⟨tracker', here', depth, seen⟩ := tips m member
    obtain rfl : tracker = tracker' := Option.some.inj (here.symm.trans here')
    obtain ⟨current, known, deep, _⟩ := verifyAnchor_eq_true verified
    have bound := seen current known
    rw [UInt64.le_iff_toNat_le] at below
    rw [depth] at deep
    omega

end Backing

section Stale

variable {external : External} {p : Params} {c c' : Chain} {b : Block}

/-- The validator runs a live Bitcoin source, and what it observes, when it observes
anything, lies `SovereignThreshold` and more beyond the anchor. -/
def SeesStale (p : Params) (b : Block) (anchored : ℕ) : Prop :=
  ∃ s, b.sensors = some s ∧ s.btc.source.isSome ∧
    ∀ height, s.btc.observedHeight = some height →
      anchored + p.sovereignThreshold.toNat ≤ height.toNat

private theorem gap_of_seesStale (positive : p.sovereignThreshold ≠ 0)
    (stale : SeesStale p b c.store.hBtcAnchored.toNat) :
    isBTCGapSovereign (reading p c b.sensors).metrics p = true := by
  obtain ⟨s, here, live, beyond⟩ := stale
  obtain ⟨src, source⟩ := Option.isSome_iff_exists.mp live
  have gap : (reading p c b.sensors).metrics.btcGap =
      (btcGapMetric p c.store s.btc s.anchor).1 := by
    rw [here]
    rfl
  rw [isBTCGapSovereign, gap, decide_eq_true_eq, ge_iff_le, btcGapMetric, source]
  cases observed : s.btc.observedHeight with
  | none => exact UInt64.le_refl _
  | some height =>
      have far := beyond height observed
      have some' : 0 < p.sovereignThreshold.toNat := by
        rw [Nat.pos_iff_ne_zero]
        exact fun zero => positive (UInt64.toNat_inj.mp zero)
      have above : ¬ height ≤ c.store.hBtcAnchored := by
        rw [UInt64.le_iff_toNat_le]
        omega
      simp only [if_neg above]
      rw [UInt64.le_iff_toNat_le, UInt64.toNat_sub_of_le _ _ (UInt64.le_of_lt
        (UInt64.not_le.mp above))]
      omega

private theorem target_of_gap {k : Core} {r : Reading} (gap : isBTCGapSovereign r.metrics p = true)
    (named : k.state.toText ∈ stateNames) : k.target p r = .sovereign := by
  have critical : isCriticalCondition r.metrics p k.suspiciousDuration = true := by
    simp only [isCriticalCondition, gap, Bool.true_or]
  have sick : isHealthyCondition r.metrics p = false := by
    simp only [isHealthyCondition, gap, Bool.not_true, Bool.false_and]
  have unfolded : k.target p r = calculateNextState k.state (k.input r) p := rfl
  cases state : k.state with
  | other name unnamed =>
      rw [state] at named
      exact absurd named unnamed
  | _ => simp only [unfolded, state, calculateNextState, Core.input, critical, sick, if_true,
      Bool.false_eq_true, if_false]

private theorem decideBlock_locked (decided : decideBlock external p c b = some c')
    (locked : withdrawLocked c'.state = true) : withdraws b = false := by
  obtain ⟨ext, innerTxs, carries, committed⟩ := decideBlock_committed decided
  unfold decideBlock at decided
  obtain ⟨⟨_, accepted⟩, _⟩ := guarded_eq_some decided
  unfold processProposal at accepted
  cases txs : b.txs with
  | nil =>
      rw [withdraws, txs]
      rfl
  | cons tx rest =>
      simp only [txs] at accepted
      split at accepted
      · rename_i ext' decoded
        have same : ext' = ext := by
          have proposed := carries.proposed
          simp only [Block.proposal, txs, decoded] at proposed
          exact Option.some.inj proposed
        obtain ⟨_, _, _, _, _, _, breaker, _⟩ :=
          (processExtended_iff _ _ _ _ _ _ _).mp accepted
        have state : c'.state = ext.fsmState := committed.currState
        rw [state, ← same] at locked
        rw [withdraws, txs, List.tail_cons, Bool.eq_false_iff]
        intro found
        obtain ⟨tx, listed, marked⟩ := List.any_eq_true.mp found
        rw [breaker locked tx listed] at marked
        cases marked
      · cases accepted

end Stale

/-- A stale anchor locks the chain, whatever the leader says. Take any run whose accepting
validators ran their trackers at the depth of the parameters, under tips of at most `tip`.
The next block accepted by a validator whose bitcoind is unreachable, or has moved
`SovereignThreshold - K` blocks beyond `tip`, commits SOVEREIGN and carries no
withdrawal. -/
theorem stale_anchor_locks {external : External} {p : Params} (valid : p.Valid)
    {past : List (Move Chain Block)} {now : Chain} (run : ChainRun external p past now) {tip : ℕ}
    (tips : TipsBelow p past tip) (started : p.kDeepFinality.toNat ≤ tip) {b : Block}
    {next : Chain} (decided : decideBlock external p now b = some next) {s : Sensors}
    (reads : b.sensors = some s) (live : s.btc.source.isSome)
    (beyond : ∀ height, s.btc.observedHeight = some height →
      tip + p.sovereignThreshold.toNat ≤ height.toNat + p.kDeepFinality.toNat) :
    next.state = .sovereign ∧ withdraws b = false := by
  have deep := anchor_deep run tips started
  have stale : SeesStale p b now.store.hBtcAnchored.toNat := by
    refine ⟨s, reads, live, ?_⟩
    intro height observed
    have far := beyond height observed
    omega
  have positive : p.sovereignThreshold ≠ 0 := by
    rintro zero
    have ordered := ((Params.valid_iff p).mp valid).2.2.1
    rw [zero] at ordered
    exact UInt64.not_lt_zero ordered
  obtain ⟨state, written, named⟩ := chainRun_named run
  have current : (core now.store).state = state := by
    change now.store.currState = state
    rw [Store.currState, written, Option.getD_some]
  obtain ⟨ext, innerTxs, carries, committed⟩ := decideBlock_committed decided
  have sovereign : next.state = .sovereign := by
    have target : next.state = ext.fsmState := committed.currState
    rw [target, carries.recomputed.1]
    exact target_of_gap (gap_of_seesStale positive stale) (current ▸ named)
  exact ⟨sovereign, decideBlock_locked decided (by rw [sovereign]; rfl)⟩

section Samples

/-- An ANCHORED block that settles at height 2, and a block that locks while bitcoind is
unreachable. -/
def anchoringBlock : Block :=
  proposalBlock (liveSensors 4 0) (attestedProposal .anchored true 0 2) [] []

def lockingBlock : Block :=
  proposalBlock (outageSensors 0) (attestedProposal .sovereign false 0 2) [] []

def lockingExternal : External :=
  .ofProposals [attestedProposal .anchored true 0 2, attestedProposal .sovereign false 0 2]
    (fun _ _ => false)

end Samples

/-- The anchor was confirmed under tip 4; then bitcoind stops answering. -/
theorem stale_anchor_locks_outage :
    ∃ now next, decideBlock lockingExternal defaultParams genesisChain anchoringBlock = some now ∧
      decideBlock lockingExternal defaultParams now lockingBlock = some next ∧
      next.state = .sovereign ∧ withdraws lockingBlock = false := by
  have both : ((decideBlock lockingExternal defaultParams genesisChain anchoringBlock).bind
      (fun now => decideBlock lockingExternal defaultParams now lockingBlock)).isSome = true := by
    decide +kernel
  obtain ⟨next, decided⟩ := Option.isSome_iff_exists.mp both
  obtain ⟨now, first, second⟩ := Option.bind_eq_some_iff.mp decided
  have tips : TipsBelow defaultParams [⟨genesisChain, anchoringBlock, now⟩] 4 := by
    intro m member
    obtain rfl := List.mem_singleton.mp member
    refine ⟨_, rfl, rfl, ?_⟩
    intro current here
    obtain rfl := Option.some.inj here
    decide
  exact ⟨now, next, first, second, stale_anchor_locks (by decide) (.extend .initial first) tips
    (by decide) second rfl rfl (fun height observed => by cases observed)⟩

section Recovery

variable {external : External} {p : Params}

private theorem exists_unlock {newer older : List (Move Chain Block)} {m : Move Chain Block}
    {now : Chain} (run : ChainRun external p (newer ++ m :: older) now)
    (locked : withdrawLocked m.target.state = true) (free : withdrawLocked now.state = false) :
    ∃ later r rest, newer = later ++ r :: rest ∧ withdrawLocked r.source.state = true ∧
      withdrawLocked r.target.state = false := by
  induction newer generalizing now with
  | nil =>
      cases run with
      | extend _ _ =>
          rw [locked] at free
          cases free
  | cons x newer ih =>
      cases run with
      | @extend _ mid _ input before decided =>
          cases held : withdrawLocked mid.state with
          | true => exact ⟨[], _, newer, rfl, held, free⟩
          | false =>
              obtain ⟨later, r, rest, rfl, source, target⟩ := ih before held
              exact ⟨_ :: later, r, rest, rfl, source, target⟩

private theorem unlock_edge {e : Event} {older : List Event} (safe : HysteresisSafe p e older)
    (locked : withdrawLocked e.before = true) (free : withdrawLocked e.after = false) :
    e.before = .recovering ∧ e.after = .anchored := by
  rcases safe.edge with same | moved
  · rw [same, free] at locked
    cases locked
  · simp only [allowedEdges, List.mem_cons, List.not_mem_nil, or_false, Prod.mk.injEq] at moved
    rcases moved with ⟨h, h'⟩ | ⟨h, h'⟩ | ⟨h, h'⟩ | ⟨h, h'⟩ | ⟨h, h'⟩ | ⟨h, h'⟩ | ⟨h, h'⟩
    all_goals
      rw [h] at locked
      rw [h'] at free
      first
      | exact ⟨h, h'⟩
      | exact absurd locked (by decide)
      | exact absurd free (by decide)

end Recovery

/-- A withdrawal after a lock waits for the recovery. Wherever a block of a run carries a
withdrawal and an earlier one committed a locked state, a block between them, or the block
itself, moved RECOVERING to ANCHORED: it was healthy, its validator found the
re-anchoring proof valid, and the stay in RECOVERING it closed had at least
`HysteresisWait` healthy blocks, more than its unhealthy ones by as many on a recent
stretch. -/
theorem withdrawal_waits_for_recovery {external : External} {p : Params}
    {between older : List (Move Chain Block)} {w m : Move Chain Block} {now : Chain}
    (run : ChainRun external p (w :: between ++ m :: older) now)
    (locked : withdrawLocked m.target.state = true) (withdrawal : withdraws w.input = true) :
    ∃ later r rest, w :: between = later ++ r :: rest ∧ r.source.state = .recovering ∧
      r.target.state = .anchored ∧ r.input.healthy external = true ∧
      (reading p r.source r.input.sensors).reanchoringProofValid = true ∧
      ∃ stayed, Stay .sovereign .recovering (committedHistory external (rest ++ m :: older))
          stayed ∧
        p.hysteresisWait.toNat ≤ stayed.countP Event.healthy ∧
        ∃ recent, recent <+: stayed ∧
          recent.countP (fun e => !e.healthy) + p.hysteresisWait.toNat ≤
            recent.countP Event.healthy := by
  have free : withdrawLocked now.state = false := by
    cases run with
    | extend _ decided =>
        rw [Bool.eq_false_iff]
        intro held
        rw [decideBlock_locked decided held] at withdrawal
        cases withdrawal
  obtain ⟨later, r, rest, split, held, opened⟩ := exists_unlock run locked free
  have history : committedHistory external (w :: between ++ m :: older) =
      committedHistory external later ++ observeBlock external r ::
        committedHistory external (rest ++ m :: older) := by
    rw [split, List.append_assoc, List.cons_append, committedHistory, List.map_append,
      List.map_cons]
    rfl
  have fsm := chainRun_fsmRun run
  rw [history] at fsm
  have safe := fsm.hysteresisSafe
  obtain ⟨source, target⟩ := unlock_edge safe held opened
  obtain ⟨healthy, stayed, stay, earned, recent⟩ := safe.reanchor source target
  rw [split, List.append_assoc, List.cons_append] at run
  obtain ⟨_, taken⟩ := run.cut
  have proven : (reading p r.source r.input.sensors).reanchoringProofValid = true := by
    obtain ⟨moved, _⟩ := decideBlock_advance taken
    have reached : (core r.source.store).target p (reading p r.source r.input.sensors) =
        .anchored := by
      have same : (core r.target.store).state = .anchored := target
      rw [moved] at same
      exact same
    exact (Core.reanchor_guards source reached).2.2
  exact ⟨later, r, rest, split, source, target, healthy, proven, stayed, stay, earned, recent⟩

/-- The block after a recovery, with a withdrawal. -/
def withdrawalBlock : Block :=
  { liveBlock (outageProposal .anchored true) 7 [] with
    txs := [encodeExtendedProposal (outageProposal .anchored true), utf8 "TX_WITHDRAWAL"] }

theorem withdrawal_waits_for_provenOutage :
    ∃ between older w m now,
      ChainRun outageExternal defaultParams (w :: between ++ m :: older) now ∧
      withdrawLocked m.target.state = true ∧ withdraws w.input = true ∧
      ∃ later r rest, w :: between = later ++ r :: rest ∧ r.source.state = .recovering ∧
        r.target.state = .anchored ∧ r.input.healthy outageExternal = true := by
  obtain ⟨w, older, now, run, passed⟩ := exists_run_of_newestPasses
    (decideBlock outageExternal defaultParams) genesisChain (provenOutage ++ [withdrawalBlock])
    (fun w older => withdraws w.input && older.any (fun m => withdrawLocked m.target.state))
    (by decide +kernel)
  simp only [Bool.and_eq_true, List.any_eq_true] at passed
  obtain ⟨withdrawal, m, member, locked⟩ := passed
  obtain ⟨between, older, rfl⟩ := List.append_of_mem member
  obtain ⟨later, r, rest, split, source, target, healthy, _⟩ :=
    withdrawal_waits_for_recovery run locked withdrawal
  exact ⟨between, older, w, m, now, run, locked, withdrawal, later, r, rest, split, source, target,
    healthy⟩

end Engram.Chain
