import Engram.Chain.Step

/-!
The second FSM driver. `BeginBlocker` recomputes the state and the counters from
the metrics in the store; the consensus path commits an agreed state and health
flag. The test harness drives the keeper by the first and stands for the second.
-/

set_option autoImplicit false
set_option relaxedAutoImplicit false

namespace Engram.Chain

open Engram.Types Engram.Keeper Engram.Node Engram.Library Engram.Fsm

/-- The event of a state change. -/
structure FSMTransitionEvent where
  oldState : FSMState
  newState : FSMState
  btcGap : UInt64
  deriving DecidableEq, Repr

/-- `BeginBlocker`: the state is written, and an event emitted, only on a change;
the counters are written at every block. -/
def beginBlocker (p : Params) (st : Store) : Store × Option FSMTransitionEvent :=
  let metrics := st.metrics.getD {}
  let currState := st.currState
  let nextState := calculateNextState currState st.currentFSMInput p
  let healthy := isHealthyCondition metrics p
  ({ st with
      fsmState := if nextState ≠ currState then some nextState else st.fsmState
      safeBlocks := nextSafeBlocks currState nextState st.safeBlocks healthy p
      suspiciousDuration := nextSuspiciousDuration currState nextState st.suspiciousDuration p
      unhealthyStreak := nextUnhealthyStreak currState nextState st.unhealthyStreak healthy
      suspiciousSafeBlocks :=
        nextSuspiciousSafeBlocks currState nextState st.suspiciousSafeBlocks healthy p
      failedRecoveryAttempts :=
        nextFailedRecoveryAttempts currState nextState st.failedRecoveryAttempts p },
    if nextState ≠ currState then some ⟨currState, nextState, metrics.btcGap⟩ else none)

/-- The store with a reading written to it, as the harness and the sensor refresh
both do before the FSM step. -/
def withReading (st : Store) (r : Reading) : Store :=
  { st with metrics := some r.metrics, reanchoringProofValid := r.reanchoringProofValid }

/-- Checks 1 and 1b of `ProcessProposal` on a refreshed store. -/
def transitionAccepted (p : Params) (st : Store) (ext : ExtendedProposal) : Bool :=
  ext.fsmState == calculateNextState st.currState st.currentFSMInput p &&
    ext.healthy == isHealthyCondition st.currentFSMInput.metrics p

/-- One block of the consensus path: the reading every validator checks against,
and the proposal that is committed. -/
structure AgreedBlock where
  reading : Reading
  ext : ExtendedProposal
  height : UInt64
  appHash : Bytes

/-- The stores after each block driven by `BeginBlocker`. -/
def beginBlockerStores (p : Params) : Store → List Reading → List Store
  | _, [] => []
  | st, r :: rest =>
      let next := (beginBlocker p (withReading st r)).1
      next :: beginBlockerStores p next rest

/-- The stores after each block driven by `CommitFSMTransition`. The refreshed
metrics stay on the discarded branch of the check. -/
def committedStores (p : Params) : Store → List AgreedBlock → List Store
  | _, [] => []
  | st, b :: rest =>
      let next := commitFSMTransition p b.height b.appHash st b.ext
      next :: committedStores p next rest

/-- Every block passes checks 1 and 1b against the store its predecessors left. -/
def AllAccepted (p : Params) : Store → List AgreedBlock → Prop
  | _, [] => True
  | st, b :: rest =>
      transitionAccepted p (withReading st b.reading) b.ext = true ∧
        AllAccepted p (commitFSMTransition p b.height b.appHash st b.ext) rest

private theorem core_beginBlocker (p : Params) (st : Store) (r : Reading) :
    core (beginBlocker p (withReading st r)).1 = (core st).advance p r := by
  have state : (beginBlocker p (withReading st r)).1.currState = (core st).target p r := by
    change (if (core st).target p r ≠ st.currState then some ((core st).target p r)
      else st.fsmState).getD .anchored = _
    by_cases moved : (core st).target p r ≠ st.currState
    · rw [if_pos moved, Option.getD_some]
    · rw [if_neg moved]
      exact (not_not.mp moved).symm
  unfold core at state ⊢
  rw [state]
  rfl

private theorem core_commitFSMTransition (p : Params) (height : UInt64) (appHash : Bytes)
    (st : Store) (ext : ExtendedProposal) :
    core (commitFSMTransition p height appHash st ext) =
      (core st).move p ext.fsmState ext.healthy := rfl

private theorem transitionAccepted_iff (p : Params) (st : Store) (r : Reading)
    (ext : ExtendedProposal) : transitionAccepted p (withReading st r) ext = true ↔
      ext.fsmState = (core st).target p r ∧ ext.healthy = isHealthyCondition r.metrics p := by
  simp only [transitionAccepted, Bool.and_eq_true, beq_iff_eq]
  rfl

/-- A block the validator accepts passes the pre-blocker's own two checks. -/
theorem transitionAccepted_of_processExtended {p : Params} {c : Chain} {s : Option Sensors}
    {ext : ExtendedProposal} {innerTxs : List Bytes} {round : UInt64}
    (accepted : processExtended p s c.nextHeight c.store ext innerTxs round = true) :
    transitionAccepted p (withReading c.store (reading p c s)) ext = true := by
  obtain ⟨_, state, healthy, _⟩ := (processExtended_iff _ _ _ _ _ _ _).mp accepted
  rw [transitionAccepted_iff]
  refine ⟨?_, healthy⟩
  rw [state, refreshed_input, refreshMetrics_currState]
  rfl

private theorem core_commit_of_accepted {p : Params} {st : Store} {b : AgreedBlock}
    (accepted : transitionAccepted p (withReading st b.reading) b.ext = true) :
    core (commitFSMTransition p b.height b.appHash st b.ext) = (core st).advance p b.reading := by
  obtain ⟨state, healthy⟩ := (transitionAccepted_iff p st b.reading b.ext).mp accepted
  rw [core_commitFSMTransition, state, healthy]
  rfl

/-- The two drivers leave the same FSM state and the same five counters after
every block. -/
theorem drivers_agree (p : Params) (begun committed : Store) (blocks : List AgreedBlock)
    (same : core begun = core committed) (accepted : AllAccepted p committed blocks) :
    (beginBlockerStores p begun (blocks.map AgreedBlock.reading)).map core =
      (committedStores p committed blocks).map core := by
  induction blocks generalizing begun committed with
  | nil => rfl
  | cons b rest ih =>
      obtain ⟨passed, later⟩ := accepted
      have step : core (beginBlocker p (withReading begun b.reading)).1 =
          core (commitFSMTransition p b.height b.appHash committed b.ext) := by
        rw [core_beginBlocker, core_commit_of_accepted passed, same]
      simp only [List.map_cons, beginBlockerStores, committedStores]
      rw [step, ih _ _ step later]

/-- A critical block and the healthy one after it, from the genesis counters. -/
theorem drivers_agree_outage_then_calm :
    let healthy : PeripheralMetrics :=
      { subnetDiversity := 2, activeAnchors := 2, cleanPeers := 3, avgPeerTenure := 300 }
    let outage : PeripheralMetrics := { healthy with btcGap := 18 }
    let blocks : List AgreedBlock :=
      [⟨⟨outage, false⟩, ⟨.sovereign, false, ⟨1, true⟩, ⟨0, ⟨"", 0⟩⟩, []⟩, 1, []⟩,
        ⟨⟨healthy, false⟩, ⟨.recovering, true, ⟨1, true⟩, ⟨0, ⟨"", 0⟩⟩, []⟩, 2, []⟩]
    AllAccepted defaultParams {} blocks ∧
      (beginBlockerStores defaultParams {} (blocks.map AgreedBlock.reading)).map core =
        (committedStores defaultParams {} blocks).map core := by
  intro healthy outage blocks
  have accepted : AllAccepted defaultParams {} blocks := ⟨by decide, by decide, trivial⟩
  exact ⟨accepted, drivers_agree defaultParams {} {} blocks rfl accepted⟩

end Engram.Chain
