import Engram.Node.Chain
import Engram.Fsm.Core

/-!
What one decided block does to the chain, said once, and the refinement of the
FSM machine by the chain. Results about runs use these lemmas and never open
the handlers.
-/

set_option autoImplicit false
set_option relaxedAutoImplicit false

namespace Engram.Chain

open Engram.Types Engram.Keeper Engram.Node Engram.Library Engram.Fsm

/-- What messages can write: the forced queue, the metrics and the bookkeeping of
recovery proofs. -/
def Delivered (st st' : Store) : Prop :=
  ∃ queue metrics root headers submitted audit, st' = { st with
    forcedTxQueue := queue, metrics := metrics, lastAnchoredRoot := root,
    headerHistory := headers, realProofSubmittedHeight := submitted,
    recoveryProofDAHeights := audit }

theorem Delivered.refl (st : Store) : Delivered st st := ⟨_, _, _, _, _, _, rfl⟩

theorem Delivered.trans {a b c : Store} (ab : Delivered a b) (bc : Delivered b c) :
    Delivered a c := by
  obtain ⟨_, _, _, _, _, _, rfl⟩ := ab
  obtain ⟨queue, metrics, root, headers, submitted, audit, rfl⟩ := bc
  exact ⟨queue, metrics, root, headers, submitted, audit, rfl⟩

/-- Everything one message can do: nothing, queue a transaction, write the
metrics, or what an accepted recovery proof does. -/
theorem deliver_cases (external : External) (st : Store) (msg : Msg) :
    deliver external st msg = st ∨
      (∃ tx, msg = .submitForcedTx tx ∧
        deliver external st msg = { st with forcedTxQueue := st.forcedTxQueue.set tx () }) ∨
      (∃ metrics, msg = .injectFault (some metrics) ∧
        deliver external st msg = { st with metrics := some metrics }) ∨
      ∃ proof st', msg = .submitRecoveryProof proof ∧
        submitRecoveryProof external.verifyZKProof st proof = .ok st' ∧
        deliver external st msg = st' := by
  unfold deliver
  split
  · rename_i st' handled
    cases msg with
    | submitRecoveryProof proof => exact .inr (.inr (.inr ⟨proof, st', rfl, handled, rfl⟩))
    | submitForcedTx tx => exact .inr (.inl ⟨tx, rfl, submitForcedTx_cases handled⟩)
    | injectFault faultInputs =>
        obtain rfl := Except.ok.inj handled
        cases faultInputs with
        | none => exact .inl rfl
        | some metrics => exact .inr (.inr (.inl ⟨metrics, rfl, rfl⟩))
  · exact .inl rfl

private theorem deliver_delivered (external : External) (st : Store) (msg : Msg) :
    Delivered st (deliver external st msg) := by
  obtain same | ⟨_, _, same⟩ | ⟨_, _, same⟩ | ⟨_, st', _, accepted, same⟩ :=
    deliver_cases external st msg
  · rw [same]
    exact .refl st
  · exact ⟨_, _, _, _, _, _, same⟩
  · exact ⟨_, _, _, _, _, _, same⟩
  · obtain ⟨_, _, _, _, _, _, rfl⟩ := submitRecoveryProof_cases accepted
    exact ⟨_, _, _, _, _, _, same⟩

private theorem deliverAll_delivered (external : External) (st : Store) (msgs : List Msg) :
    Delivered st (deliverAll external st msgs) := by
  induction msgs generalizing st with
  | nil => exact .refl st
  | cons msg msgs ih => exact (deliver_delivered external st msg).trans (ih _)

/-- The block `b`, decided after `c`, carries `ext` with `innerTxs` behind it, and
the validator that decided it accepted them. -/
structure Carries (external : External) (p : Params) (c : Chain) (b : Block)
    (ext : ExtendedProposal) (innerTxs : List Bytes) : Prop where
  below : c.height + 1 < 2 ^ 63
  proposed : b.proposal external = some ext
  accepted : processExtended p b.sensors c.nextHeight c.store ext innerTxs b.round = true

/-- Everything a decided block does: it carries an accepted proposal, which is
committed after bookkeeping and before the messages. -/
theorem decideBlock_cases {external : External} {p : Params} {c c' : Chain} {b : Block}
    (decided : decideBlock external p c b = some c') :
    ∃ ext innerTxs st, Carries external p c b ext innerTxs ∧ Bookkeeping c.store st ∧
      afterPreBlock external p c b = commitFSMTransition p c.nextHeight b.appHash st ext ∧
      c' = ⟨c.height + 1, deliverAll external
        (commitFSMTransition p c.nextHeight b.appHash st ext) b.msgs⟩ := by
  unfold decideBlock at decided
  split at decided
  · rename_i guard
    obtain ⟨below, accepted⟩ := guard
    unfold processProposal at accepted
    cases txs : b.txs with
    | nil => simp [txs] at accepted
    | cons tx innerTxs =>
        simp only [txs] at accepted
        split at accepted
        · rename_i ext decoded
          obtain ⟨st, kept, executed⟩ := preBlocker_proposal p c.nextHeight b.appHash
            c.store b.misbehavior innerTxs decoded
          have committed : afterPreBlock external p c b =
              commitFSMTransition p c.nextHeight b.appHash st ext := by
            rw [afterPreBlock, txs, executed]
          refine ⟨ext, innerTxs, st, ⟨below, ?_, accepted⟩, kept, committed, ?_⟩
          · simp only [Block.proposal, txs, decoded]
          · rw [← committed]
            exact (Option.some.inj decided).symm
        · cases accepted
  · cases decided

theorem decideBlock_height {external : External} {p : Params} {c c' : Chain} {b : Block}
    (decided : decideBlock external p c b = some c') : c'.height = c.height + 1 := by
  obtain ⟨_, _, _, _, _, _, rfl⟩ := decideBlock_cases decided
  rfl

/-- The FSM part of a store. -/
def core (st : Store) : Core where
  state := st.currState
  safeBlocks := st.safeBlocks
  suspiciousDuration := st.suspiciousDuration
  suspiciousSafeBlocks := st.suspiciousSafeBlocks
  unhealthyStreak := st.unhealthyStreak
  failedRecoveryAttempts := st.failedRecoveryAttempts

/-- The reading a validator feeds to the FSM step of the next block. -/
def reading (p : Params) (c : Chain) (s : Option Sensors) : Reading where
  metrics := (refreshMetrics p c.nextHeight c.store s).currentFSMInput.metrics
  reanchoringProofValid := (refreshMetrics p c.nextHeight c.store s).reanchoringProofValid

theorem refreshed_input (p : Params) (c : Chain) (s : Option Sensors) :
    (refreshMetrics p c.nextHeight c.store s).currentFSMInput =
      (core c.store).input (reading p c s) := by
  cases s <;> rfl

theorem Carries.recomputed {external : External} {p : Params} {c : Chain} {b : Block}
    {ext : ExtendedProposal} {innerTxs : List Bytes}
    (carries : Carries external p c b ext innerTxs) :
    ext.fsmState = (core c.store).target p (reading p c b.sensors) ∧
      ext.healthy = isHealthyCondition (reading p c b.sensors).metrics p := by
  obtain ⟨_, state, healthy, _⟩ := (processExtended_iff _ _ _ _ _ _ _).mp carries.accepted
  refine ⟨?_, healthy⟩
  rw [state, refreshed_input, refreshMetrics_currState]
  rfl

/-- The items a decided block leaves that no message can touch. -/
structure Committed (p : Params) (before : Store) (ext : ExtendedProposal) (after : Store) :
    Prop where
  fsm : core after = (core before).move p ext.fsmState ext.healthy
  state : after.fsmState = some ext.fsmState
  hBtcAnchored : after.hBtcAnchored = ext.btcReceipt.checkpointBlockHeight
  hEngramVerified : after.hEngramVerified = ext.daReceipt.publishedBlockHeight
  hBtcSubmitted : after.hBtcSubmitted =
    if claimsProof ext then before.hBtcCurrent else before.hBtcSubmitted
  proofFlag : after.reanchoringProofValid =
    if claimsProof ext then false else before.reanchoringProofValid
  hBtcCurrent : after.hBtcCurrent =
    if reanchors before ext then ext.btcReceipt.checkpointBlockHeight else before.hBtcCurrent
  hEngramCurrent : after.hEngramCurrent =
    if reanchors before ext then ext.daReceipt.publishedBlockHeight else before.hEngramCurrent

theorem Committed.currState {p : Params} {before after : Store} {ext : ExtendedProposal}
    (committed : Committed p before ext after) : after.currState = ext.fsmState := by
  rw [Store.currState, committed.state, Option.getD_some]

theorem decided_committed {external : External} {p : Params} {c c' : Chain} {b : Block}
    {ext : ExtendedProposal} {innerTxs : List Bytes}
    (decided : decideBlock external p c b = some c')
    (carries : Carries external p c b ext innerTxs) : Committed p c.store ext c'.store := by
  obtain ⟨ext', _, st, carries', ⟨_, _, _, _, rfl⟩, _, rfl⟩ := decideBlock_cases decided
  obtain rfl : ext' = ext := Option.some.inj (carries'.proposed.symm.trans carries.proposed)
  obtain ⟨_, _, _, _, _, _, delivered⟩ := deliverAll_delivered external
    (commitFSMTransition p c.nextHeight b.appHash _ ext') b.msgs
  constructor <;> rw [delivered] <;> rfl

theorem decideBlock_committed {external : External} {p : Params} {c c' : Chain} {b : Block}
    (decided : decideBlock external p c b = some c') :
    ∃ ext innerTxs, Carries external p c b ext innerTxs ∧ Committed p c.store ext c'.store := by
  obtain ⟨ext, innerTxs, _, carries, _⟩ := decideBlock_cases decided
  exact ⟨ext, innerTxs, carries, decided_committed decided carries⟩

theorem Carries.healthy {external : External} {p : Params} {c : Chain} {b : Block}
    {ext : ExtendedProposal} {innerTxs : List Bytes}
    (carries : Carries external p c b ext innerTxs) : b.healthy external = ext.healthy := by
  simp only [Block.healthy, carries.proposed]

theorem decideBlock_advance {external : External} {p : Params} {c c' : Chain} {b : Block}
    (decided : decideBlock external p c b = some c') :
    core c'.store = (core c.store).advance p (reading p c b.sensors) ∧
      b.healthy external = isHealthyCondition (reading p c b.sensors).metrics p := by
  obtain ⟨ext, innerTxs, carries, committed⟩ := decideBlock_committed decided
  obtain ⟨state, healthy⟩ := carries.recomputed
  refine ⟨?_, by rw [carries.healthy, healthy]⟩
  rw [committed.fsm, state, healthy]
  rfl

/-- What a decided block leaves in the history. -/
def observeBlock (external : External) (m : Move Chain Block) : Event :=
  ⟨m.source.state, m.target.state, m.input.healthy external⟩

/-- The committed history of a run, newest block first. -/
def committedHistory (external : External) (past : List (Move Chain Block)) : List Event :=
  past.map (observeBlock external)

theorem chainRun_fsmRun {external : External} {p : Params} {past : List (Move Chain Block)}
    {now : Chain} (run : ChainRun external p past now) :
    FsmRun p (committedHistory external past) (core now.store) := by
  obtain ⟨past', run', same⟩ := run.simulate
    (fun c r => some (Core.advance p c r)) (fun c => core c.store) (observeBlock external)
    (observe p) (by
      intro c b c' decided
      obtain ⟨moved, healthy⟩ := decideBlock_advance decided
      refine ⟨reading p c b.sensors, by rw [moved], ?_⟩
      simp only [observeBlock, observe, healthy]
      rfl)
  exact ⟨past', run', same.symm⟩

private theorem calculateNextState_named {state : FSMState} (named : state.toText ∈ stateNames)
    (inp : FSMInput) (p : Params) : (calculateNextState state inp p).toText ∈ stateNames := by
  cases state with
  | other name unnamed => exact absurd named unnamed
  | _ =>
      simp only [calculateNextState]
      split_ifs <;> decide

theorem chainRun_named {external : External} {p : Params} {past : List (Move Chain Block)}
    {now : Chain} (run : ChainRun external p past now) :
    ∃ state, now.store.fsmState = some state ∧ state.toText ∈ stateNames := by
  refine run.invariant (I := fun c => ∃ state, c.store.fsmState = some state ∧
    state.toText ∈ stateNames) ⟨.anchored, rfl, by decide⟩ ?_
  intro c b c' ⟨state, written, named⟩ decided
  obtain ⟨ext, innerTxs, carries, committed⟩ := decideBlock_committed decided
  refine ⟨ext.fsmState, committed.state, ?_⟩
  have current : (core c.store).state = state := by
    change c.store.currState = state
    rw [Store.currState, written, Option.getD_some]
  rw [carries.recomputed.1]
  exact calculateNextState_named (current ▸ named) _ p

end Engram.Chain
