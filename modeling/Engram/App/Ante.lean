import Engram.Node.Chain

/-!
Transactions behind the circuit breaker decorator. Admission is decided once for a
whole transaction, on the queue as it stands before any of its messages runs; the
messages then run in order, and the first one that fails takes all of them back.
-/

set_option autoImplicit false
set_option relaxedAutoImplicit false

namespace Engram.App

open Engram.Types Engram.Keeper Engram.Node Engram.Library

/-- A message of a transaction: one the message server handles, or any other by its
type URL. -/
inductive TxMsg where
  | sovereignty (msg : Msg)
  | other (typeURL : String)

def isHighRiskTransaction : TxMsg → Bool
  | .sovereignty _ => false
  | .other typeURL => typeURL == "/cosmos.bank.v1beta1.MsgSend" ||
      typeURL == "/ibc.applications.transfer.v1.MsgTransfer"

def isSubmitForcedTx : TxMsg → Bool
  | .sovereignty (.submitForcedTx _) => true
  | _ => false

def errCircuitBreaker : String :=
  "CIRCUIT BREAKER ACTIVE: withdrawals and high-value transactions are halted while " ++
    "fsm_state is SOVEREIGN or RECOVERING"

def errSuspiciousThrottle : String :=
  "SUSPICIOUS THROTTLE ACTIVE: forced-tx queue is at capacity while fsm_state is SUSPICIOUS"

/-- The counting loop of the throttle, with the local count explicit. -/
def throttle (maxSuspiciousForcedTxQueue : UInt64) : ℕ → List TxMsg → Except String Unit
  | _, [] => .ok ()
  | count, msg :: msgs =>
      if !isSubmitForcedTx msg then throttle maxSuspiciousForcedTxQueue count msgs
      else if count ≥ maxSuspiciousForcedTxQueue.toNat then .error errSuspiciousThrottle
      else throttle maxSuspiciousForcedTxQueue (count + 1) msgs

/-- `AnteHandle` up to the call of `next`. It writes nothing. -/
def anteHandle (p : Params) (st : Store) (msgs : List TxMsg) : Except String Unit :=
  if withdrawLocked st.currState && msgs.any isHighRiskTransaction then .error errCircuitBreaker
  else if st.currState = .suspicious then
    throttle p.maxSuspiciousForcedTxQueue st.forcedTxQueueSlice.length msgs
  else .ok ()

/-- No handler is registered for a message of another module. -/
def routeMsg (external : External) (st : Store) : TxMsg → Except String Store
  | .sovereignty msg => handleMsg external st msg
  | .other typeURL => .error ("no message handler found for " ++ typeURL)

/-- The messages of a transaction in order, stopped by the first error. -/
def runMsgs (external : External) : Store → List TxMsg → Except String Store
  | st, [] => .ok st
  | st, msg :: msgs =>
      match routeMsg external st msg with
      | .error err => .error err
      | .ok st' => runMsgs external st' msgs

def runTx (external : External) (p : Params) (st : Store) (msgs : List TxMsg) :
    Except String Store :=
  match anteHandle p st msgs with
  | .error err => .error err
  | .ok () => runMsgs external st msgs

/-- A failed transaction leaves the store as it was. -/
def deliverTx (external : External) (p : Params) (st : Store) (msgs : List TxMsg) : Store :=
  match runTx external p st msgs with
  | .error _ => st
  | .ok st' => st'

/-- What happens to the committed store: a transaction is delivered, or the pre-blocker of
the next block runs. -/
inductive Event where
  | tx (msgs : List TxMsg)
  | nextBlock (height : UInt64) (appHash : Bytes) (misbehavior : List Misbehavior)
      (txs : List Bytes)

def Event.apply (external : External) (p : Params) (st : Store) : Event → Store
  | .tx msgs => deliverTx external p st msgs
  | .nextBlock height appHash misbehavior txs =>
      preBlocker external p height appHash st misbehavior txs

def suspiciousStep (external : External) (p : Params) (st : Store) (event : Event) :
    Option Store :=
  let st' := event.apply external p st
  if st'.currState = .suspicious then some st' else none

section Queue

variable {external : External} {p : Params} {st st' : Store}

private theorem length_queue_routeMsg {msg : TxMsg}
    (accepted : routeMsg external st msg = .ok st') : st'.forcedTxQueueSlice.length ≤
      st.forcedTxQueueSlice.length + if isSubmitForcedTx msg then 1 else 0 := by
  cases msg with
  | other typeURL => cases accepted
  | sovereignty msg =>
      cases msg with
      | submitRecoveryProof msg =>
          obtain ⟨-, -, -, height, -, audit, rfl⟩ := submitRecoveryProof_cases accepted
          exact Nat.le_add_right _ _
      | submitForcedTx tx =>
          rw [submitForcedTx_cases accepted]
          exact OrderedMap.length_keys_set_le _ _ _
      | injectFault faultInputs =>
          obtain rfl : injectFault st faultInputs = st' := Except.ok.inj accepted
          cases faultInputs <;> exact Nat.le_add_right _ _

private theorem length_queue_runMsgs {msgs : List TxMsg}
    (accepted : runMsgs external st msgs = .ok st') : st'.forcedTxQueueSlice.length ≤
      st.forcedTxQueueSlice.length + msgs.countP isSubmitForcedTx := by
  induction msgs generalizing st with
  | nil =>
      obtain rfl := Except.ok.inj accepted
      exact Nat.le_add_right _ _
  | cons msg msgs ih =>
      rw [runMsgs] at accepted
      split at accepted
      · cases accepted
      · rename_i next routed
        have first := length_queue_routeMsg routed
        have rest := ih accepted
        rw [List.countP_cons]
        omega

private theorem throttle_ok {cap : UInt64} {count : ℕ} {msgs : List TxMsg}
    (passed : throttle cap count msgs = .ok ()) :
    msgs.countP isSubmitForcedTx = 0 ∨ count + msgs.countP isSubmitForcedTx ≤ cap.toNat := by
  induction msgs generalizing count with
  | nil => exact .inl rfl
  | cons msg msgs ih =>
      rw [throttle] at passed
      cases forced : isSubmitForcedTx msg with
      | false =>
          rw [forced] at passed
          rw [List.countP_cons_of_neg (by simp [forced])]
          exact ih passed
      | true =>
          rw [forced] at passed
          rw [List.countP_cons_of_pos forced]
          split_ifs at passed with full
          · cases full
          · rcases ih passed with none | fits <;> omega

private theorem length_queue_deliverTx (suspicious : st.currState = .suspicious)
    (msgs : List TxMsg) : (deliverTx external p st msgs).forcedTxQueueSlice.length ≤
      max st.forcedTxQueueSlice.length p.maxSuspiciousForcedTxQueue.toNat := by
  unfold deliverTx runTx
  cases admitted : anteHandle p st msgs with
  | error err => exact le_max_left _ _
  | ok =>
      cases ran : runMsgs external st msgs with
      | error err => exact le_max_left _ _
      | ok st' =>
          have grown := length_queue_runMsgs ran
          have counted : throttle p.maxSuspiciousForcedTxQueue st.forcedTxQueueSlice.length msgs =
              .ok () := by
            simpa [anteHandle, suspicious, withdrawLocked] using admitted
          change st'.forcedTxQueueSlice.length ≤ _
          rcases throttle_ok counted with none | fits <;> omega

private theorem length_queue_preBlocker (height : UInt64) (appHash : Bytes)
    (misbehavior : List Misbehavior) (txs : List Bytes) :
    (preBlocker external p height appHash st misbehavior txs).forcedTxQueueSlice.length ≤
      st.forcedTxQueueSlice.length := by
  have tracked : ∀ (included : Bytes → Bool) (entries : List (Bytes × UInt64)) (st : Store),
      (entries.foldl (trackForcedTx included) st).forcedTxQueueSlice.length ≤
        st.forcedTxQueueSlice.length := by
    intro included entries
    induction entries with
    | nil => exact fun st => le_rfl
    | cons entry entries ih =>
        intro st
        apply (ih _).trans
        unfold trackForcedTx
        split
        · exact OrderedMap.length_keys_remove_le _ _
        · exact le_rfl
  have recorded : (recordDetectedEvidence height st misbehavior).forcedTxQueueSlice =
      st.forcedTxQueueSlice := by
    rw [Store.forcedTxQueueSlice, (recordDetectedEvidence_forced height st misbehavior).1]
    rfl
  rw [← recorded]
  unfold preBlocker
  simp only
  split
  · exact tracked _ _ _
  · split <;> exact tracked _ _ _

private theorem deliverTx_of_rejected {msgs : List TxMsg} {err : String}
    (rejected : anteHandle p st msgs = .error err) : deliverTx external p st msgs = st := by
  simp only [deliverTx, runTx, rejected]

theorem deliverTx_singleton {msg : Msg}
    (admitted : anteHandle p st [.sovereignty msg] = .ok ()) :
    deliverTx external p st [.sovereignty msg] = deliver external st msg := by
  simp only [deliverTx, runTx, admitted, runMsgs, routeMsg, deliver]
  cases handleMsg external st msg <;> rfl

end Queue

/-- While the state stays SUSPICIOUS the queue never outgrows the larger of its size on
entry and the cap, and a rejected transaction does not touch it. -/
theorem suspicious_throttle {external : External} {p : Params} {start now : Store}
    {past : List (Move Store Event)} (entered : start.currState = .suspicious)
    (run : Run (suspiciousStep external p) start past now) :
    now.forcedTxQueueSlice.length ≤
        max start.forcedTxQueueSlice.length p.maxSuspiciousForcedTxQueue.toNat ∧
      ∀ msgs err, anteHandle p now msgs = .error err →
        (deliverTx external p now msgs).forcedTxQueue = now.forcedTxQueue := by
  have bounded : now.currState = .suspicious ∧ now.forcedTxQueueSlice.length ≤
      max start.forcedTxQueueSlice.length p.maxSuspiciousForcedTxQueue.toNat := by
    refine run.invariant (I := fun st => st.currState = .suspicious ∧
      st.forcedTxQueueSlice.length ≤
        max start.forcedTxQueueSlice.length p.maxSuspiciousForcedTxQueue.toNat)
      ⟨entered, le_max_left _ _⟩ ?_
    rintro st event next ⟨suspicious, within⟩ taken
    obtain ⟨stays, rfl⟩ := guarded_eq_some taken
    refine ⟨stays, ?_⟩
    cases event with
    | tx msgs =>
        exact (length_queue_deliverTx suspicious msgs).trans (max_le within (le_max_right _ _))
    | nextBlock height appHash misbehavior txs =>
        exact (length_queue_preBlocker height appHash misbehavior txs).trans within
  refine ⟨bounded.2, ?_⟩
  intro msgs err rejected
  rw [deliverTx_of_rejected rejected]

def twoForcedParams : Params := { defaultParams with maxSuspiciousForcedTxQueue := 2 }

/-- A duplicate pair fits, a single one fits, and then the queue is full. -/
theorem suspicious_throttle_full :
    ∃ past now, Run (suspiciousStep (.ofProposals [] fun _ _ => false) twoForcedParams)
        { fsmState := some .suspicious } past now ∧
      now.forcedTxQueueSlice = [[1], [2]] ∧
      anteHandle twoForcedParams now [.sovereignty (.submitForcedTx [3])] =
        .error errSuspiciousThrottle ∧
      (deliverTx (.ofProposals [] fun _ _ => false) twoForcedParams now
        [.sovereignty (.submitForcedTx [3])]).forcedTxQueue = now.forcedTxQueue := by
  obtain ⟨past, now, run, passed⟩ := exists_run_of_replayPasses
    (suspiciousStep (.ofProposals [] fun _ _ => false) twoForcedParams)
    { fsmState := some .suspicious }
    [.tx [.sovereignty (.submitForcedTx [1]), .sovereignty (.submitForcedTx [1])],
      .tx [.sovereignty (.submitForcedTx [2])]]
    (fun _ now => now.currState == .suspicious && now.forcedTxQueueSlice == [[1], [2]])
    (by decide +kernel)
  simp only [Bool.and_eq_true, beq_iff_eq] at passed
  have rejected : anteHandle twoForcedParams now [.sovereignty (.submitForcedTx [3])] =
      .error errSuspiciousThrottle := by
    simp only [anteHandle, passed.1, passed.2]
    rfl
  exact ⟨past, now, run, passed.2, rejected, (suspicious_throttle rfl run).2 _ _ rejected⟩

end Engram.App
