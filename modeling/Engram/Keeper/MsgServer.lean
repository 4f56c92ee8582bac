import Engram.Keeper.Store

/-!
The message server. A refused message returns its error text and no store, so it
leaves the committed store as it was.
-/

set_option autoImplicit false
set_option relaxedAutoImplicit false

namespace Engram.Keeper

open Engram.Types

structure SubmitRecoveryProof where
  zkProof : Bytes
  publicInputs : Bytes
  daCelestiaHeight : UInt64
  deriving DecidableEq, Repr

inductive Msg where
  | submitRecoveryProof (msg : SubmitRecoveryProof)
  | submitForcedTx (tx : Bytes)
  | injectFault (faultInputs : Option PeripheralMetrics)

def errInvalidZKProof : String := "sovereignty: invalid zk recovery proof"

/-- Verify the proof, bind `rt_last` and `rt_new` to tracked state, then advance
the rolling checkpoint and prune the headers up to it. -/
def submitRecoveryProof (verifyZKProof : Bytes → Bytes → Bool) (st : Store)
    (msg : SubmitRecoveryProof) : Except String Store :=
  if !verifyZKProof msg.zkProof msg.publicInputs then .error errInvalidZKProof
  else if msg.publicInputs.length ≠ 96 then .error errInvalidZKProof
  else
    let rtLast := msg.publicInputs.take 32
    let rtNew := (msg.publicInputs.drop 32).take 32
    if st.lastAnchoredRoot ≠ some rtLast then .error errInvalidZKProof
    else
      match st.findHeaderByStateRoot rtNew with
      | none => .error errInvalidZKProof
      | some newCheckpointHeight =>
          let st := { st with lastAnchoredRoot := some rtNew }
          let st := st.pruneHeaderHistoryUpTo newCheckpointHeight
          let st := { st with realProofSubmittedHeight := newCheckpointHeight }
          if msg.daCelestiaHeight > 0 then
            .ok { st with recoveryProofDAHeights :=
              st.recoveryProofDAHeights.set newCheckpointHeight msg.daCelestiaHeight }
          else .ok st

def submitForcedTx (txDecoder : Option (Bytes → Except String Unit)) (st : Store)
    (tx : Bytes) : Except String Store :=
  let queued := { st with forcedTxQueue := st.forcedTxQueue.set tx () }
  match txDecoder with
  | none => .ok queued
  | some decoder =>
      match decoder tx with
      | .ok _ => .ok queued
      | .error err =>
          .error ("forced tx content does not decode as a valid tx " ++
            "(would be permanently unsatisfiable): " ++ err)

theorem submitForcedTx_cases {txDecoder : Option (Bytes → Except String Unit)} {st st' : Store}
    {tx : Bytes} (accepted : submitForcedTx txDecoder st tx = .ok st') :
    st' = { st with forcedTxQueue := st.forcedTxQueue.set tx () } := by
  unfold submitForcedTx at accepted
  split at accepted
  · exact (Except.ok.inj accepted).symm
  · split at accepted
    · exact (Except.ok.inj accepted).symm
    · cases accepted

def injectFault (st : Store) (faultInputs : Option PeripheralMetrics) : Store :=
  match faultInputs with
  | some metrics => { st with metrics := some metrics }
  | none => st

theorem submitRecoveryProof_accepts {verifyZKProof : Bytes → Bytes → Bool} {st : Store}
    (msg : SubmitRecoveryProof) {height : UInt64}
    (verified : verifyZKProof msg.zkProof msg.publicInputs = true)
    (length : msg.publicInputs.length = 96)
    (last : st.lastAnchoredRoot = some (msg.publicInputs.take 32))
    (found : st.findHeaderByStateRoot ((msg.publicInputs.drop 32).take 32) = some height) :
    ∃ st', submitRecoveryProof verifyZKProof st msg = .ok st' := by
  simp only [submitRecoveryProof, verified, length, last, found, Bool.not_true,
    Bool.false_eq_true, if_false, ne_eq, not_true_eq_false]
  split
  · exact ⟨_, rfl⟩
  · exact ⟨_, rfl⟩

/-- Everything an accepted recovery proof implies about the store it ran on, and
every field it writes. -/
theorem submitRecoveryProof_cases {verifyZKProof : Bytes → Bytes → Bool} {st st' : Store}
    {msg : SubmitRecoveryProof}
    (accepted : submitRecoveryProof verifyZKProof st msg = .ok st') :
    verifyZKProof msg.zkProof msg.publicInputs = true ∧ msg.publicInputs.length = 96 ∧
      st.lastAnchoredRoot = some (msg.publicInputs.take 32) ∧
      ∃ height, st.findHeaderByStateRoot ((msg.publicInputs.drop 32).take 32) = some height ∧
        ∃ audit, st' = { st with
          lastAnchoredRoot := some ((msg.publicInputs.drop 32).take 32)
          headerHistory := (st.pruneHeaderHistoryUpTo height).headerHistory
          realProofSubmittedHeight := height
          recoveryProofDAHeights := audit } := by
  unfold submitRecoveryProof at accepted
  cases verified : verifyZKProof msg.zkProof msg.publicInputs with
  | false => simp [verified] at accepted
  | true =>
      by_cases length : msg.publicInputs.length = 96
      · by_cases last : st.lastAnchoredRoot = some (msg.publicInputs.take 32)
        · cases found : st.findHeaderByStateRoot ((msg.publicInputs.drop 32).take 32) with
          | none => simp [verified, length, last, found] at accepted
          | some height =>
              refine ⟨rfl, length, last, height, rfl, ?_⟩
              simp only [verified, length, last, found, Bool.not_true, Bool.false_eq_true,
                if_false, ne_eq, not_true_eq_false] at accepted
              split at accepted
              · exact ⟨_, (Except.ok.inj accepted).symm⟩
              · exact ⟨st.recoveryProofDAHeights, (Except.ok.inj accepted).symm⟩
        · simp [verified, length, last] at accepted
      · simp [verified, length] at accepted

end Engram.Keeper
