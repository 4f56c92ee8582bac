import Engram.Chain.Step
import Engram.Circuit.Reanchoring

/-!
What an accepted recovery proof covers. The circuit binds two roots and a count;
the keeper binds the two roots to its store. Neither side binds the headers in
between, nor the state code of the last one, to the tracked headers.
-/

set_option autoImplicit false
set_option relaxedAutoImplicit false

namespace Engram.Chain

open Engram.Types Engram.Keeper Engram.Node Engram.Library Engram.Circuit

/-- The prover's encoding of a tracked state. -/
def fsmStateToField (state : FSMState) : Field := if state = .recovering then 3 else 2

def boolToField (b : Bool) : Field := if b then 1 else 0

def Agrees (h : Header) (tracked : RecoveryHeader) : Prop :=
  h.fsmState = fsmStateToField tracked.fsmState ∧
    h.withdrawalLocked = boolToField tracked.withdrawalLocked ∧
    fillBytes h.stateRoot.val = tracked.stateRoot

def removedHeaders (before after : Store) : List (UInt64 × RecoveryHeader) :=
  before.headerHistory.entries.filter (fun kv => !after.headerHistory.contains kv.1)

/-- The public inputs count the removed headers, and every satisfying witness
agrees with them. -/
def Covers (poseidon2Permutation : Sponge → Sponge) (before after : Store) (inputs : Bytes) :
    Prop :=
  ∀ rtLast rtNew count, inputs = publicInputs rtLast rtNew count →
    count.toNat = (removedHeaders before after).length ∧
      ∀ headers, Main poseidon2Permutation rtLast rtNew count headers →
        ∀ (i : Fin 256) (removed : UInt64 × RecoveryHeader), i.val < count.toNat →
          (removedHeaders before after)[i.val]? = some removed → Agrees (headers i) removed.2

/-- No accepted recovery proof covers what it removes: recoding the last header of
a satisfying witness gives another one, and both cannot agree with the same
tracked header. -/
theorem accepted_proof_not_covering {poseidon2Permutation : Sponge → Sponge}
    {verifyZKProof : Bytes → Bytes → Bool} (sound : Sound poseidon2Permutation verifyZKProof)
    {before after : Store} {msg : SubmitRecoveryProof}
    (accepted : submitRecoveryProof verifyZKProof before msg = .ok after) :
    ¬ Covers poseidon2Permutation before after msg.publicInputs := by
  intro covers
  obtain ⟨verified, _⟩ := submitRecoveryProof_cases accepted
  obtain ⟨rtLast, rtNew, count, headers, encoded, satisfied⟩ := sound _ _ verified
  obtain ⟨counted, agree⟩ := covers rtLast rtNew count encoded
  have nonempty := satisfied.nonempty
  have fits : count.toNat ≤ 256 := satisfied.fits
  let last : Fin 256 := ⟨count.toNat - 1, by omega⟩
  have isLast : last.val + 1 = count.toNat := by
    change count.toNat - 1 + 1 = count.toNat
    omega
  obtain ⟨removed, listed⟩ : ∃ removed,
      (removedHeaders before after)[last.val]? = some removed :=
    ⟨_, List.getElem?_eq_getElem (by omega)⟩
  have original := (agree headers satisfied last removed (by omega) listed).1
  have recoded := (agree _ (satisfied.recode_last isLast) last removed (by omega) listed).1
  rw [recode, Function.update_self] at recoded
  exact otherCode_ne (satisfied.policy last (by omega)) (recoded.trans original.symm)

section Skipping

def skippingProof : SubmitRecoveryProof := ⟨[], publicInputs 1 3 1, 0⟩

def skippingExternal : External :=
  .ofProposals [attestedProposal .sovereign false 0 0, attestedProposal .recovering true 0 0]
    (fun _ inputs => inputs == skippingProof.publicInputs)

def skippingChain : Chain :=
  replayFinal (decideBlock skippingExternal defaultParams) genesisChain
    [proposalBlock (outageSensors 0) (attestedProposal .sovereign false 0 0) [1] [],
      proposalBlock (liveSensors 4 0) (attestedProposal .recovering true 0 0) [2] []]

def skippingBlock : Block :=
  proposalBlock (liveSensors 4 0) (attestedProposal .recovering true 0 0) [3]
    [.submitRecoveryProof skippingProof]

private theorem skippingExternal_sound (poseidon2Permutation : Sponge → Sponge) :
    Sound poseidon2Permutation skippingExternal.verifyZKProof := by
  intro proof inputs verified
  exact ⟨1, 3, 1, _, beq_iff_eq.mp verified, Main.single 1 3⟩

def skippingStore : Store :=
  afterPreBlock skippingExternal defaultParams skippingChain skippingBlock

private theorem skipping_accepted :
    ∃ after, submitRecoveryProof skippingExternal.verifyZKProof skippingStore skippingProof =
        .ok after ∧ (removedHeaders skippingStore after).length = 3 := by
  have outcome : (submitRecoveryProof skippingExternal.verifyZKProof skippingStore
      skippingProof).toOption.any
        (fun after => (removedHeaders skippingStore after).length == 3) = true := by
    decide +kernel
  cases handled : submitRecoveryProof skippingExternal.verifyZKProof skippingStore
      skippingProof with
  | error _ =>
      rw [handled] at outcome
      cases outcome
  | ok after =>
      rw [handled] at outcome
      exact ⟨after, rfl, beq_iff_eq.mp outcome⟩

theorem skipping_proof_not_covering :
    ∃ after, submitRecoveryProof skippingExternal.verifyZKProof skippingStore skippingProof =
        .ok after ∧
      ¬ Covers id skippingStore after skippingProof.publicInputs := by
  obtain ⟨after, accepted, _⟩ := skipping_accepted
  exact ⟨after, accepted, accepted_proof_not_covering (skippingExternal_sound id) accepted⟩

/-- In a reachable store a proof of one header removes the headers of three
blocks. -/
theorem proof_prunes_unproven_headers :
    (∃ past, ChainRun skippingExternal defaultParams past skippingChain) ∧
      (decideBlock skippingExternal defaultParams skippingChain skippingBlock).isSome = true ∧
      ∃ after, submitRecoveryProof skippingExternal.verifyZKProof skippingStore skippingProof =
          .ok after ∧
        ∀ poseidon2Permutation : Sponge → Sponge,
          Sound poseidon2Permutation skippingExternal.verifyZKProof ∧
          ¬ Covers poseidon2Permutation skippingStore after skippingProof.publicInputs := by
  obtain ⟨after, accepted, removed⟩ := skipping_accepted
  refine ⟨exists_run_replayFinal _ _ _, by decide +kernel, after, accepted, ?_⟩
  intro poseidon2Permutation
  refine ⟨skippingExternal_sound poseidon2Permutation, fun covers => ?_⟩
  have counted := (covers 1 3 1 rfl).1
  rw [removed] at counted
  exact absurd counted (by decide)

end Skipping

end Engram.Chain
