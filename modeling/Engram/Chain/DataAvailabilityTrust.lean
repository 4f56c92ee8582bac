import Engram.Chain.Step

/-!
How far a validator trusts a leader's DA height. The receipt is checked against a
freshness window that ends at the validator's current height, not at the height
its own publisher has verified.
-/

set_option autoImplicit false
set_option relaxedAutoImplicit false

namespace Engram.Chain

open Engram.Types Engram.Keeper Engram.Node Engram.Library

/-- The heights a validator may take without trust: the one already agreed and
the one its own publisher has verified. -/
def knownDAHeight (st : Store) (s : Sensors) : UInt64 :=
  max st.hEngramVerified ((s.daPublisher.bind DAAvailabilitySource.verifiedHeight).getD 0)

def claimsAvailability (ext : ExtendedProposal) : Prop :=
  ext.fsmState = .anchored ∨ ext.fsmState = .recovering

section Window

variable {p : Params} {s : Option Sensors} {height : UInt64} {committed : Store}
  {ext : ExtendedProposal} {innerTxs : List Bytes} {round : UInt64}

private theorem requiresCheck_of_claims (claims : claimsAvailability ext) (healthy : Bool) :
    requiresCheck ext.fsmState healthy = true := by
  rcases claims with state | state <;> simp [requiresCheck, state]

private theorem accepted_published_le (claims : claimsAvailability ext)
    (accepted : processExtended p s height committed ext innerTxs round = true) :
    ext.daReceipt.publishedBlockHeight ≤ (refreshMetrics p height committed s).hEngramCurrent := by
  obtain ⟨_, _, _, available, _⟩ := (processExtended_iff _ _ _ _ _ _ _).mp accepted
  exact ((DA.verifyReceipt_iff _ _ _ _ _ _).mp available (requiresCheck_of_claims claims _)).2.1

private theorem accepted_raised (claims : claimsAvailability ext)
    (accepted : processExtended p s height committed ext innerTxs round = true) :
    processExtended p s height committed { ext with daReceipt :=
      { ext.daReceipt with publishedBlockHeight :=
        (refreshMetrics p height committed s).hEngramCurrent } } innerTxs round = true := by
  rw [processExtended_iff] at accepted ⊢
  obtain ⟨included, state, healthy, available, settled, confirmed, unlocked, gate⟩ := accepted
  obtain ⟨attested, below, fresh⟩ :=
    (DA.verifyReceipt_iff _ _ _ _ _ _).mp available (requiresCheck_of_claims claims _)
  refine ⟨included, state, healthy, ?_, settled, confirmed, unlocked, ?_⟩
  · rw [DA.verifyReceipt_iff]
    exact fun _ => ⟨attested, le_refl _, le_trans fresh below⟩
  · unfold ReanchoringGate at gate ⊢
    split
    · rename_i gated
      rw [if_pos gated] at gate
      exact ⟨gate.1, gate.2.1, lt_of_lt_of_le gate.2.2 below⟩
    · rename_i free
      rwa [if_neg free] at gate

end Window

/-- A validator accepts no DA height on trust exactly when its current height, which is
the height being decided once a live DA source is wired, is itself agreed or verified, or
when it accepts no ANCHORED or RECOVERING proposal at all. -/
theorem da_untrusted_iff (p : Params) (s : Sensors) (height : UInt64) (committed : Store) :
    (∀ ext innerTxs round, claimsAvailability ext →
        processExtended p (some s) height committed ext innerTxs round = true →
        ext.daReceipt.publishedBlockHeight ≤ knownDAHeight committed s) ↔
      (if s.da.source.isSome then height else committed.hEngramCurrent) ≤
          knownDAHeight committed s ∨
        ∀ ext innerTxs round, claimsAvailability ext →
          processExtended p (some s) height committed ext innerTxs round = false := by
  constructor
  · intro untrusted
    by_contra neither
    push Not at neither
    obtain ⟨unknown, ext, innerTxs, round, claims, accepted⟩ := neither
    have raised := accepted_raised claims ((Bool.not_eq_false _).mp accepted)
    refine absurd (untrusted _ innerTxs round ?_ raised) (not_le.mpr unknown)
    exact claims
  · rintro (known | refused) ext innerTxs round claims accepted
    · exact le_trans (accepted_published_le claims accepted) known
    · rw [refused ext innerTxs round claims] at accepted
      cases accepted

def forgedAttestation : ExtendedProposal := attestedProposal .anchored true 1 0

theorem da_untrusted_verified :
    processExtended defaultParams (some (liveSensors 4 1)) 1 genesisStore forgedAttestation [] 0 =
        true ∧
      ∀ ext innerTxs round, claimsAvailability ext →
        processExtended defaultParams (some (liveSensors 4 1)) 1 genesisStore ext innerTxs round =
          true → ext.daReceipt.publishedBlockHeight ≤ 1 := by
  have accepted : processExtended defaultParams (some (liveSensors 4 1)) 1 genesisStore
      forgedAttestation [] 0 = true := by
    decide
  exact ⟨accepted, (da_untrusted_iff _ _ _ _).mpr (.inl (by decide))⟩

/-- At genesis a validator whose publisher has verified nothing accepts a leader's
claim that block 1 is already available. -/
theorem da_claim_taken_on_trust :
    ∃ past now, ChainRun (.ofProposals [forgedAttestation] (fun _ _ => false)) defaultParams
        past now ∧
      processProposal (.ofProposals [forgedAttestation] (fun _ _ => false)) defaultParams
        (some (liveSensors 4 0)) now.nextHeight now.store
        ⟨[encodeExtendedProposal forgedAttestation], 0⟩ = true ∧
      claimsAvailability forgedAttestation ∧
      ¬ forgedAttestation.daReceipt.publishedBlockHeight ≤
        knownDAHeight now.store (liveSensors 4 0) :=
  ⟨[], genesisChain, .initial, by decide +kernel, .inl rfl, by decide⟩

end Engram.Chain
