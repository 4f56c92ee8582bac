import Engram.Spec.ConsensusInvariants
import Engram.Spec.Server.RefinementExact

/-!
The safety of the abstract consensus read back on the certificates of `ServerSpec`, in the runs
that refine it.
-/

set_option autoImplicit false
set_option relaxedAutoImplicit false

namespace Engram.Spec.Server

open Engram.Types Engram.Library

variable {Node : Type} [DecidableEq Node] {k : RefinementConstants Node}
  {past : List (Move (State Node) (Action Node))} {now : State Node}

private theorem ServerRun.mapped_reachable (run : ServerRun k.toServerConstants past now)
    (conforms : ∀ m ∈ past, Conforms k m.source m.input) :
    Consensus.Reachable (abstractConstants k) (mapped k now) := by
  obtain ⟨start, initial, steps⟩ := run
  refine ⟨mapped k start, init_refines k initial, ?_⟩
  induction steps with
  | initial => exact .refl
  | extend before taken ih =>
      have older := fun m member => conforms m (List.mem_cons_of_mem _ member)
      have reached : ServerRun k.toServerConstants _ _ := ⟨start, initial, before⟩
      rcases refines_of_conforms (reached.pacemakerInvariant older)
        (conforms _ List.mem_cons_self) taken with next | same
      · exact (ih older).tail next
      · exact same ▸ ih older

private theorem eCache_mem {q : QuorumCert Node} (issued : q ∈ now.quorumCerts)
    (type : q.type = .eQC) : eCache k q ∈ mappedTree k now :=
  .inl (.inl (.inl ⟨q, issued, type, rfl⟩))

private theorem mCache_mem {q : QuorumCert Node} (issued : q ∈ now.quorumCerts)
    (type : q.type = .mQC) : mCache k q ∈ mappedTree k now :=
  .inl (.inl (.inr ⟨q, issued, type, rfl⟩))

private theorem eQC_of_mem {c : Consensus.Cache Node Value} (member : c ∈ mappedTree k now)
    (type : c.type = .e) : ∃ q ∈ now.quorumCerts, q.type = .eQC ∧ c = eCache k q := by
  rcases member with ((election | ⟨q, -, -, rfl⟩) | ⟨r, -, m, -, b, -, -, rfl⟩) | ⟨t, -, rfl⟩
  · exact election
  · cases type
  · cases type
  · cases type

/-- In a run whose steps conform: every `M_QC` rests on an `E_QC` of its leader in its round, a
round has one `T_QC`, and no certificate is of a later round than the furthest honest node or
carries an anchor above the Bitcoin tip. -/
theorem certificates_supported (run : ServerRun k.toServerConstants past now)
    (conforms : ∀ m ∈ past, Conforms k m.source m.input) :
    (∀ q ∈ now.quorumCerts, q.type = .mQC → ∃ e ∈ now.quorumCerts,
      e.type = .eQC ∧ e.round = q.round ∧ e.caller = q.caller) ∧
    (∀ t ∈ now.timeoutCerts, ∀ t' ∈ now.timeoutCerts, t.round = t'.round → t = t') ∧
    (∀ q ∈ now.quorumCerts, q.round ≤ currentMaxRound k.toServerConstants now ∧
      q.btcAnchored ≤ now.env.hBtcCurrent) ∧
    ∀ t ∈ now.timeoutCerts, t.round ≤ currentMaxRound k.toServerConstants now ∧
      t.btcAnchored ≤ now.env.hBtcCurrent := by
  have invariant := (run.mapped_reachable conforms).invariant
  have bounds : ∀ c ∈ mappedTree k now, c.certRound ≤ (mapped k now).round ∧
      c.btcAnchored ≤ (mapped k now).hBtcCurrent :=
    fun c member => ⟨(invariant.known c member).2.1, invariant.anchored.2 c member⟩
  refine ⟨fun q issued type => ?_, fun t issued t' issued' same => ?_, fun q issued => ?_,
    fun t issued => ?_⟩
  · obtain ⟨d, member, election, caller, round⟩ :=
      invariant.invoked _ (mCache_mem (k := k) issued type) rfl
    obtain ⟨e, eIssued, eType, rfl⟩ := eQC_of_mem member election
    exact ⟨e, eIssued, eType, Nat.succ.inj round, caller⟩
  · have one := invariant.timedOut _ (mem_tree_of_timeoutCert issued) _
      (mem_tree_of_timeoutCert issued') rfl rfl (congrArg Nat.succ same)
    simp only [tCache, Consensus.Cache.mk.injEq] at one
    obtain ⟨-, round, caller, -, -, anchor⟩ := one
    obtain ⟨round₁, caller₁, anchor₁⟩ := t
    obtain ⟨round₂, caller₂, anchor₂⟩ := t'
    simp only at round caller anchor
    obtain rfl := Nat.succ.inj round
    obtain rfl := Nat.add_right_cancel anchor
    rw [caller]
  · cases type : q.type with
    | eQC =>
        obtain ⟨round, anchor⟩ := bounds _ (eCache_mem (k := k) issued type)
        exact ⟨Nat.le_of_succ_le_succ round, Nat.le_of_add_le_add_right anchor⟩
    | mQC =>
        obtain ⟨round, anchor⟩ := bounds _ (mCache_mem (k := k) issued type)
        exact ⟨Nat.le_of_succ_le_succ round, Nat.le_of_add_le_add_right anchor⟩
  · obtain ⟨round, anchor⟩ := bounds _ (mem_tree_of_timeoutCert issued)
    exact ⟨Nat.le_of_succ_le_succ round, Nat.le_of_add_le_add_right anchor⟩

/-- The leader of round `0` proposes and votes, and the nodes move on. -/
theorem certificates_supported_conformingTrace :
    ∃ past now, ServerRun (checkedConstants oneByzantine fun _ => 0) past now ∧
      ∃ q ∈ now.quorumCerts, q.type = .mQC ∧
        ∃ e ∈ now.quorumCerts, e.type = .eQC ∧ e.round = q.round ∧ e.caller = q.caller := by
  obtain ⟨past, now, run, passed⟩ := exists_serverRun conformingTrace
    (fun moves s => decide ((∃ qc ∈ s.quorumCerts, qc.type = .mQC) ∧
      ∀ m ∈ moves, Conforms (checkedRefinement fun _ => 0) m.source m.input))
    (by decide +kernel : replayPasses
      (ServerNext (checkedConstants oneByzantine fun _ => 0)) _ conformingTrace _ = true)
  obtain ⟨⟨q, issued, type⟩, conforms⟩ := of_decide_eq_true passed
  obtain ⟨supported, -⟩ := certificates_supported (k := checkedRefinement fun _ => 0) run conforms
  exact ⟨past, now, run, q, issued, type, supported q issued type⟩

end Engram.Spec.Server
