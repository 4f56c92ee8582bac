import Engram.Spec.Server.Refinement

/-!
Conformance is necessary: after conforming steps, a step that does not conform adds a
cache no abstract action adds, or leaves the round with no abstract reason to.
-/

set_option autoImplicit false
set_option relaxedAutoImplicit false

namespace Engram.Spec.Server

open Engram.Types Engram.Library

variable {Node : Type} [DecidableEq Node]

section Observations

variable {k : RefinementConstants Node} {s s' : State Node} {a : Action Node}

theorem RefinesStep.tree_cases (refines : RefinesStep k ⟨s, a, s'⟩)
    {x : Consensus.Cache Node Value} (added : x ∈ mappedTree k s') (fresh : x ∉ mappedTree k s) :
    x.certRound = maxRoundOf k s + 1 ∧ maxRoundOf k s' = maxRoundOf k s ∧
      (x.type = .m → ∃ v ∈ k.method, x.method = some v) ∧
      (x.type = .c → mappedLocalTimes k s' = mappedLocalTimes k s) := by
  rcases refines with step | same
  · rcases step.tree_cases added with old | ⟨atRound, kept, method, times⟩
    · exact absurd old fresh
    · exact ⟨atRound, Nat.succ.inj kept, method, times⟩
  · have tree : mappedTree k s' = mappedTree k s := congrArg Consensus.State.tree same
    rw [tree] at added
    exact absurd added fresh

private theorem RefinesStep.mayLeave (invariant : PacemakerInvariant k s)
    (refines : RefinesStep k ⟨s, a, s'⟩) (moved : maxRoundOf k s' ≠ maxRoundOf k s) :
    MayLeave k s := by
  rcases refines with step | same
  · rcases step.round_cases with kept | expired | ⟨x, member, isCT, atRound⟩
    · exact absurd (Nat.succ.inj kept) moved
    · rw [invariant.mapped_eq] at expired
      exact .inl (timerRanOut_iff.mpr expired)
    · rcases mem_tree_cases member with ⟨qc, -, rfl⟩ | commit | ⟨tc, issued, rfl⟩
      · exact absurd rfl (ne_certCache isCT qc)
      · exact absurd commit invariant.no_cCache
      · exact .inr ⟨tc, issued, Nat.succ.inj atRound⟩
  · exact absurd (Nat.succ.inj (congrArg Consensus.State.round same)) moved

private theorem leave_of_refines (invariant : PacemakerInvariant k s)
    (refines : RefinesStep k ⟨s, a, s'⟩) {p : Node} (honest : p ∈ k.honestNodes)
    (entered : s'.round p = s.round p + 1) (atMax : s.round p = maxRoundOf k s) :
    MayLeave k s := by
  have reached : s'.round p ≤ maxRoundOf k s' := round_le_max honest
  exact refines.mayLeave invariant (by omega)

private theorem certCache_fresh (invariant : PacemakerInvariant k s) {qc : QuorumCert Node}
    (first : ∀ q ∈ s.quorumCerts, q.type = qc.type → q.round = qc.round → q.caller ≠ qc.caller) :
    certCache k qc ∉ mappedTree k s := by
  intro member
  rcases mem_tree_cases member with ⟨q, issued, same⟩ | commit | ⟨tc, -, same⟩
  · have sameRound := congrArg Consensus.Cache.certRound same
    rw [certRound_certCache, certRound_certCache] at sameRound
    have sameCaller := congrArg Consensus.Cache.caller same
    rw [caller_certCache, caller_certCache] at sameCaller
    have sameType := type_eq_of_certCache_eq same
    exact first q issued sameType.symm (Nat.succ.inj sameRound).symm sameCaller.symm
  · exact absurd commit invariant.no_cCache
  · exact ne_certCache (.inr rfl) qc same.symm

private theorem quorumCert_atMax (invariant : PacemakerInvariant k s)
    (refines : RefinesStep k ⟨s, a, s'⟩) {qc : QuorumCert Node} (issued : qc ∈ s'.quorumCerts)
    (first : ∀ q ∈ s.quorumCerts, q.type = qc.type → q.round = qc.round → q.caller ≠ qc.caller) :
    qc.round = maxRoundOf k s ∧ maxRoundOf k s' = maxRoundOf k s ∧
      (qc.type = .mQC → ∃ v ∈ k.method, qc.method = some v) := by
  obtain ⟨atRound, kept, method, -⟩ := refines.tree_cases (mem_tree_of_quorumCert issued)
    (certCache_fresh invariant first)
  rw [certRound_certCache] at atRound
  refine ⟨Nat.succ.inj atRound, kept, fun isM => ?_⟩
  unfold certCache at method
  rw [isM] at method
  exact method rfl

private theorem timeoutCert_atMax (invariant : PacemakerInvariant k s)
    (refines : RefinesStep k ⟨s, a, s'⟩) {tc : TimeoutCert Node} (issued : tc ∈ s'.timeoutCerts)
    (first : ∀ t ∈ s.timeoutCerts, t.round ≠ tc.round) : tc.round = maxRoundOf k s := by
  have fresh : tCache k tc ∉ mappedTree k s := by
    intro member
    rcases mem_tree_cases member with ⟨qc, -, same⟩ | commit | ⟨t, old, same⟩
    · exact ne_certCache (.inr rfl) qc same
    · exact absurd commit invariant.no_cCache
    · exact first t old (Nat.succ.inj (congrArg Consensus.Cache.certRound same)).symm
  exact Nat.succ.inj (refines.tree_cases (mem_tree_of_timeoutCert issued) fresh).1

private theorem no_commit_of_refines (invariant : PacemakerInvariant k s)
    (refines : RefinesStep k ⟨s, a, s'⟩) (sameCerts : s'.quorumCerts = s.quorumCerts) {r : ℕ}
    {b : Proposal} {m : Vote Node} (bound : r ≤ k.maxRound) (cast : m ∈ s'.msgsPrecommit r)
    (voted : m.id = some b)
    (quorum : Core.QuorumFor k.toServerConstants s'.msgsPrecommit r b) : False := by
  have commit : cCache k r b ∈ mappedCCaches k s' := ⟨r, bound, m, cast, b, voted, quorum, rfl⟩
  have fresh : cCache k r b ∉ mappedTree k s := by
    intro member
    rcases mem_tree_cases member with ⟨qc, -, same⟩ | old | ⟨tc, -, same⟩
    · exact ne_certCache (.inl rfl) qc same
    · exact invariant.no_cCache old
    · cases congrArg Consensus.Cache.type same
  obtain ⟨atRound, -, -, times⟩ := refines.tree_cases (.inl (.inr commit)) fresh
  have atMax : r = maxRoundOf k s := Nat.succ.inj atRound
  obtain ⟨n, member⟩ := exists_mem_abstractQuorum (k := k)
  have sameTime := congrFun (times rfl) n
  simp only [mappedLocalTimes, if_pos member] at sameTime
  have before : sSup (participatedRounds k s) ≤ maxRoundOf k s + 1 := by
    apply csSup_le ⟨0, .inl (.inl rfl)⟩
    rintro t ((rfl | ⟨qc, issued, isE, rfl⟩) | ⟨x, old, -⟩)
    · exact Nat.zero_le _
    · exact Nat.succ_le_succ (invariant.eQC_leader qc issued isE).2.1
    · exact absurd old invariant.no_cCache
  have bounded : BddAbove (participatedRounds k s') := by
    refine ⟨maxRoundOf k s + k.maxRound + 2, ?_⟩
    rintro t ((rfl | ⟨qc, issued, isE, rfl⟩) | ⟨x, ⟨r', bound', -, -, -, -, -, rfl⟩, rfl⟩)
    · exact Nat.zero_le _
    · rw [sameCerts] at issued
      have low := (invariant.eQC_leader qc issued isE).2.1
      omega
    · change r' + 1 + 1 ≤ _
      omega
  have after : r + 1 + 1 ≤ sSup (participatedRounds k s') :=
    le_csSup bounded (.inr ⟨cCache k r b, commit, rfl⟩)
  omega

end Observations

section Exactness

variable {k : RefinementConstants Node} {s s' : State Node}

private theorem startRound_round {r : ℕ} {p : Node} (sameRound : r = s.round p + 1)
    (taken : StartRound k.toServerConstants s p r = some s') : s'.round p = s.round p + 1 := by
  obtain ⟨-, -, rfl⟩ := startRound_some taken
  rw [← sameRound]
  exact Function.update_self _ _ _

private theorem round_of_censors {handler : ProposeHandler} {msg : ProposalMsg Node} {p : Node}
    (censors : Censors k s p handler msg)
    (taken : handler.run k.toServerConstants s p msg = some s') :
    s'.round p = s.round p + 1 := by
  obtain ⟨rfl, censoring⟩ := censors
  simp only [ProposeHandler.run, UponProposalInPropose, censoring, if_true] at taken
  split at taken
  · split at taken
    · obtain ⟨-, -, rfl⟩ := startRound_some taken
      exact Function.update_self _ _ _
    · cases taken
  · cases taken

private theorem lock_count (invariant : PacemakerInvariant k s) {p : Node} {b : Proposal}
    (honest : p ∈ k.honestNodes) (atPrevote : s.step p = .prevote)
    (reached : k.threshold2 ≤ (votesFor (s.msgsPrecommit (s.round p)) (some b)).card + 1) :
    Core.QuorumFor k.toServerConstants (Function.update s.msgsPrecommit (s.round p)
      (insert ⟨p, s.round p, some b⟩ (s.msgsPrecommit (s.round p)))) (s.round p) b := by
  have absent : (⟨p, s.round p, some b⟩ : Vote Node) ∉ s.msgsPrecommit (s.round p) := by
    intro member
    have past := invariant.core.timeline.precommit_past _ _ member honest
    have stage : s.core.stage p = 4 * s.round p + 1 := Core.stage_of_step (c := s.core) atPrevote
    simp only at past
    omega
  unfold Core.QuorumFor
  rw [Function.update_self, votesFor, Finset.filter_insert, if_pos rfl,
    Finset.card_insert_of_notMem (fun member => absent (Finset.mem_filter.mp member).1)]
  exact reached

private theorem insert_conforms (invariant : PacemakerInvariant k s) {p : Node} {v : Value}
    {proofFound : Bool} (honest : p ∈ k.honestNodes) (refines : RefinesStep k
      ⟨s, .messageProcessing p (.serverInsertProposal v proofFound), s'⟩)
    (taken : ServerInsertProposal k.toServerConstants s p v proofFound = some s') :
    s.round p = maxRoundOf k s := by
  obtain ⟨-, leader, -, fresh, -, rfl⟩ := serverInsertProposal_some taken
  have atMax := quorumCert_atMax invariant refines (Finset.mem_insert_self _ _) ?_
  · exact atMax.1
  · intro q issued isE atRound _
    exact invariant.no_eQC honest leader fresh q issued isE atRound

private theorem votes_conform (invariant : PacemakerInvariant k s) {p : Node}
    {handler : ProposeHandler} {msg own : ProposalMsg Node} (honest : p ∈ k.honestNodes)
    (refines : RefinesStep k
      ⟨s, .messageProcessing p (.serverProposerVotes handler msg own), s'⟩)
    (taken : ServerProposerVotes k.toServerConstants s p handler msg own = some s') :
    MessageConforms k s p (.serverProposerVotes handler msg own) := by
  obtain ⟨handled, ran, ⟨leader, present, source, rfl⟩ | ⟨follows, rfl⟩⟩ :=
    serverProposerVotes_some taken
  · have atPropose := (handler_cases ran).1
    have certified := quorumCert_atMax invariant refines (Finset.mem_insert_self _ _) ?_
    · obtain ⟨atMax, kept, method⟩ := certified
      obtain ⟨v, known, same⟩ := method rfl
      refine ⟨fun _ => ⟨atMax, Option.some.inj same ▸ known, fun censors => ?_⟩,
        fun follows => absurd ⟨leader, own, present, source⟩ follows⟩
      have entered : handled.round p = s.round p + 1 := round_of_censors censors ran
      have reached : handled.round p ≤ maxRoundOf k s := kept ▸ round_le_max honest
      have current : s.round p = maxRoundOf k s := atMax
      omega
    · intro q issued isM atRound calledBy
      have calls : q.caller = p := calledBy
      have voted := (invariant.mQC_voted q issued isM).2 (calls ▸ honest)
      have sameRound : q.round = s.round p := atRound
      have stage : s.core.stage p = 4 * s.round p := Core.stage_of_step (c := s.core) atPropose
      rw [calls, sameRound, stage] at voted
      omega
  · refine ⟨fun leads => absurd leads follows, fun _ censors atMax => ?_⟩
    exact leave_of_refines invariant refines honest (round_of_censors censors ran) atMax

private theorem message_conforms_of_refines (invariant : PacemakerInvariant k s) {p : Node}
    {m : MessageAction Node} (honest : p ∈ k.honestNodes)
    (taken : ServerMessageProcessing k.toServerConstants s p m = some s')
    (refines : RefinesStep k ⟨s, .messageProcessing p m, s'⟩) : MessageConforms k s p m := by
  cases m with
  | uponProposalInPropose msg =>
      intro censors atMax
      have ran : ProposeHandler.run k.toServerConstants s p .uponProposalInPropose msg = some s' :=
        taken
      exact leave_of_refines invariant refines honest (round_of_censors censors ran) atMax
  | uponProposalInPrevoteOrCommitAndPrevote msg =>
      intro atPrevote
      by_contra full
      have reached := Nat.le_of_not_lt full
      obtain ⟨-, -, ⟨-, rfl⟩ | ⟨precommitted, -⟩⟩ := uponPrevoteQuorum_some taken
      · exact no_commit_of_refines invariant refines rfl (invariant.round_le p honest)
          ((mem_update_insert _ _ _ _ _).mpr (.inr ⟨rfl, rfl⟩)) rfl
          (lock_count invariant honest atPrevote reached)
      · exact precommitted atPrevote
  | uponQuorumOfPrecommitsAny =>
      intro atMax
      exact leave_of_refines invariant refines honest
        (startRound_round rfl (uponPrecommitQuorum_some taken)) atMax
  | serverInsertProposal v proofFound => exact insert_conforms invariant honest refines taken
  | serverProposerVotes handler msg own => exact votes_conform invariant honest refines taken
  | serverUponTimeoutCert =>
      obtain ⟨guard, rfl⟩ := guarded_eq_some taken
      apply timeoutCert_atMax invariant refines (Finset.mem_insert_self _ _)
      intro t issued atRound
      exact guard.2 ⟨t, issued, atRound⟩
  | _ => trivial

private theorem conforms_of_refines (invariant : PacemakerInvariant k s) {a : Action Node}
    (taken : ServerNext k.toServerConstants s a = some s')
    (refines : RefinesStep k ⟨s, a, s'⟩) : Conforms k s a := by
  cases a with
  | messageProcessing p m =>
      obtain ⟨guard, processed⟩ := Option.ite_none_right_eq_some.mp taken
      exact message_conforms_of_refines invariant guard.2 processed refines
  | byzantinePull r =>
      obtain ⟨guard, rfl⟩ := guarded_eq_some taken
      have atMax := quorumCert_atMax invariant refines (Finset.mem_insert_self _ _) ?_
      · exact atMax.1
      · intro q issued isE atRound calledBy
        exact guard.2.2.2.1 ⟨q, issued, isE, atRound, calledBy⟩
  | byzantineDataWithholding r tx =>
      obtain ⟨-, empty, -, -, -, rfl⟩ := serverDataWithholding_some taken
      have known := quorumCert_atMax invariant refines (Finset.mem_insert_self _ _) ?_
      · obtain ⟨v, member, same⟩ := known.2.2 rfl
        exact Option.some.inj same ▸ member
      · intro q issued isM atRound _
        obtain ⟨m, present⟩ := (invariant.mQC_voted q issued isM).1
        rw [show q.round = r from atRound, empty] at present
        cases present
  | honestTimeout r caller =>
      obtain ⟨guard, rfl⟩ := guarded_eq_some taken
      apply timeoutCert_atMax invariant refines (Finset.mem_insert_self _ _)
      intro t issued atRound
      exact guard.2.2.2.2.1 ⟨t, issued, atRound⟩
  | _ => trivial

end Exactness

section Refinement

variable {k : RefinementConstants Node} {past : List (Move (State Node) (Action Node))}
  {now : State Node}

theorem init_refines (k : RefinementConstants Node) {start : State Node}
    (initial : ServerInit k.toServerConstants start) :
    Consensus.Init (abstractConstants k) (mapped k start) := by
  obtain ⟨clock, -, rfl⟩ := initial
  rw [(PacemakerInvariant.initial k clock).mapped_eq]
  have top : k.honestNodes.sup (fun _ : Node => 0) = 0 := by
    apply Nat.le_zero.mp
    exact Finset.sup_le fun _ _ => Nat.le_refl 0
  obtain ⟨q, honest⟩ := k.system.exists_mem_honest
  have tree : shellTree k (initialState k.toServerConstants clock).shell = ∅ := by
    ext x
    constructor
    · rintro (⟨qc, issued, -⟩ | ⟨tc, issued, -⟩)
      · cases issued
      · cases issued
    · intro member
      cases member
  have times : sSup (electedRounds (initialState k.toServerConstants clock).shell) = 0 := by
    apply Nat.le_zero.mp
    apply sSup_electedRounds_le
    intro qc issued
    cases issued
  refine Consensus.State.ext tree ?_ (congrArg Nat.succ top) ?_ rfl (Nat.zero_add _)
    (Nat.zero_add _)
  · funext n
    change (if n ∈ abstractQuorum k then sSup (electedRounds _) else 0) = 0
    rw [times]
    split_ifs <;> rfl
  · exact sInf_shellTimers_eq honest top.symm fun _ _ _ => Nat.le_refl _

theorem ServerRun.tail {m : Move (State Node) (Action Node)}
    (run : ServerRun k.toServerConstants (m :: past) now) :
    ServerRun k.toServerConstants past m.source ∧
      ServerNext k.toServerConstants m.source m.input = some m.target := by
  obtain ⟨start, initial, steps⟩ := run
  cases steps with
  | extend before taken => exact ⟨⟨start, initial, before⟩, taken⟩

/-- A run refines the abstract consensus, initially and at every step, exactly when all
its steps conform. -/
theorem refinement_iff (run : ServerRun k.toServerConstants past now) :
    ((∀ start, ServerInit k.toServerConstants start →
        Consensus.Init (abstractConstants k) (mapped k start)) ∧
      ∀ m ∈ past, RefinesStep k m) ↔
    ∀ m ∈ past, Conforms k m.source m.input := by
  have steps : (∀ m ∈ past, RefinesStep k m) ↔ ∀ m ∈ past, Conforms k m.source m.input := by
    induction past generalizing now with
    | nil => simp
    | cons m past ih =>
        obtain ⟨before, taken⟩ := run.tail
        constructor
        · intro refines
          have older := (ih before).mp fun m' member => refines m' (List.mem_cons_of_mem _ member)
          have newest := conforms_of_refines (before.pacemakerInvariant older) taken
            (refines m (List.mem_cons_self ..))
          intro m' member
          rcases List.mem_cons.mp member with rfl | old
          · exact newest
          · exact older m' old
        · intro conforms
          have older : ∀ m' ∈ past, Conforms k m'.source m'.input :=
            fun m' member => conforms m' (List.mem_cons_of_mem _ member)
          intro m' member
          rcases List.mem_cons.mp member with rfl | old
          · exact refines_of_conforms (before.pacemakerInvariant older)
              (conforms _ (List.mem_cons_self ..)) taken
          · exact (ih before).mpr older m' old
  exact ⟨fun refines => steps.mp refines.2,
    fun conforms => ⟨fun _ initial => init_refines k initial, steps.mpr conforms⟩⟩

def checkedRefinement (proposer : ℕ → Fin 4) : RefinementConstants (Fin 4) where
  toServerConstants := checkedConstants oneByzantine proposer
  kDeepFinality := 2
  method := {.txNormal, .txWithdrawal}

theorem refinement_iff_conformingTrace :
    ∃ past now, ServerRun (checkedConstants oneByzantine fun _ => 0) past now ∧
      (∃ qc ∈ now.quorumCerts, qc.type = .mQC) ∧ now.round 0 = 1 ∧
      (∀ m ∈ past, Conforms (checkedRefinement fun _ => 0) m.source m.input) ∧
      ∀ m ∈ past, RefinesStep (checkedRefinement fun _ => 0) m := by
  obtain ⟨past, now, run, passed⟩ := exists_serverRun conformingTrace
    (fun moves s => decide ((∃ qc ∈ s.quorumCerts, qc.type = .mQC) ∧ s.round 0 = 1 ∧
      ∀ m ∈ moves, Conforms (checkedRefinement fun _ => 0) m.source m.input))
    (by decide +kernel : replayPasses
      (ServerNext (checkedConstants oneByzantine fun _ => 0)) _ conformingTrace _ = true)
  obtain ⟨invoked, entered, conforms⟩ := of_decide_eq_true passed
  have refines := (refinement_iff (k := checkedRefinement fun _ => 0) run).mpr conforms
  exact ⟨past, now, run, invoked, entered, conforms, refines.2⟩

/-- A Byzantine leader of round `1` may pull while every honest node is in round `0`. -/
theorem byzantinePull_not_refined :
    ¬ ∀ (k : RefinementConstants (Fin 4)) (past : List (Move (State (Fin 4)) (Action (Fin 4))))
      (now : State (Fin 4)), ServerRun k.toServerConstants past now →
      (∀ start, ServerInit k.toServerConstants start →
        Consensus.Init (abstractConstants k) (mapped k start)) ∧
      ∀ m ∈ past, RefinesStep k m := by
  intro claimed
  let k : RefinementConstants (Fin 4) := checkedRefinement fun r => if r = 1 then 3 else 0
  let start : State (Fin 4) := initialState k.toServerConstants fun _ => 0
  let pulled : State (Fin 4) := { start with quorumCerts := insert (eQC start 1 3) ∅ }
  have taken : ServerNext k.toServerConstants start (.byzantinePull 1) = some pulled := by
    unfold ServerNext ServerByzantinePull
    exact if_pos (by decide)
  have run : ServerRun k.toServerConstants [⟨start, .byzantinePull 1, pulled⟩] pulled :=
    ⟨start, serverInit_zero _ _, .extend .initial taken⟩
  have refines := (claimed k _ _ run).2 _ (List.mem_cons_self ..)
  have atMax : 1 = maxRoundOf k start :=
    conforms_of_refines (PacemakerInvariant.initial k _) taken refines
  exact absurd atMax (by decide)

end Refinement

end Engram.Spec.Server
