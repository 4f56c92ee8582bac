import Engram.Spec.Server.Pacemaker
import Mathlib.Data.Set.Image

/-!
`ServerSpec` against the abstract consensus. A run maps to the abstract consensus step
by step exactly when all its steps conform: as long as they do the mapped variables are
functions of the pacemaker's shell, and each effect on the shell is an abstract action.
-/

set_option autoImplicit false
set_option relaxedAutoImplicit false

namespace Engram.Spec.Server

open Engram.Types Engram.Library

variable {Node : Type} [DecidableEq Node]

section ShellMapping

variable (k : RefinementConstants Node) (c : Shell Node)

noncomputable def certCache (qc : QuorumCert Node) : Consensus.Cache Node Value :=
  match qc.type with
  | .eQC => eCache k qc
  | .mQC => mCache k qc

def shellTree : Set (Consensus.Cache Node Value) :=
  Set.image (certCache k) {qc | qc ∈ c.quorumCerts} ∪
    Set.image (tCache k) {tc | tc ∈ c.timeoutCerts}

def electedRounds : Set ℕ :=
  insert 0 {t | ∃ qc ∈ c.quorumCerts, qc.type = .eQC ∧ t = qc.round + 1}

def shellTimers : Set ℕ :=
  {t | ∃ p ∈ k.honestNodes, c.round p = k.honestNodes.sup c.round ∧ t = c.localRemTime p}

noncomputable def mappedShell : Consensus.State Node Value where
  tree := shellTree k c
  localTimes n := if n ∈ abstractQuorum k then sSup (electedRounds c) else 0
  round := k.honestNodes.sup c.round + 1
  remTime := sInf (shellTimers k c)
  fsmState := if c.env.state = .anchored ∨ c.env.state = .suspicious then .anchored else .sovereign
  hBtcCurrent := c.env.hBtcCurrent + k.kDeepFinality
  hBtcAnchored := c.env.hBtcAnchored + k.kDeepFinality

private theorem shellTree_insert (qc : QuorumCert Node)
    (proposals : ℕ → Finset (ProposalMsg Node)) :
    shellTree k { c with msgsPropose := proposals, quorumCerts := insert qc c.quorumCerts } =
      insert (certCache k qc) (shellTree k c) := by
  have grown : {q | q ∈ insert qc c.quorumCerts} = insert qc {q | q ∈ c.quorumCerts} := by
    ext q
    exact Finset.mem_insert
  unfold shellTree
  rw [grown, Set.image_insert_eq, Set.insert_union]

variable {k}

theorem certRound_certCache (qc : QuorumCert Node) :
    (certCache k qc).certRound = qc.round + 1 := by
  unfold certCache
  cases qc.type <;> rfl

theorem caller_certCache (qc : QuorumCert Node) : (certCache k qc).caller = qc.caller := by
  unfold certCache
  cases qc.type <;> rfl

theorem ne_certCache {x : Consensus.Cache Node Value} (other : x.type = .c ∨ x.type = .t)
    (qc : QuorumCert Node) : x ≠ certCache k qc := by
  rintro rfl
  unfold certCache at other
  cases type : qc.type <;> rw [type] at other <;> rcases other with isC | isT <;> contradiction

theorem type_eq_of_certCache_eq {qc qc' : QuorumCert Node}
    (same : certCache k qc = certCache k qc') : qc.type = qc'.type := by
  have sameType := congrArg Consensus.Cache.type same
  unfold certCache at sameType
  cases type : qc.type with
  | eQC =>
      cases type' : qc'.type with
      | eQC => rfl
      | mQC =>
          rw [type, type'] at sameType
          cases sameType
  | mQC =>
      cases type' : qc'.type with
      | eQC =>
          rw [type, type'] at sameType
          cases sameType
      | mQC => rfl

variable {s : State Node}

theorem mem_tree_of_quorumCert {qc : QuorumCert Node} (issued : qc ∈ s.quorumCerts) :
    certCache k qc ∈ mappedTree k s := by
  unfold certCache
  cases type : qc.type with
  | eQC => exact .inl (.inl (.inl ⟨qc, issued, type, rfl⟩))
  | mQC => exact .inl (.inl (.inr ⟨qc, issued, type, rfl⟩))

theorem mem_tree_of_timeoutCert {tc : TimeoutCert Node} (issued : tc ∈ s.timeoutCerts) :
    tCache k tc ∈ mappedTree k s :=
  .inr ⟨tc, issued, rfl⟩

theorem mem_tree_cases {x : Consensus.Cache Node Value} (member : x ∈ mappedTree k s) :
    (∃ qc ∈ s.quorumCerts, x = certCache k qc) ∨ x ∈ mappedCCaches k s ∨
      ∃ tc ∈ s.timeoutCerts, x = tCache k tc := by
  rcases member with ((⟨qc, issued, type, rfl⟩ | ⟨qc, issued, type, rfl⟩) | commit) | timeout
  · exact .inl ⟨qc, issued, by rw [certCache, type]⟩
  · exact .inl ⟨qc, issued, by rw [certCache, type]⟩
  · exact .inr (.inl commit)
  · exact .inr (.inr timeout)

theorem PacemakerInvariant.no_cCache (invariant : PacemakerInvariant k s)
    {x : Consensus.Cache Node Value} : x ∉ mappedCCaches k s := by
  rintro ⟨r, -, m, -, b, -, quorum, -⟩
  exact invariant.no_commit r b quorum

theorem PacemakerInvariant.mapped_eq (invariant : PacemakerInvariant k s) :
    mapped k s = mappedShell k s.shell := by
  have tree : mappedTree k s = shellTree k s.shell := by
    ext x
    constructor
    · intro member
      rcases mem_tree_cases member with ⟨qc, issued, rfl⟩ | commit | ⟨tc, issued, rfl⟩
      · exact .inl ⟨qc, issued, rfl⟩
      · exact absurd commit invariant.no_cCache
      · exact .inr ⟨tc, issued, rfl⟩
    · rintro (⟨qc, issued, rfl⟩ | ⟨tc, issued, rfl⟩)
      · exact mem_tree_of_quorumCert issued
      · exact mem_tree_of_timeoutCert issued
  have participated : participatedRounds k s = electedRounds s.shell := by
    ext t
    constructor
    · rintro ((zero | elected) | ⟨x, commit, -⟩)
      · exact .inl zero
      · exact .inr elected
      · exact absurd commit invariant.no_cCache
    · rintro (zero | elected)
      · exact .inl (.inl zero)
      · exact .inl (.inr elected)
  have times : mappedLocalTimes k s =
      fun n => if n ∈ abstractQuorum k then sSup (electedRounds s.shell) else 0 := by
    funext n
    rw [mappedLocalTimes, participated]
  unfold mapped mappedShell
  rw [tree, times]
  rfl

end ShellMapping

section LocalTimes

variable {c : Shell Node}

omit [DecidableEq Node] in
theorem sSup_electedRounds_le {r : ℕ}
    (bound : ∀ qc ∈ c.quorumCerts, qc.type = .eQC → qc.round + 1 ≤ r) :
    sSup (electedRounds c) ≤ r := by
  apply csSup_le ⟨0, .inl rfl⟩
  rintro t (rfl | ⟨qc, issued, isE, rfl⟩)
  · exact Nat.zero_le r
  · exact bound qc issued isE

omit [DecidableEq Node] in
private theorem sSup_electedRounds_eq {r : ℕ}
    (bound : ∀ qc ∈ c.quorumCerts, qc.type = .eQC → qc.round + 1 ≤ r) {qc : QuorumCert Node}
    (issued : qc ∈ c.quorumCerts) (isE : qc.type = .eQC) (latest : qc.round + 1 = r) :
    sSup (electedRounds c) = r := by
  have greatest : IsGreatest (electedRounds c) r := by
    refine ⟨.inr ⟨qc, issued, isE, latest.symm⟩, ?_⟩
    rintro t (rfl | ⟨qc', issued', isE', rfl⟩)
    · exact Nat.zero_le r
    · exact bound qc' issued' isE'
  exact greatest.csSup_eq

end LocalTimes

section Timers

variable {k : RefinementConstants Node} {c : Shell Node}

theorem sInf_shellTimers_eq {q : Node} (honest : q ∈ k.honestNodes)
    (atMax : c.round q = k.honestNodes.sup c.round)
    (least : ∀ p ∈ k.honestNodes, c.round p = k.honestNodes.sup c.round →
      c.localRemTime q ≤ c.localRemTime p) :
    sInf (shellTimers k c) = c.localRemTime q := by
  have isLeast : IsLeast (shellTimers k c) (c.localRemTime q) := by
    refine ⟨⟨q, honest, atMax, rfl⟩, ?_⟩
    rintro t ⟨p, other, current, rfl⟩
    exact least p other current
  exact isLeast.csInf_eq

private theorem exists_least_timer (k : RefinementConstants Node) (s : State Node) :
    ∃ q ∈ k.honestNodes, s.round q = maxRoundOf k s ∧
      sInf (shellTimers k s.shell) = s.localRemTime q ∧
      ∀ p ∈ k.honestNodes, s.round p = maxRoundOf k s → s.localRemTime q ≤ s.localRemTime p := by
  obtain ⟨p, honest, reached⟩ := exists_round_eq_max k.toServerConstants s
  have attained := Nat.sInf_mem (⟨_, p, honest, reached, rfl⟩ : (shellTimers k s.shell).Nonempty)
  obtain ⟨q, other, atMax, least⟩ := attained
  refine ⟨q, other, atMax, least, ?_⟩
  intro p' honest' atMax'
  have below : sInf (shellTimers k s.shell) ≤ s.localRemTime p' :=
    Nat.sInf_le ⟨p', honest', atMax', rfl⟩
  exact (show s.localRemTime q = _ from least.symm) ▸ below

theorem timerRanOut_iff {s : State Node} :
    TimerRanOut k s ↔ (mappedShell k s.shell).remTime = 0 := by
  obtain ⟨q, honest, atMax, isMin, least⟩ := exists_least_timer k s
  constructor
  · rintro ⟨p, honest', atMax', expired⟩
    have below := least p honest' atMax'
    change sInf (shellTimers k s.shell) = 0
    omega
  · intro expired
    refine ⟨q, honest, atMax, ?_⟩
    rw [← isMin]
    exact expired

end Timers

section Forward

variable {k : RefinementConstants Node} {s s' : State Node}

private theorem ticked_of_unblocked (invariant : PacemakerInvariant k s)
    (unblocked : ∀ qc ∈ s.quorumCerts, qc.round ≠ maxRoundOf k s) {p : Node}
    (atMax : s.round p = maxRoundOf k s) : tickedTimers s p = s.localRemTime p - 1 := by
  have waiting : ¬ ∃ m ∈ s.receivedTimelyProposal p, m.round = s.round p := by
    rintro ⟨m, member, sameRound⟩
    have proposed := invariant.received p m member
    obtain ⟨qc, issued, -, atRound, -⟩ := invariant.proposed_cert _ m proposed
    exact unblocked qc issued (by rw [atRound, sameRound, atMax])
  simp only [tickedTimers, waiting, not_false_eq_true, and_true]
  split <;> omega

private theorem tick_refines (invariant : PacemakerInvariant k s)
    (unblocked : ∀ qc ∈ s.quorumCerts, qc.round ≠ maxRoundOf k s) :
    Consensus.Elapse (mappedShell k s.shell)
        (mappedShell k { s.shell with localRemTime := tickedTimers s }) ∨
      mappedShell k { s.shell with localRemTime := tickedTimers s } = mappedShell k s.shell := by
  obtain ⟨q, honest, atMax, isMin, least⟩ := exists_least_timer k s
  have ticked : sInf (shellTimers k { s.shell with localRemTime := tickedTimers s }) =
      tickedTimers s q := by
    apply sInf_shellTimers_eq honest atMax
    intro p other current
    change tickedTimers s q ≤ tickedTimers s p
    rw [ticked_of_unblocked invariant unblocked atMax,
      ticked_of_unblocked invariant unblocked current]
    have below := least p other current
    omega
  rw [ticked_of_unblocked invariant unblocked atMax] at ticked
  have shape : mappedShell k { s.shell with localRemTime := tickedTimers s } =
      { mappedShell k s.shell with remTime := sInf (shellTimers k s.shell) - 1 } := by
    unfold mappedShell
    rw [ticked, isMin]
    rfl
  rw [shape]
  rcases Nat.eq_zero_or_pos (sInf (shellTimers k s.shell)) with zero | positive
  · right
    rw [zero]
    unfold mappedShell
    rw [zero]
  · left
    refine ⟨?_, positive, rfl⟩
    rintro ⟨x, member, atRound, isEM⟩
    rcases member with ⟨qc, issued, rfl⟩ | ⟨tc, issued, rfl⟩
    · rw [certRound_certCache] at atRound
      exact unblocked qc issued (Nat.succ.inj atRound)
    · rcases isEM with isE | isM
      · cases isE
      · cases isM

private theorem environment_refines (invariant : PacemakerInvariant k s) (u : SensorUpdate) :
    Consensus.UpdateEnv (mappedShell k s.shell)
      (mappedShell k { s.shell with env := UpdateSensors k.toServerConstants s.env u }) := by
  obtain ⟨current, submitted, anchored⟩ := updateSensors_heights k.toServerConstants s.env u
  have low := invariant.anchored_le
  have high := invariant.submitted_le
  refine ⟨(UpdateSensors k.toServerConstants s.env u).hBtcCurrent + k.kDeepFinality, ?_,
    (UpdateSensors k.toServerConstants s.env u).hBtcAnchored + k.kDeepFinality, ?_, ?_, ?_⟩
  · change _ = s.env.hBtcCurrent + k.kDeepFinality ∨ _ = s.env.hBtcCurrent + k.kDeepFinality + 1
    rw [current]
    unfold grown
    split_ifs <;> omega
  · change s.env.hBtcAnchored + k.kDeepFinality ≤ _
    rw [anchored]
    unfold grown
    split_ifs <;> omega
  · rw [anchored, current]
    unfold grown
    split_ifs <;> omega
  · unfold mappedShell
    rw [updateSensors_state]
    rfl

def enteredShell (k : RefinementConstants Node) (s : State Node) (p : Node) (r : ℕ)
    (timeouts : ℕ → Finset (TimeoutMsg Node)) : Shell Node :=
  { s.shell with
    round := Function.update s.round p r
    localRemTime := Function.update s.localRemTime p k.timeoutDuration
    msgsTimeout := timeouts }

private theorem sup_update_le {p : Node} {r bound : ℕ}
    (below : ∀ x ∈ k.honestNodes, s.round x ≤ bound) (entered : r ≤ bound) :
    k.honestNodes.sup (Function.update s.round p r) ≤ bound := by
  refine Finset.sup_le fun x member => ?_
  by_cases same : x = p
  · rw [same, Function.update_self]
    exact entered
  · rw [Function.update_of_ne same]
    exact below x member

private theorem enter_behind (invariant : PacemakerInvariant k s) {p : Node} {r : ℕ}
    (timeouts : ℕ → Finset (TimeoutMsg Node)) (forward : s.round p < r)
    (behind : r ≤ maxRoundOf k s) :
    mappedShell k (enteredShell k s p r timeouts) = mappedShell k s.shell := by
  obtain ⟨q, honest, atMax, isMin, least⟩ := exists_least_timer k s
  have other : q ≠ p := by
    rintro rfl
    omega
  have sameRound : Function.update s.round p r q = maxRoundOf k s := by
    rw [Function.update_of_ne other]
    exact atMax
  have top : k.honestNodes.sup (Function.update s.round p r) = maxRoundOf k s := by
    apply Nat.le_antisymm
    · exact sup_update_le (fun _ => round_le_max) behind
    · rw [← sameRound]
      exact Finset.le_sup honest
  have timers : sInf (shellTimers k (enteredShell k s p r timeouts)) =
      sInf (shellTimers k s.shell) := by
    have sameTimer : (enteredShell k s p r timeouts).localRemTime q = s.localRemTime q :=
      Function.update_of_ne other _ _
    rw [isMin, ← sameTimer]
    apply sInf_shellTimers_eq honest (sameRound.trans top.symm)
    intro x member current
    rw [sameTimer]
    change _ ≤ Function.update s.localRemTime p k.timeoutDuration x
    by_cases same : x = p
    · rw [same, Function.update_self]
      exact invariant.timer_le q honest
    · rw [Function.update_of_ne same]
      apply least x member
      have unchanged : Function.update s.round p r x = s.round x := Function.update_of_ne same _ _
      rw [← unchanged, ← top]
      exact current
  exact Consensus.State.ext rfl rfl (congrArg Nat.succ top) timers rfl rfl rfl

private theorem enter_ahead {p : Node} (timeouts : ℕ → Finset (TimeoutMsg Node))
    (honest : p ∈ k.honestNodes) :
    mappedShell k (enteredShell k s p (maxRoundOf k s + 1) timeouts) =
      Consensus.startNext (abstractConstants k) (mappedShell k s.shell) := by
  have own : Function.update s.round p (maxRoundOf k s + 1) p = maxRoundOf k s + 1 :=
    Function.update_self _ _ _
  have top : k.honestNodes.sup (Function.update s.round p (maxRoundOf k s + 1)) =
      maxRoundOf k s + 1 := by
    apply Nat.le_antisymm
    · refine sup_update_le (fun x member => ?_) (Nat.le_refl _)
      exact Nat.le_succ_of_le (round_le_max member)
    · have reached := Finset.le_sup (f := Function.update s.round p (maxRoundOf k s + 1)) honest
      rw [own] at reached
      exact reached
  have timers : sInf (shellTimers k (enteredShell k s p (maxRoundOf k s + 1) timeouts)) =
      k.timeoutDuration := by
    have ownTimer : (enteredShell k s p (maxRoundOf k s + 1) timeouts).localRemTime p =
        k.timeoutDuration := Function.update_self _ _ _
    rw [← ownTimer]
    apply sInf_shellTimers_eq honest (own.trans top.symm)
    intro x member current
    have reached : Function.update s.round p (maxRoundOf k s + 1) x = maxRoundOf k s + 1 :=
      Eq.trans current top
    by_cases same : x = p
    · rw [same]
    · rw [Function.update_of_ne same] at reached
      have bound : s.round x ≤ maxRoundOf k s := round_le_max member
      omega
  exact Consensus.State.ext rfl rfl (congrArg Nat.succ top) timers rfl rfl rfl

private theorem enter_refines (invariant : PacemakerInvariant k s) {p : Node} {r : ℕ}
    (timeouts : ℕ → Finset (TimeoutMsg Node)) (honest : p ∈ k.honestNodes) (forward : s.round p < r)
    (reach : r ≤ maxRoundOf k s ∨ (r = maxRoundOf k s + 1 ∧ MayLeave k s)) :
    Consensus.Next (abstractConstants k) (mappedShell k s.shell)
        (mappedShell k (enteredShell k s p r timeouts)) ∨
      mappedShell k (enteredShell k s p r timeouts) = mappedShell k s.shell := by
  rcases reach with behind | ⟨rfl, expired | ⟨tqc, issued, atRound⟩⟩
  · exact .inr (enter_behind invariant timeouts forward behind)
  · exact .inl (.inr (.inl ⟨timerRanOut_iff.mp expired, enter_ahead timeouts honest⟩))
  · refine .inl (.inr (.inr (.inr (.inl ⟨?_, enter_ahead timeouts honest⟩))))
    refine ⟨tCache k tqc, .inr ⟨tqc, issued, rfl⟩, rfl, ?_⟩
    change tqc.round + 1 = maxRoundOf k s + 1
    rw [atRound]

private theorem active_certRound (c : Shell Node) (n : Node) :
    (Consensus.Active (mappedShell k c) n).certRound = 0 := by
  unfold Consensus.Active
  rw [dif_neg]
  rintro ⟨x, ⟨qc, -, rfl⟩ | ⟨tc, -, rfl⟩, isC, -⟩
  · exact ne_certCache (.inl isC) qc rfl
  · cases isC

private theorem canElect_virtualRoot (k : RefinementConstants Node) (s : State Node) :
    Consensus.CanElect (abstractConstants k) (mappedShell k s.shell)
      (Consensus.VirtualRoot (abstractConstants k))
      (Consensus.chosenQuorum (abstractConstants k)) := by
  refine ⟨rfl, fun n _ => (active_certRound s.shell n).le, ?_⟩
  have modes : (mappedShell k s.shell).fsmState = .anchored ∨
      (mappedShell k s.shell).fsmState = .sovereign := by
    unfold mappedShell
    split_ifs
    · exact .inl rfl
    · exact .inr rfl
  rcases modes with anchored | sovereign
  · rw [anchored]
    refine ⟨Nat.zero_le _, ?_⟩
    change ((s.env.hBtcCurrent + k.kDeepFinality : ℕ) : ℤ) - ((0 : ℕ) : ℤ) ≥ k.kDeepFinality
    omega
  · rw [sovereign]
    exact .inl rfl

private theorem pull_refines (invariant : PacemakerInvariant k s) {caller : Node}
    (known : caller ∈ k.system.nodes)
    (fresh : ∀ qc ∈ s.quorumCerts, qc.type = .eQC → qc.round ≠ maxRoundOf k s)
    (proposals : ℕ → Finset (ProposalMsg Node)) :
    Consensus.Next (abstractConstants k) (mappedShell k s.shell) (mappedShell k { s.shell with
      msgsPropose := proposals
      quorumCerts := insert (eQC s (maxRoundOf k s) caller) s.quorumCerts }) := by
  have earlier : ∀ qc ∈ s.shell.quorumCerts, qc.type = .eQC → qc.round + 1 ≤ maxRoundOf k s := by
    intro qc issued isE
    have bound := (invariant.eQC_leader qc issued isE).2.1
    have differs := fresh qc issued isE
    omega
  have elects := canElect_virtualRoot k s
  have times : sSup (electedRounds { s.shell with
      msgsPropose := proposals
      quorumCerts := insert (eQC s (maxRoundOf k s) caller) s.quorumCerts }) =
        maxRoundOf k s + 1 := by
    refine sSup_electedRounds_eq ?_ (Finset.mem_insert_self _ _) rfl rfl
    intro qc issued isE
    rcases Finset.mem_insert.mp issued with rfl | old
    · exact Nat.le_refl _
    · exact Nat.le_succ_of_le (earlier qc old isE)
  refine .inr (.inr (.inr (.inr (.inl ⟨caller, known, Consensus.VirtualRoot (abstractConstants k),
    .inl rfl, elects, ?_, s.env.hBtcCurrent + k.kDeepFinality, .inr rfl, ?_⟩))))
  · have below := sSup_electedRounds_le earlier
    change (if caller ∈ abstractQuorum k then sSup (electedRounds s.shell) else 0) <
      maxRoundOf k s + 1
    split_ifs <;> omega
  · rw [chosenQuorum_eq]
    have tree := shellTree_insert k s.shell (eQC s (maxRoundOf k s) caller) proposals
    refine Consensus.State.ext tree ?_ rfl rfl rfl rfl rfl
    funext n
    change (if n ∈ abstractQuorum k then sSup (electedRounds _) else 0) =
      if n ∈ abstractQuorum k then maxRoundOf k s + 1
      else if n ∈ abstractQuorum k then sSup (electedRounds s.shell) else 0
    rw [times]
    split_ifs <;> rfl

private theorem invoke_refines {caller : Node} {value : Value} (known : caller ∈ k.system.nodes)
    (method : value ∈ k.method)
    (elected : ∃ qc ∈ s.quorumCerts, qc.type = .eQC ∧ qc.caller = caller ∧
      qc.round = maxRoundOf k s)
    (proposals : ℕ → Finset (ProposalMsg Node)) :
    Consensus.Next (abstractConstants k) (mappedShell k s.shell) (mappedShell k { s.shell with
      msgsPropose := proposals
      quorumCerts := insert (mQC s (maxRoundOf k s) caller value) s.quorumCerts }) := by
  obtain ⟨qc, issued, isE, calledBy, atMax⟩ := elected
  have eCached : certCache k qc = eCache k qc := by
    rw [certCache, isE]
  refine .inr (.inr (.inr (.inr (.inr (.inl ⟨caller, known, value, method, method,
    ⟨certCache k qc, .inl ⟨qc, issued, rfl⟩, ?_, ?_, ?_⟩,
    s.env.hBtcCurrent + k.kDeepFinality, .inr rfl, ?_⟩)))))
  · rw [eCached]
    rfl
  · rw [eCached]
    exact calledBy
  · rw [certRound_certCache, atMax]
    rfl
  · refine Consensus.State.ext
      (shellTree_insert k s.shell (mQC s (maxRoundOf k s) caller value) proposals)
      ?_ rfl rfl rfl rfl rfl
    have elections : electedRounds { s.shell with
        msgsPropose := proposals
        quorumCerts := insert (mQC s (maxRoundOf k s) caller value) s.quorumCerts } =
        electedRounds s.shell := by
      ext t
      constructor
      · rintro (zero | ⟨q, member, type, latest⟩)
        · exact .inl zero
        · rcases Finset.mem_insert.mp member with rfl | old
          · cases type
          · exact .inr ⟨q, old, type, latest⟩
      · rintro (zero | ⟨q, member, type, latest⟩)
        · exact .inl zero
        · exact .inr ⟨q, Finset.mem_insert_of_mem member, type, latest⟩
    funext n
    exact congrArg (fun rounds => if n ∈ abstractQuorum k then sSup rounds else 0) elections

private theorem certify_refines {caller : Node} (known : caller ∈ k.system.nodes)
    (fresh : ∀ tqc ∈ s.timeoutCerts, tqc.round ≠ maxRoundOf k s) :
    Consensus.Next (abstractConstants k) (mappedShell k s.shell) (mappedShell k { s.shell with
      timeoutCerts := insert (tQC s (maxRoundOf k s) caller) s.timeoutCerts }) := by
  refine .inr (.inr (.inr (.inr (.inr (.inr (.inr (.inl ⟨caller, known, ?_,
    s.env.hBtcCurrent + k.kDeepFinality, .inr rfl, ?_⟩)))))))
  · rintro ⟨x, ⟨qc, -, rfl⟩ | ⟨tc, issued, rfl⟩, isT, atRound⟩
    · exact ne_certCache (.inr isT) qc rfl
    · exact fresh tc issued (Nat.succ.inj atRound)
  · have grown : {tc | tc ∈ insert (tQC s (maxRoundOf k s) caller) s.timeoutCerts} =
        insert (tQC s (maxRoundOf k s) caller) {tc | tc ∈ s.timeoutCerts} := by
      ext tc
      exact Finset.mem_insert
    have tree : shellTree k { s.shell with
        timeoutCerts := insert (tQC s (maxRoundOf k s) caller) s.timeoutCerts } =
        insert (tCache k (tQC s (maxRoundOf k s) caller)) (shellTree k s.shell) := by
      unfold shellTree
      rw [grown, Set.image_insert_eq, Set.union_insert]
      rfl
    rw [chosenQuorum_eq]
    exact Consensus.State.ext tree rfl rfl rfl rfl rfl rfl

private theorem effect_refines (invariant : PacemakerInvariant k s) (effect : Effect k s s') :
    Consensus.Next (abstractConstants k) (mappedShell k s.shell) (mappedShell k s'.shell) ∨
      mappedShell k s'.shell = mappedShell k s.shell := by
  cases effect with
  | quiet same => exact .inr (by rw [same])
  | lock _ _ same => exact .inr (by rw [same])
  | tick unblocked ticked =>
      rw [ticked]
      exact (tick_refines invariant unblocked).imp .inl id
  | environment u updated =>
      rw [updated]
      exact .inl (.inr (.inr (.inr (.inr (.inr (.inr (.inr (.inr (.inl
        (environment_refines invariant u))))))))))
  | enter p r honest forward _ reach _ entered =>
      rw [entered]
      exact enter_refines invariant _ honest forward reach
  | timer _ _ _ sent =>
      rw [sent]
      exact .inr rfl
  | pull caller known _ fresh _ _ _ certified =>
      rw [certified]
      exact .inl (pull_refines invariant known fresh _)
  | invoke caller value known method elected _ _ _ _ certified =>
      obtain ⟨qc, issued, isE, calledBy, atMax, -⟩ := elected
      rw [certified]
      exact .inl (invoke_refines known method ⟨qc, issued, isE, calledBy, atMax⟩ _)
  | certify caller known fresh certified =>
      rw [certified]
      exact .inl (certify_refines known fresh)

theorem refines_of_conforms (invariant : PacemakerInvariant k s) {a : Action Node}
    (conforms : Conforms k s a) (taken : ServerNext k.toServerConstants s a = some s') :
    RefinesStep k ⟨s, a, s'⟩ := by
  have after := invariant.step conforms taken
  unfold RefinesStep
  simp only
  rw [invariant.mapped_eq, after.mapped_eq]
  exact effect_refines invariant (effect_of_conforms invariant conforms taken)

end Forward

end Engram.Spec.Server
