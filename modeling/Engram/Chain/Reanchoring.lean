import Engram.Chain.Step

/-!
Which outage a re-anchoring is paid by. The exit gate of RECOVERING reads a
latched recovery proof or a confirmed submission. The latch never outlives the
locked interval it was set in; the submission marker does.
-/

set_option autoImplicit false
set_option relaxedAutoImplicit false

namespace Engram.Chain

open Engram.Types Engram.Keeper Engram.Node Engram.Library Engram.Fsm

section Messages

variable {external : External} {st : Store}

private theorem acceptsProof_iff {msg : Msg} :
    acceptsProof external st msg = true ↔ ∃ proof st', msg = .submitRecoveryProof proof ∧
      submitRecoveryProof external.verifyZKProof st proof = .ok st' := by
  constructor
  · intro accepted
    cases msg with
    | submitRecoveryProof proof =>
        cases handled : submitRecoveryProof external.verifyZKProof st proof with
        | ok st' => exact ⟨proof, st', rfl, handled⟩
        | error _ => simp [acceptsProof, handled, Except.isOk, Except.toBool] at accepted
    | _ => cases accepted
  · rintro ⟨proof, st', rfl, handled⟩
    simp [acceptsProof, handled, Except.isOk, Except.toBool]

private theorem deliver_without_proof {msg : Msg} (refused : acceptsProof external st msg = false) :
    (deliver external st msg).headerHistory = st.headerHistory ∧
      (deliver external st msg).realProofSubmittedHeight = st.realProofSubmittedHeight := by
  obtain same | ⟨_, _, same⟩ | ⟨_, _, same⟩ | ⟨proof, st', isProof, accepted, _⟩ :=
    deliver_cases external st msg
  · rw [same]
    exact ⟨rfl, rfl⟩
  · rw [same]
    exact ⟨rfl, rfl⟩
  · rw [same]
    exact ⟨rfl, rfl⟩
  · rw [acceptsProof_iff.mpr ⟨proof, st', isProof, accepted⟩] at refused
    cases refused

private theorem deliverAll_without_proof {msgs : List Msg}
    (refused : proofAccepted external st msgs = false) :
    (deliverAll external st msgs).headerHistory = st.headerHistory ∧
      (deliverAll external st msgs).realProofSubmittedHeight = st.realProofSubmittedHeight := by
  induction msgs generalizing st with
  | nil => exact ⟨rfl, rfl⟩
  | cons msg msgs ih =>
      simp only [proofAccepted, Bool.or_eq_false_iff] at refused
      obtain ⟨headers, latch⟩ := deliver_without_proof refused.1
      obtain ⟨headers', latch'⟩ := ih refused.2
      exact ⟨headers'.trans headers, latch'.trans latch⟩

private theorem proofAccepted_untracked (external : External) {st : Store} (msgs : List Msg)
    (untracked : st.headerHistory.entries = []) :
    proofAccepted external st msgs = false := by
  induction msgs generalizing st with
  | nil => rfl
  | cons msg msgs ih =>
      have refused : acceptsProof external st msg = false := by
        rw [Bool.eq_false_iff]
        intro accepted
        obtain ⟨proof, st', _, handled⟩ := acceptsProof_iff.mp accepted
        obtain ⟨_, _, _, height, found, _⟩ := submitRecoveryProof_cases handled
        simp [Store.findHeaderByStateRoot, untracked] at found
      have kept := (deliver_without_proof refused).1
      simp only [proofAccepted, refused, Bool.false_or]
      exact ih (by rw [kept, untracked])

end Messages

def provesRecovery (external : External) (p : Params) (m : Move Chain Block) : Bool :=
  proofAccepted external (afterPreBlock external p m.source m.input) m.input.msgs

def lockedInterval (past : List (Move Chain Block)) : List (Move Chain Block) :=
  past.takeWhile (fun m => withdrawLocked m.target.state)

/-- Every block that closes a recovery is preceded, in its own locked interval, by
an accepted recovery proof. -/
def ProvenInSameOutage (external : External) (p : Params) (past : List (Move Chain Block)) :
    Prop :=
  ∀ newer m older, past = newer ++ m :: older → m.source.state = .recovering →
    m.target.state = .anchored → ∃ x ∈ lockedInterval older, provesRecovery external p x = true

/-- The latch belongs to the current locked interval, and outside of one nothing
is tracked. -/
structure LatchInvariant (external : External) (p : Params) (past : List (Move Chain Block))
    (c : Chain) : Prop where
  unlocked : withdrawLocked c.state = false →
    c.store.headerHistory.entries = [] ∧ c.store.realProofSubmittedHeight = 0
  latched : c.store.realProofSubmittedHeight ≠ 0 →
    ∃ x ∈ lockedInterval past, provesRecovery external p x = true
  flag : c.store.reanchoringProofValid = false

/-- What a commit leaves of the latch and of the tracked headers when it ends, or
stays outside, a locked interval. -/
theorem commit_unlocked (p : Params) (height : UInt64) (appHash : Bytes) {st : Store}
    {ext : ExtendedProposal} (target : withdrawLocked ext.fsmState = false)
    (entered : st.currState ≠ .sovereign)
    (idle : withdrawLocked st.currState = false →
      st.headerHistory.entries = [] ∧ st.realProofSubmittedHeight = 0) :
    (commitFSMTransition p height appHash st ext).headerHistory.entries = [] ∧
      (commitFSMTransition p height appHash st ext).realProofSubmittedHeight = 0 := by
  have left : ext.fsmState ≠ .recovering := by
    rintro same
    simp [same, withdrawLocked] at target
  simp only [commitFSMTransition, target, Bool.false_eq_true, if_false]
  cases locked : withdrawLocked st.currState with
  | true =>
      have recovering : st.currState = .recovering := by
        cases state : st.currState <;> simp_all [withdrawLocked]
      rw [if_pos rfl, if_pos ⟨recovering, left⟩]
      exact ⟨pruneHeaderHistory_entries st, rfl⟩
  | false =>
      obtain ⟨untracked, empty⟩ := idle locked
      refine ⟨by simpa using untracked, ?_⟩
      split
      · rfl
      · exact empty

theorem lockedInterval_cons {m : Move Chain Block} {past : List (Move Chain Block)}
    (locked : withdrawLocked m.target.state = true) :
    lockedInterval (m :: past) = m :: lockedInterval past :=
  List.takeWhile_cons_of_pos locked

/-- SOVEREIGN is left for RECOVERING only, so a block that commits an unlocked
state was not taken from it. -/
theorem Carries.not_from_sovereign {external : External} {p : Params} {c : Chain} {b : Block}
    {ext : ExtendedProposal} {innerTxs : List Bytes}
    (carries : Carries external p c b ext innerTxs)
    (target : withdrawLocked ext.fsmState = false) : c.store.currState ≠ .sovereign := by
  intro sovereign
  have guards := (core c.store).target_cases p (reading p c b.sensors)
  rw [← carries.recomputed.1] at guards
  change (core c.store).state = .sovereign at sovereign
  cases named : ext.fsmState <;> simp_all [withdrawLocked]

theorem LatchInvariant.step {external : External} {p : Params} {past : List (Move Chain Block)}
    {c c' : Chain} {b : Block} (held : LatchInvariant external p past c)
    (decided : decideBlock external p c b = some c') :
    LatchInvariant external p (⟨c, b, c'⟩ :: past) c' := by
  obtain ⟨ext, innerTxs, st, carries, kept, executed, moved⟩ := decideBlock_cases decided
  have committed := decided_committed decided carries
  have state : c'.state = ext.fsmState := committed.currState
  have flag : c'.store.reanchoringProofValid = false := by
    rw [committed.proofFlag, held.flag, ite_self]
  have stored : c'.store = deliverAll external (afterPreBlock external p c b) b.msgs := by
    rw [moved, executed]
  obtain ⟨headersKept, _, latchKept⟩ := kept.recovery
  cases target : withdrawLocked ext.fsmState with
  | false =>
      obtain ⟨untracked, empty⟩ := commit_unlocked p c.nextHeight b.appHash target
        (by rw [kept.currState]; exact carries.not_from_sovereign target)
        (by rw [kept.currState, headersKept, latchKept]; exact held.unlocked)
      rw [← executed] at untracked empty
      obtain ⟨headers, latch⟩ := deliverAll_without_proof
        (proofAccepted_untracked external b.msgs untracked)
      rw [← stored] at headers latch
      refine ⟨fun _ => ⟨by rw [headers, untracked], by rw [latch, empty]⟩, ?_, flag⟩
      intro occupied
      exact absurd (latch.trans empty) occupied
  | true =>
      refine ⟨?_, ?_, flag⟩
      · intro unlocked
        rw [state, target] at unlocked
        cases unlocked
      · intro occupied
        rw [lockedInterval_cons (by rw [state, target])]
        cases proven : provesRecovery external p ⟨c, b, c'⟩ with
        | true => exact ⟨_, List.mem_cons_self, proven⟩
        | false =>
            -- an occupied latch was occupied before the block as well
            have latch := (deliverAll_without_proof proven).2
            rw [← stored, executed] at latch
            have before : c.store.realProofSubmittedHeight ≠ 0 := by
              intro empty
              apply occupied
              rw [latch]
              simp only [commitFSMTransition, latchKept, empty, ite_self]
            obtain ⟨x, member, accepted⟩ := held.latched before
            exact ⟨x, List.mem_cons_of_mem _ member, accepted⟩

theorem latchInvariant_of_run {external : External} {p : Params}
    {past : List (Move Chain Block)} {now : Chain} (run : ChainRun external p past now) :
    LatchInvariant external p past now := by
  induction run with
  | initial => exact ⟨fun _ => ⟨rfl, rfl⟩, fun occupied => absurd rfl occupied, rfl⟩
  | extend _ taken ih => exact ih.step taken

private theorem latched_of_reanchoring {external : External} {p : Params} {c c' : Chain} {b : Block}
    (decided : decideBlock external p c b = some c')
    (flag : c.store.reanchoringProofValid = false) (closing : c.state = .recovering)
    (closed : c'.state = .anchored) (unconfirmed : heuristicValid c.store = false) :
    c.store.realProofSubmittedHeight ≠ 0 := by
  have target : (core c.store).target p (reading p c b.sensors) = .anchored := by
    have moved := (decideBlock_advance decided).1
    rw [← closed]
    exact (congrArg Core.state moved).symm
  obtain ⟨_, _, valid⟩ := Core.reanchor_guards closing target
  cases sensors : b.sensors with
  | none =>
      rw [sensors] at valid
      exact absurd (flag.symm.trans valid) Bool.false_ne_true
  | some s =>
      rw [sensors] at valid
      change refreshReanchoringProofValid p c.store = true at valid
      intro empty
      simp [refreshReanchoringProofValid, unconfirmed, realProofValid, empty] at valid

/-- In every run whose closing blocks all find the submission marker unconfirmed,
every re-anchoring is proven in its own outage. -/
theorem proven_in_same_outage {external : External} {p : Params}
    {past : List (Move Chain Block)} {now : Chain} (run : ChainRun external p past now)
    (unconfirmed : ∀ m ∈ past, m.source.state = .recovering → m.target.state = .anchored →
      heuristicValid m.source.store = false) :
    ProvenInSameOutage external p past := by
  intro newer m older split closing closed
  subst split
  obtain ⟨before, taken⟩ := run.cut
  have held := latchInvariant_of_run before
  have member : m ∈ newer ++ m :: older := List.mem_append_right _ List.mem_cons_self
  exact held.latched (latched_of_reanchoring taken held.flag closing closed
    (unconfirmed m member closing closed))

section Outages

def outageProposal (state : FSMState) (healthy : Bool) : ExtendedProposal :=
  attestedProposal state healthy 0 2

def referenceProposal : ExtendedProposal :=
  { attestedProposal .recovering true 1 2 with zkProofRef := [1] }

def outageProof : SubmitRecoveryProof :=
  ⟨[], fillBytes 2 ++ fillBytes 4 ++ fillBytes 2, 0⟩

def outageExternal : External :=
  .ofProposals [outageProposal .recovering true, outageProposal .anchored true,
    outageProposal .sovereign false, referenceProposal]
    (fun _ inputs => inputs == outageProof.publicInputs)

def liveBlock (ext : ExtendedProposal) (root : UInt8) (msgs : List Msg) : Block :=
  proposalBlock (liveSensors 4 0) ext [root] msgs

def degradingBlock (root : UInt8) : Block :=
  proposalBlock (outageSensors 0) (outageProposal .sovereign false) [root] []

def provenOutage : List Block :=
  [liveBlock (outageProposal .anchored true) 1 [],
    degradingBlock 2,
    liveBlock (outageProposal .recovering true) 3 [],
    liveBlock (outageProposal .recovering true) 4 [],
    liveBlock (outageProposal .recovering true) 5 [.submitRecoveryProof outageProof],
    liveBlock (outageProposal .anchored true) 6 []]

/-- Two later outages without a recovery proof, the last without even a proof
reference. -/
def unprovenOutages : List Block :=
  [degradingBlock 7,
    liveBlock (outageProposal .recovering true) 8 [],
    liveBlock (outageProposal .recovering true) 9 [],
    liveBlock (outageProposal .recovering true) 10 [],
    liveBlock referenceProposal 11 [],
    liveBlock (outageProposal .anchored true) 12 [],
    degradingBlock 13,
    liveBlock (outageProposal .recovering true) 14 [],
    liveBlock (outageProposal .recovering true) 15 [],
    liveBlock (outageProposal .recovering true) 16 [],
    liveBlock (outageProposal .anchored true) 17 []]

theorem proven_in_provenOutage :
    ∃ past now, ChainRun outageExternal defaultParams past now ∧
      (∃ m ∈ past, m.source.state = .recovering ∧ m.target.state = .anchored) ∧
      ProvenInSameOutage outageExternal defaultParams past := by
  obtain ⟨past, now, run, passed⟩ := exists_run_of_replayPasses
    (decideBlock outageExternal defaultParams) genesisChain
    provenOutage
    (fun past _ =>
      past.any (fun m => m.source.state == .recovering && m.target.state == .anchored) &&
        past.all (fun m => !heuristicValid m.source.store))
    (by decide +kernel)
  simp only [Bool.and_eq_true, List.any_eq_true, List.all_eq_true, beq_iff_eq,
    Bool.not_eq_true'] at passed
  obtain ⟨closing, unconfirmed⟩ := passed
  exact ⟨past, now, run, closing,
    proven_in_same_outage run (fun m member _ _ => unconfirmed m member)⟩

/-- The third outage of the run is closed although no recovery proof was accepted
in it. -/
theorem reanchored_without_proof :
    ∃ past now, ChainRun outageExternal defaultParams past now ∧
      ¬ ProvenInSameOutage outageExternal defaultParams past := by
  obtain ⟨m, older, now, run, passed⟩ := exists_run_of_newestPasses
    (decideBlock outageExternal defaultParams) genesisChain
    (provenOutage ++ unprovenOutages)
    (fun m older => m.source.state == .recovering && m.target.state == .anchored &&
      (lockedInterval older).all (fun x => !provesRecovery outageExternal defaultParams x))
    (by decide +kernel)
  simp only [Bool.and_eq_true, beq_iff_eq, List.all_eq_true, Bool.not_eq_true'] at passed
  obtain ⟨⟨closing, closed⟩, unproven⟩ := passed
  refine ⟨_, now, run, fun proven => ?_⟩
  obtain ⟨x, member, accepted⟩ := proven [] m older rfl closing closed
  rw [unproven x member] at accepted
  cases accepted

end Outages

end Engram.Chain
